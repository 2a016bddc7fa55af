import BlockCompiler.Backend

/-!
# Operators

The operators of expression blocks, how they are chosen by a field of the block,
how each target spells them and how tightly they bind there.
-/

namespace BlockCompiler

/-- The strengths of binding that generated expressions know. -/
inductive Binding where
  | call
  | power
  | sign
  | product
  | sum
  | comparison
  | equality
  | negation
  | conjunction
  | disjunction
  | assignment
deriving DecidableEq, Repr

/-- The order of a strength of binding in a target's language. -/
def Target.order : Target → Binding → Order
  | arduino, .call => 1
  | arduino, .power => 1
  | arduino, .sign => 2
  | arduino, .negation => 2
  | arduino, .product => 3
  | arduino, .sum => 4
  | arduino, .comparison => 6
  | arduino, .equality => 7
  | arduino, .conjunction => 11
  | arduino, .disjunction => 12
  | arduino, .assignment => 14
  | microPython, .call => 2
  | microPython, .power => 3
  | microPython, .sign => 4
  | microPython, .product => 5
  | microPython, .sum => 6
  | microPython, .comparison => 11
  | microPython, .equality => 11
  | microPython, .negation => 12
  | microPython, .conjunction => 13
  | microPython, .disjunction => 14
  | microPython, .assignment => Order.loosest

/-- The operators of arithmetic blocks. -/
inductive ArithmeticOp where
  | add
  | subtract
  | multiply
  | divide
  | power
deriving DecidableEq, Repr

namespace ArithmeticOp

/-- The operator that a field names. -/
def ofField? : String → Option ArithmeticOp
  | "ADD" => some add
  | "MINUS" => some subtract
  | "MULTIPLY" => some multiply
  | "DIVIDE" => some divide
  | "POWER" => some power
  | _ => none

/-- How tightly the operator binds. -/
def binding : ArithmeticOp → Binding
  | add | subtract => .sum
  | multiply | divide => .product
  | power => .power

/-- The operator between two expressions. -/
def sign : ArithmeticOp → String
  | add => "+"
  | subtract => "-"
  | multiply => "*"
  | divide => "/"
  | power => "**"

end ArithmeticOp

/-- The operators of comparison blocks. -/
inductive ComparisonOp where
  | equal
  | different
  | less
  | lessOrEqual
  | greater
  | greaterOrEqual
deriving DecidableEq, Repr

namespace ComparisonOp

/-- The operator that a field names; any other text means equality. -/
def ofField : String → ComparisonOp
  | "NEQ" => different
  | "LT" => less
  | "LTE" => lessOrEqual
  | "GT" => greater
  | "GTE" => greaterOrEqual
  | _ => equal

/-- How tightly the operator binds. -/
def binding : ComparisonOp → Binding
  | equal | different => .equality
  | less | lessOrEqual | greater | greaterOrEqual => .comparison

/-- The operator between two expressions. -/
def sign : ComparisonOp → String
  | equal => "=="
  | different => "!="
  | less => "<"
  | lessOrEqual => "<="
  | greater => ">"
  | greaterOrEqual => ">="

end ComparisonOp

/-- The operators of logic blocks. -/
inductive LogicOp where
  | and
  | or
deriving DecidableEq, Repr

namespace LogicOp

/-- The operator that a field names; any other text means `and`. -/
def ofField : String → LogicOp
  | "OR" => or
  | _ => and

/-- How tightly the operator binds. -/
def binding : LogicOp → Binding
  | and => .conjunction
  | or => .disjunction

/-- The operator between two expressions. -/
def sign : Target → LogicOp → String
  | .arduino, and => "&&"
  | .arduino, or => "||"
  | .microPython, and => "and"
  | .microPython, or => "or"

end LogicOp

namespace Target

/-- The word for a truth value. -/
def truth : Target → Bool → String
  | arduino, true => "true"
  | arduino, false => "false"
  | microPython, true => "True"
  | microPython, false => "False"

/-- What stands before an expression to negate it. -/
def negationSign : Target → String
  | arduino => "!"
  | microPython => "not "

/-- What stands for an argument that is not given. -/
def noArgument : Target → String
  | arduino => "0"
  | microPython => "None"

/-- The quote around string literals. -/
def quoteMark : Target → Char
  | arduino => '"'
  | microPython => '\''

end Target

end BlockCompiler
