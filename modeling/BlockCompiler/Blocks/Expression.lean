import BlockCompiler.Blocks.Operator
import BlockCompiler.Job

/-!
# Expression blocks

Numbers, texts, variables, operators and calls.  An operand stands in a place of
its operator's order, so it is put into parentheses unless it binds tighter.
-/

namespace BlockCompiler.Blocks

/-- A name that a field gives, or `fallback`. -/
def nameField (n : Node) (field fallback : String) : String :=
  Text.identifier (n.fieldOr field "") fallback

/-- The trimmed text of a number; a sign makes it bind like one. -/
def number (t : Target) (n : Node) : Code :=
  let text := Text.trim (n.fieldOr "NUM" "0")
  .expression text (if text.toList.head? = some '-' then t.order .sign else Order.atomic)

/-- A truth value. -/
def boolean (t : Target) (n : Node) : Code :=
  .expression (t.truth (n.flag "BOOL" true)) Order.atomic

/-- A character inside a string literal: backslash, quote and line feed are escaped. -/
def literalChar (mark : Char) (c : Char) : List Char :=
  if c = '\\' then ['\\', '\\']
  else if c = mark then ['\\', mark]
  else if c = '\n' then ['\\', 'n']
  else [c]

/-- A string literal. -/
def literal (mark : Char) (s : String) : String :=
  String.ofList (mark :: (s.toList.flatMap (literalChar mark) ++ [mark]))

/-- A text. -/
def text (t : Target) (n : Node) : Code :=
  .expression (literal t.quoteMark ((n.fields.get? "TEXT").getD "")) Order.atomic

/-- The value of a variable. -/
def variableValue (n : Node) : Code :=
  .expression (nameField n "VAR" "item") Order.atomic

/-- Two operands with a sign between them. -/
def binary (j : Job) (n : Node) (sign : String) (order : Order) (fallback : String) :
    Script Code := do
  let a ← j.valueCode n "A" order fallback
  let b ← j.valueCode n "B" order fallback
  return .expression (a ++ " " ++ sign ++ " " ++ b) order

/-- A power by a call, in a language without an operator for it. -/
def powerCall (t : Target) (j : Job) (n : Node) : Script Code := do
  let a ← j.valueCode n "A" Order.loosest "0"
  let b ← j.valueCode n "B" Order.loosest "0"
  return .expression ("pow(" ++ a ++ ", " ++ b ++ ")") (t.order .call)

/-- An arithmetic operator on its operands. -/
def applyArithmetic (t : Target) (j : Job) (n : Node) (op : ArithmeticOp) : Script Code :=
  match t, op with
  | .arduino, .power => powerCall t j n
  | _, _ => binary j n op.sign (t.order op.binding) "0"

/-- An arithmetic block; an unknown operator is noticed and taken for addition. -/
def arithmetic (t : Target) (j : Job) (n : Node) : Script Code :=
  let field := n.fieldOr "OP" "ADD"
  match ArithmeticOp.ofField? field with
  | some op => applyArithmetic t j n op
  | none => do
    Script.notice (.unknownOperator field n.key)
    applyArithmetic t j n .add

/-- A comparison. -/
def comparison (t : Target) (j : Job) (n : Node) : Script Code :=
  let op := ComparisonOp.ofField (n.fieldOr "OP" "EQ")
  binary j n op.sign (t.order op.binding) "0"

/-- A conjunction or disjunction. -/
def logic (t : Target) (j : Job) (n : Node) : Script Code :=
  let op := LogicOp.ofField (n.fieldOr "OP" "AND")
  binary j n (op.sign t) (t.order op.binding) (t.truth false)

/-- A negation. -/
def negation (t : Target) (j : Job) (n : Node) : Script Code := do
  let order := t.order .negation
  let operand ← j.valueCode n "BOOL" order (t.truth true)
  return .expression (t.negationSign ++ operand) order

/-- The arguments of a call, by their numbers. -/
def arguments (t : Target) (j : Job) (n : Node) : Script (List String) :=
  (List.range (n.slotCount ["ARG"])).mapM fun i =>
    j.valueCode n ("ARG" ++ i.repr) Order.loosest t.noArgument

/-- A call. -/
def call (t : Target) (j : Job) (n : Node) : Script String := do
  let args ← arguments t j n
  return nameField n "NAME" "do_something" ++ "(" ++ ", ".intercalate args ++ ")"

/-- A call for its value. -/
def callExpression (t : Target) (j : Job) (n : Node) : Script Code := do
  return .expression (← call t j n) (t.order .call)

end BlockCompiler.Blocks
