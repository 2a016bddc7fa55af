import BlockCompiler.Text.Lines

/-!
# Generated code

A block turns into a statement, which is complete with its line ends, or into an
expression.  The order of an expression says how loosely its outermost operator
binds: parentheses go around an expression whose order does not fit the place it
is put into.
-/

namespace BlockCompiler

/-- How loosely an operator binds; smaller binds tighter. -/
abbrev Order := Nat

/-- The order of names, numbers and whatever else cannot be taken apart. -/
def Order.atomic : Order := 0

/-- The order of a place that takes any expression. -/
def Order.loosest : Order := 99

/-- What a block turns into. -/
inductive Code where
  /-- Statements, with their ends. -/
  | statement (text : String)
  /-- An expression, with the order of its outermost operator. -/
  | expression (text : String) (order : Order)
deriving DecidableEq, Repr

namespace Code

/-- No code at all. -/
def empty : Code :=
  .statement ""

instance : Inhabited Code where
  default := empty

/-- The text of the code. -/
def text : Code → String
  | statement t | expression t _ => t

/-- There is no text. -/
def isEmpty (c : Code) : Bool :=
  c.text.isEmpty

end Code

/-- An expression of order `inner` as it stands in a place of order `outer`. -/
def parenthesize (text : String) (inner outer : Order) : String :=
  let neutral := inner == outer && (outer == Order.atomic || outer == Order.loosest)
  if outer ≤ inner && !neutral then "(" ++ text ++ ")" else text

/-- The textual conventions of a target language. -/
structure Formatting where
  /-- What ends a statement. -/
  separator : String
  /-- What begins a comment. -/
  commentMark : String
  /-- One step of indentation. -/
  indentUnit : String
  /-- The statement that stands where a body would be empty, if the language needs one. -/
  emptyBody : Option String
  /-- Entry points stand after all other sections. -/
  entryPointsLast : Bool
deriving DecidableEq, Repr

namespace Formatting

/-- Each line of a text as a comment. -/
def comment (f : Formatting) (text : String) : String :=
  Text.mapLines (fun line => f.commentMark ++ " " ++ line) text

/-- A statement of one line. -/
def line (f : Formatting) (code : String) : String :=
  code ++ f.separator ++ "\n"

/-- The code one step further in. -/
def indent (f : Formatting) (code : String) : String :=
  Text.indent f.indentUnit code

end Formatting

end BlockCompiler
