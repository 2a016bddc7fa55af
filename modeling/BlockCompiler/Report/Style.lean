/-!
# Styles

Texts on a terminal may have a colour and a few attributes.  Each is switched on
by a control sequence of its own before the text, the colour first, and all of
them are switched off after it.
-/

namespace BlockCompiler

/-- The colours in use. -/
inductive Color where
  | red
  | green
  | yellow
  | cyan
deriving DecidableEq, Repr

/-- The number of a colour in a control sequence. -/
def Color.number : Color → Nat
  | red => 31
  | green => 32
  | yellow => 33
  | cyan => 36

/-- The look of a text. -/
structure Style where
  color : Option Color := none
  bold : Bool := false
  dim : Bool := false
  underlined : Bool := false
deriving DecidableEq, Repr

namespace Style

/-- A control sequence. -/
def sequence (n : Nat) : String :=
  "\x1b[" ++ n.repr ++ "m"

/-- The numbers of the colour and the attributes. -/
def numbers (s : Style) : List Nat :=
  (s.color.map Color.number).toList ++ (if s.bold then [1] else []) ++
    (if s.dim then [2] else []) ++ (if s.underlined then [4] else [])

/-- The text in a style, if there is to be any. -/
def apply (s : Style) (colored : Bool) (text : String) : String :=
  if colored then String.join (s.numbers.map sequence) ++ text ++ sequence 0 else text

end Style

end BlockCompiler
