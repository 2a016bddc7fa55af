import BlockCompiler.Text.Blank

/-!
# Names

Texts chosen by the author of a program become names of the generated source.
A name holds ASCII letters, digits and underscores only: every other character
is replaced by an underscore.
-/

namespace BlockCompiler.Text

/-- ASCII capitals become small letters; all else stays. -/
def lower (s : String) : String :=
  s.map Char.toLower

/-- ASCII small letters become capitals; all else stays. -/
def upper (s : String) : String :=
  s.map Char.toUpper

/-- An ASCII letter or digit stays, anything else becomes an underscore. -/
def symbolChar (c : Char) : Char :=
  if c.isAlphanum then c else '_'

/-- The text with every character made fit for the inside of a name. -/
def symbol (s : String) : String :=
  s.map symbolChar

/-- The trimmed text as the end of a name. -/
def suffix (s : String) : String :=
  symbol (trim s)

/-- The trimmed text as a name of its own.  A blank text gives the `fallback`, and an
underscore goes in front of a leading digit. -/
def identifier (raw fallback : String) : String :=
  match (suffix raw).toList with
  | [] => fallback
  | c :: rest => String.ofList (if c.isDigit then '_' :: c :: rest else c :: rest)

/-- The pieces between the commas. -/
def splitCommas : List Char → List (List Char)
  | [] => [[]]
  | c :: rest =>
    if c = ',' then [] :: splitCommas rest
    else
      match splitCommas rest with
      | [] => [[c]]
      | piece :: pieces => (c :: piece) :: pieces

/-- The names of a comma separated list; blank pieces are passed over. -/
def nameList (raw fallback : String) : List String :=
  (((splitCommas raw.toList).map String.ofList).filter (!blank ·)).map (identifier · fallback)

/-- What follows `start` in a text that begins with it. -/
def afterStart? (start s : String) : Option String :=
  if start.toList.isPrefixOf s.toList then
    some (String.ofList (s.toList.drop start.toList.length))
  else none

end BlockCompiler.Text
