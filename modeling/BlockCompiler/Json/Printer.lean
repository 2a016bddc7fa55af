import BlockCompiler.Json.Value

/-!
# Writing JSON

Two layouts: `compact` without any white space, and `pretty` with two blanks for
each level and one item or member on a line.  Both write the members of an
object in the order of their list.
-/

namespace BlockCompiler.Json

/-- A digit of base sixteen, small letters. -/
def hexDigit (n : Nat) : Char :=
  Nat.digitChar n

/-- A character inside a string: quote, backslash and control characters are escaped. -/
def escapeChar (c : Char) : List Char :=
  if c = '"' then ['\\', '"']
  else if c = '\\' then ['\\', '\\']
  else if c = '\n' then ['\\', 'n']
  else if c = '\r' then ['\\', 'r']
  else if c = '\t' then ['\\', 't']
  else if c.toNat = 8 then ['\\', 'b']
  else if c.toNat = 12 then ['\\', 'f']
  else if c.toNat < 32 then ['\\', 'u', '0', '0', hexDigit (c.toNat / 16), hexDigit (c.toNat % 16)]
  else [c]

/-- A string between quotes. -/
def quote (s : String) : String :=
  String.ofList ('"' :: (s.toList.flatMap escapeChar ++ ['"']))

/-- The text of a truth value. -/
def boolText (b : Bool) : String :=
  if b then "true" else "false"

mutual

/-- The value without white space. -/
def compact : Json → String
  | .null => "null"
  | .bool b => boolText b
  | .number n => n.render
  | .string s => quote s
  | .array items => "[" ++ ",".intercalate (compactItems items) ++ "]"
  | .object members => "\x7b" ++ ",".intercalate (compactMembers members) ++ "\x7d"

/-- The items of an array, each without white space. -/
def compactItems : List Json → List String
  | [] => []
  | item :: rest => item.compact :: compactItems rest

/-- The members of an object, each without white space. -/
def compactMembers : List (String × Json) → List String
  | [] => []
  | (name, value) :: rest => (quote name ++ ":" ++ value.compact) :: compactMembers rest

end

/-- The start of a line at a level. -/
def margin (level : Nat) : String :=
  String.ofList (List.replicate (2 * level) ' ')

/-- Lines between two brackets, one level further in than the closing one. -/
def block (left right : String) (level : Nat) : List String → String
  | [] => left ++ right
  | lines =>
    left ++ "\n" ++ ",\n".intercalate (lines.map (margin (level + 1) ++ ·)) ++ "\n" ++
      margin level ++ right

mutual

/-- The value over several lines, its first one being at `level`. -/
def layout (level : Nat) : Json → String
  | .null => "null"
  | .bool b => boolText b
  | .number n => n.render
  | .string s => quote s
  | .array items => block "[" "]" level (layoutItems (level + 1) items)
  | .object members => block "\x7b" "\x7d" level (layoutMembers (level + 1) members)

/-- The items of an array, each over several lines. -/
def layoutItems (level : Nat) : List Json → List String
  | [] => []
  | item :: rest => item.layout level :: layoutItems level rest

/-- The members of an object, each over several lines. -/
def layoutMembers (level : Nat) : List (String × Json) → List String
  | [] => []
  | (name, value) :: rest =>
    (quote name ++ ": " ++ value.layout level) :: layoutMembers level rest

end

/-- The value over several lines. -/
def pretty (j : Json) : String :=
  j.layout 0

end BlockCompiler.Json
