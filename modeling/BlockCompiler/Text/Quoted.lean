import BlockCompiler.Text.Extender
import BlockCompiler.Text.Ignorable
import BlockCompiler.Text.Unprinted

/-!
# Quoted texts

The form in which listings show a text: between double quotes, with quote and
backslash escaped, and with every character that would not be seen, or that
would combine with the quote, given by its number.
-/

namespace BlockCompiler.Text

/-- A character that would not be seen between quotes, or not as itself. -/
def isUnseen (c : Char) : Bool :=
  isUnprinted c || isIgnorable c || isExtender c

/-- A character by its number, in small digits of base sixteen. -/
def numbered (c : Char) : List Char :=
  ['\\', 'u', '\x7b'] ++ Nat.toDigits 16 c.toNat ++ ['\x7d']

/-- A character inside a quoted text. -/
def quotedChar (c : Char) : List Char :=
  if c = '"' then ['\\', '"']
  else if c = '\\' then ['\\', '\\']
  else if c = '\n' then ['\\', 'n']
  else if c = '\r' then ['\\', 'r']
  else if c = '\t' then ['\\', 't']
  else if c.toNat = 0 then ['\\', '0']
  else if isUnseen c then numbered c
  else [c]

/-- A text between quotes. -/
def quoted (s : String) : String :=
  String.ofList ('"' :: (s.toList.flatMap quotedChar ++ ['"']))

end BlockCompiler.Text
