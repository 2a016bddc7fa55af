import BlockCompiler.Decimal.Numeral

/-!
# JSON tokens

The reader first cuts a text into tokens, one character after the other.  A
string token holds the string it stands for, or nothing if one of its escapes is
half of a surrogate pair: such a string is well formed, but stands for no text.
-/

namespace BlockCompiler

/-- A token of a JSON text. -/
inductive JsonToken where
  | openArray
  | closeArray
  | openObject
  | closeObject
  | comma
  | colon
  | null
  | bool (b : Bool)
  | string (content : Option String)
  | number (n : Numeral)
deriving DecidableEq, Repr

namespace JsonToken

/-- A part of a string: a character, or a unit given by four digits of base sixteen. -/
inductive Piece where
  | char (c : Char)
  | unit (n : Nat)
deriving DecidableEq, Repr

namespace Piece

/-- The unit is the first half of a surrogate pair. -/
def isHigh (n : Nat) : Bool :=
  0xD800 ≤ n && n < 0xDC00

/-- The unit is the second half of a surrogate pair. -/
def isLow (n : Nat) : Bool :=
  0xDC00 ≤ n && n < 0xE000

/-- The character of a surrogate pair. -/
def pair (high low : Nat) : Char :=
  Char.ofNat (0x10000 + (high - 0xD800) * 0x400 + (low - 0xDC00))

/-- The characters that pieces stand for, if every surrogate has its partner. -/
def decode : List Piece → Option (List Char)
  | [] => some []
  | .char c :: rest => (decode rest).map (c :: ·)
  | .unit n :: .unit m :: rest =>
    if isHigh n then
      if isLow m then (decode rest).map (pair n m :: ·) else none
    else if isLow n then none
    else (decode (.unit m :: rest)).map (Char.ofNat n :: ·)
  | .unit n :: rest =>
    if isHigh n || isLow n then none else (decode rest).map (Char.ofNat n :: ·)

end Piece

/-- What is being read; lists hold what was read so far, last first. -/
inductive Mode where
  | between
  | word (letters : List Char)
  | numeral (chars : List Char)
  | string (pieces : List Piece)
  | escape (pieces : List Piece)
  | unit (pieces : List Piece) (digits : Nat) (value : Nat)
deriving DecidableEq, Repr

/-- The reader's state: the tokens so far, last first, and what is being read. -/
structure Scan where
  tokens : List JsonToken := []
  mode : Mode := .between
deriving DecidableEq, Repr

/-- The value of a digit of base sixteen. -/
def hexValue? (c : Char) : Option Nat :=
  if '0' ≤ c && c ≤ '9' then some (c.toNat - '0'.toNat)
  else if 'a' ≤ c && c ≤ 'f' then some (c.toNat - 'a'.toNat + 10)
  else if 'A' ≤ c && c ≤ 'F' then some (c.toNat - 'A'.toNat + 10)
  else none

/-- The character of an escape of one letter. -/
def escaped? (c : Char) : Option Char :=
  if c = '"' || c = '\\' || c = '/' then some c
  else if c = 'b' then some (Char.ofNat 8)
  else if c = 'f' then some (Char.ofNat 12)
  else if c = 'n' then some '\n'
  else if c = 'r' then some '\r'
  else if c = 't' then some '\t'
  else none

/-- The character may stand in a number. -/
def isNumeralChar (c : Char) : Bool :=
  c.isDigit || c == '-' || c == '+' || c == '.' || c == 'e' || c == 'E'

/-- The token of a word. -/
def ofWord? (letters : List Char) : Option JsonToken :=
  if letters = ['n', 'u', 'l', 'l'] then some .null
  else if letters = ['t', 'r', 'u', 'e'] then some (.bool true)
  else if letters = ['f', 'a', 'l', 's', 'e'] then some (.bool false)
  else none

/-- The token of a number. -/
def ofNumeral? (chars : List Char) : Option JsonToken :=
  match Numeral.scan? chars with
  | some n => if n.isStrict then some (.number n) else none
  | none => none

/-- A character that begins something new. -/
def Scan.start (s : Scan) (c : Char) : Option Scan :=
  if c = ' ' || c = '\t' || c = '\n' || c = '\r' then some { s with mode := .between }
  else if c = '[' then some ⟨.openArray :: s.tokens, .between⟩
  else if c = ']' then some ⟨.closeArray :: s.tokens, .between⟩
  else if c = '\x7b' then some ⟨.openObject :: s.tokens, .between⟩
  else if c = '\x7d' then some ⟨.closeObject :: s.tokens, .between⟩
  else if c = ',' then some ⟨.comma :: s.tokens, .between⟩
  else if c = ':' then some ⟨.colon :: s.tokens, .between⟩
  else if c = '"' then some { s with mode := .string [] }
  else if c.isLower then some { s with mode := .word [c] }
  else if c.isDigit || c = '-' then some { s with mode := .numeral [c] }
  else none

/-- The state with the word or number at hand turned into a token. -/
def Scan.settle (s : Scan) : Option Scan :=
  match s.mode with
  | .between => some s
  | .word letters => (ofWord? letters.reverse).map fun t => ⟨t :: s.tokens, .between⟩
  | .numeral chars => (ofNumeral? chars.reverse).map fun t => ⟨t :: s.tokens, .between⟩
  | .string _ | .escape _ | .unit .. => none

/-- The state after one more character. -/
def Scan.step (s : Scan) (c : Char) : Option Scan :=
  match s.mode with
  | .between => s.start c
  | .word letters =>
    if c.isLower then some { s with mode := .word (c :: letters) }
    else s.settle.bind (·.start c)
  | .numeral chars =>
    if isNumeralChar c then some { s with mode := .numeral (c :: chars) }
    else s.settle.bind (·.start c)
  | .string pieces =>
    if c = '"' then
      some ⟨.string ((Piece.decode pieces.reverse).map String.ofList) :: s.tokens, .between⟩
    else if c = '\\' then some { s with mode := .escape pieces }
    else if c.toNat < 32 then none
    else some { s with mode := .string (.char c :: pieces) }
  | .escape pieces =>
    if c = 'u' then some { s with mode := .unit pieces 0 0 }
    else (escaped? c).map fun e => { s with mode := .string (.char e :: pieces) }
  | .unit pieces digits value =>
    (hexValue? c).map fun d =>
      if digits = 3 then { s with mode := .string (.unit (16 * value + d) :: pieces) }
      else { s with mode := .unit pieces (digits + 1) (16 * value + d) }

/-- The tokens of a text. -/
def scan? (s : String) : Option (List JsonToken) :=
  ((s.toList.foldlM Scan.step {}).bind Scan.settle).map (·.tokens.reverse)

end JsonToken

end BlockCompiler
