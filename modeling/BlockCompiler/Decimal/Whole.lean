import BlockCompiler.Decimal.Numeral

/-!
# Whole numbers of 64 bits

Numbers at the end of a slot's name, and the bounds of a counting loop, are read
as whole numbers of 64 bits: decimal digits, leading zeros allowed, after an
optional sign.  A text that is anything else, or out of range, is no number.
-/

namespace BlockCompiler.Whole

/-- The number that a text made up of digits stands for. -/
def natural? (digits : List Char) : Option Nat :=
  if !digits.isEmpty && digits.all Char.isDigit then some (Numeral.digitsValue digits) else none

/-- A number from zero up to, but not including, `2 ^ 64`; a plus sign may stand in front. -/
def unsigned? (cs : List Char) : Option Nat :=
  let digits := match cs with
    | '+' :: rest => rest
    | cs => cs
  (natural? digits).filter (· < UInt64.size)

/-- The number lies in the range of signed numbers. -/
def inSignedRange (n : Int) : Bool :=
  Int64.minValue.toInt ≤ n && n ≤ Int64.maxValue.toInt

/-- A number from `-2 ^ 63` up to, but not including, `2 ^ 63`; either sign may stand in
front. -/
def signed? (cs : List Char) : Option Int :=
  match Numeral.splitSign cs with
  | (sign, digits) =>
    ((natural? digits).map fun n => if sign = some '-' then -(n : Int) else (n : Int)).filter
      inSignedRange

/-- The decimal text of a number. -/
def render (n : Int) : String :=
  if n < 0 then "-" ++ n.natAbs.repr else n.natAbs.repr

end BlockCompiler.Whole
