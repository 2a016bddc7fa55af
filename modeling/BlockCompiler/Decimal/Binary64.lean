import BlockCompiler.Decimal.Numeral

/-!
# Binary64 numbers

The finite numbers of the binary64 format, as a whole number times a power of
two, and the correctly rounded value of a decimal: the nearest such number, a
tie going to the even mantissa.  All of it is exact arithmetic on natural
numbers.
-/

namespace BlockCompiler

/-- The finite number `mantissa * 2 ^ exponent` with a sign. -/
structure Binary64 where
  negative : Bool
  mantissa : Nat
  exponent : Int
deriving DecidableEq, Repr

namespace Binary64

/-- Every normal mantissa is below this bound. -/
def mantissaBound : Nat := 1 <<< 53

/-- The exponent of the smallest numbers. -/
def leastExponent : Int := -1074

/-- The exponent of the largest numbers. -/
def greatestExponent : Int := 971

/-- Zero of either sign. -/
def zero (negative : Bool) : Binary64 where
  negative := negative
  mantissa := 0
  exponent := leastExponent

/-- The number is below zero. -/
def isNegative (x : Binary64) : Bool :=
  x.negative && x.mantissa != 0

/-- The whole number nearest to `num / den`, a tie going to the even one. -/
def roundDiv (num den : Nat) : Nat :=
  let q := num / den
  let r := num % den
  if 2 * r < den then q
  else if den < 2 * r then q + 1
  else if q % 2 = 0 then q else q + 1

/-- Numerator and denominator of `(num / den) / base ^ e`. -/
def descale (base num den : Nat) (e : Int) : Nat × Nat :=
  if 0 ≤ e then (num, den * base.pow e.toNat) else (num * base.pow (-e).toNat, den)

/-- The exponent at which `num / den` has a mantissa of full length, unless it is too small for
one. -/
def mantissaExponent (num den : Nat) : Int :=
  let guess : Int := max ((num.log2 : Int) - den.log2 - 53) leastExponent
  let scaled := descale 2 num den guess
  if scaled.1 / scaled.2 < mantissaBound then guess else guess + 1

/-- The binary64 number nearest to `num / den`, if it is in range. -/
def ofRatio? (negative : Bool) (num den : Nat) : Option Binary64 :=
  if num = 0 then some (zero negative)
  else
    let e := mantissaExponent num den
    let scaled := descale 2 num den e
    let m := roundDiv scaled.1 scaled.2
    let rounded : Nat × Int := if m = mantissaBound then (m / 2, e + 1) else (m, e)
    if greatestExponent < rounded.2 then none
    else some { negative := negative, mantissa := rounded.1, exponent := rounded.2 }

/-- The number of decimal digits; zero has one. -/
def digitCount (n : Nat) : Nat :=
  (Nat.toDigits 10 n).length

/-- The binary64 number nearest to a decimal, if it is in range.  Decimals whose magnitude alone
puts them out of range, or next to zero, are settled without writing them out. -/
def ofDecimal? (d : Decimal) : Option Binary64 :=
  let magnitude : Int := digitCount d.mantissa + d.exponent
  if d.mantissa = 0 then some (zero d.negative)
  else if 400 < magnitude then none
  else if magnitude < -400 then some (zero d.negative)
  else
    let ratio := descale 10 d.mantissa 1 (-d.exponent)
    ofRatio? d.negative ratio.1 ratio.2

end Binary64

/-- The value of a text that is a number literal in range, without blanks around it. -/
def Numeral.value? (cs : List Char) : Option Binary64 :=
  match Numeral.scan? cs with
  | some n => if n.isLiteral then Binary64.ofDecimal? n.toDecimal else none
  | none => none

end BlockCompiler
