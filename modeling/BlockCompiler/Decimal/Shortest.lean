import BlockCompiler.Decimal.Binary64
import BlockCompiler.Text.Blank

/-!
# Shortest digits

A binary64 number is written with the fewest decimal digits that read back as
the same number; of two such digit strings the nearer one is taken.  Numbers
from `1e-5` up to, but not including, `1e16` are written out with a point, all
others with an exponent that always has a sign.
-/

namespace BlockCompiler.Binary64

/-- Numerator and denominator of the number without its sign. -/
def ratio (x : Binary64) : Nat × Nat :=
  descale 2 x.mantissa 1 (-x.exponent)

/-- The number of digits before the point: `10 ^ (k - 1) ≤ num / den < 10 ^ k`. -/
def pointPosition (num den : Nat) : Int :=
  if den ≤ num then digitCount (num / den)
  else
    let k : Int := 1 - (digitCount (den / num) : Int)
    let scaled := descale 10 num den k
    if scaled.1 < scaled.2 then k else k + 1

/-- The decimal reads back as `x`. -/
def readsBack (x : Binary64) (mantissa : Nat) (exponent : Int) : Bool :=
  ofDecimal? { negative := x.negative, mantissa := mantissa, exponent := exponent } == some x

/-- The digits at the grid of `10 ^ e` that read back: one of the two neighbours of `x`, the
nearer one if both do. -/
def digitsAt? (x : Binary64) (e : Int) : Option Nat :=
  let r := x.ratio
  let scaled := descale 10 r.1 r.2 e
  let below := scaled.1 / scaled.2
  let nearest := roundDiv scaled.1 scaled.2
  let other := if nearest = below then below + 1 else below
  if x.readsBack nearest e then some nearest
  else if x.readsBack other e then some other
  else none

/-- The shortest digits with the power of ten they count, trying `n` digits and up while `fuel`
lasts. -/
def shortestFrom (x : Binary64) (point : Int) : (fuel n : Nat) → Nat × Int
  | 0, n => ((x.digitsAt? (point - n)).getD 0, point - n)
  | fuel + 1, n =>
    match x.digitsAt? (point - n) with
    | some digits => (digits, point - n)
    | none => shortestFrom x point fuel (n + 1)

/-- The shortest digits of a number that is not zero: the digits, and the power of ten that they
count. -/
def shortest (x : Binary64) : Nat × Int :=
  let r := x.ratio
  shortestFrom x (pointPosition r.1 r.2) 17 1

/-- Digits written out, with the point `point` digits from their start. -/
def positional (digits : List Char) (point : Int) : List Char :=
  if point ≤ 0 then '0' :: '.' :: (List.replicate (-point).toNat '0' ++ digits)
  else if point < digits.length then
    digits.take point.toNat ++ '.' :: digits.drop point.toNat
  else digits ++ List.replicate (point.toNat - digits.length) '0' ++ ['.', '0']

/-- Digits with an exponent, the point standing after the first of them. -/
def scientific (digits : List Char) (point : Int) : List Char :=
  let e := point - 1
  let tail := if digits.length ≤ 1 then [] else '.' :: digits.drop 1
  digits.take 1 ++ tail ++ ['e', if e < 0 then '-' else '+'] ++ Nat.toDigits 10 e.natAbs

/-- The text of a number. -/
def render (x : Binary64) : String :=
  let sign := if x.negative then "-" else ""
  if x.mantissa = 0 then sign ++ "0.0"
  else
    let found := x.shortest
    let counted := Nat.toDigits 10 found.1
    let point := counted.length + found.2
    let digits := Text.dropEndWhile (· == '0') counted
    let written :=
      if -5 < point && point ≤ 16 then positional digits point else scientific digits point
    sign ++ String.ofList written

end BlockCompiler.Binary64
