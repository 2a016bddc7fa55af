/-!
# Numerals

A numeral is a number as it is written: an optional sign, digits, an optional
fraction after a point and an optional exponent.  `scan?` takes a text apart;
which of the parts may be missing is for the format to say, so `isLiteral` and
`isStrict` state the two rules in use.  The value of a numeral is a `Decimal`,
a whole number times a power of ten.
-/

namespace BlockCompiler

/-- The number `mantissa * 10 ^ exponent` with a sign. -/
structure Decimal where
  negative : Bool
  mantissa : Nat
  exponent : Int
deriving DecidableEq, Repr

/-- A number as written. -/
structure Numeral where
  /-- The sign, if one is written. -/
  sign : Option Char
  /-- The digits before the point. -/
  whole : List Char
  /-- The digits after the point, if a point is written. -/
  fraction : Option (List Char)
  /-- Sign and digits of the exponent, if one is written. -/
  exponent : Option (Option Char × List Char)
deriving DecidableEq, Repr

namespace Numeral

/-- The number that a list of digits stands for. -/
def digitsValue (digits : List Char) : Nat :=
  Nat.ofDigitChars 10 digits 0

/-- A leading sign and what follows it. -/
def splitSign : List Char → Option Char × List Char
  | '-' :: rest => (some '-', rest)
  | '+' :: rest => (some '+', rest)
  | cs => (none, cs)

/-- A leading point with the digits after it, and what follows them. -/
def splitFraction : List Char → Option (List Char) × List Char
  | '.' :: rest => (some (rest.takeWhile Char.isDigit), rest.dropWhile Char.isDigit)
  | cs => (none, cs)

/-- The exponent that makes up all of a text: its letter, an optional sign and digits. -/
def exponentOf? : List Char → Option (Option (Option Char × List Char))
  | [] => some none
  | c :: rest =>
    let signed := splitSign rest
    if (c == 'e' || c == 'E') && !signed.2.isEmpty && signed.2.all Char.isDigit then
      some (some signed)
    else none

/-- The parts of a text that is written as a number. -/
def scan? (cs : List Char) : Option Numeral :=
  let signed := splitSign cs
  let whole := signed.2.takeWhile Char.isDigit
  let fraction := splitFraction (signed.2.dropWhile Char.isDigit)
  (exponentOf? fraction.2).map fun exponent =>
    { sign := signed.1, whole := whole, fraction := fraction.1, exponent := exponent }

/-- There is a digit before or after the point. -/
def isLiteral (n : Numeral) : Bool :=
  !n.whole.isEmpty || !(n.fraction.getD []).isEmpty

/-- No plus sign in front, digits before the point without a needless zero, and digits after
the point if there is one. -/
def isStrict (n : Numeral) : Bool :=
  n.sign != some '+' && !n.whole.isEmpty && (n.whole.length == 1 || n.whole.head? != some '0') &&
    n.fraction != some []

/-- The numeral has neither fraction nor exponent. -/
def isWhole (n : Numeral) : Bool :=
  n.fraction.isNone && n.exponent.isNone

/-- The exponent as a number. -/
def exponentValue (n : Numeral) : Int :=
  match n.exponent with
  | none => 0
  | some (some '-', digits) => -(digitsValue digits : Int)
  | some (_, digits) => digitsValue digits

/-- The number that is written. -/
def toDecimal (n : Numeral) : Decimal :=
  let fraction := n.fraction.getD []
  { negative := n.sign == some '-'
    mantissa := digitsValue (n.whole ++ fraction)
    exponent := n.exponentValue - fraction.length }

end Numeral

end BlockCompiler
