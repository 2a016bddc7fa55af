import BlockCompiler.Decimal.Shortest
import BlockCompiler.Decimal.Whole

/-!
# JSON values

The values that fields of a block may hold, and the shape in which documents and
results are written.  The members of an object are a list, so that the writer
decides their order; what the reader makes has its members by increasing name.
-/

namespace BlockCompiler

/-- A JSON number: a whole number of 64 bits, signed or not, or a binary64 number. -/
inductive JsonNumber where
  | integer (n : Int)
  | real (x : Binary64)
deriving DecidableEq, Repr

/-- A JSON value. -/
inductive Json where
  | null
  | bool (b : Bool)
  | number (n : JsonNumber)
  | string (s : String)
  | array (items : List Json)
  | object (members : List (String × Json))

namespace JsonNumber

/-- The whole number is within the range of signed or of unsigned 64-bit numbers. -/
def fits (n : Int) : Bool :=
  Int64.minValue.toInt ≤ n && n < UInt64.size

/-- The number that a strict numeral stands for.  Whole numbers that fit stay whole; zero with a
sign and all others become binary64 numbers, if they are in range. -/
def ofNumeral? (n : Numeral) : Option JsonNumber :=
  let d := n.toDecimal
  let whole : Int := if d.negative then -(d.mantissa : Int) else d.mantissa
  if n.isWhole && fits whole && !(d.negative && d.mantissa == 0) then some (.integer whole)
  else (Binary64.ofDecimal? d).map .real

/-- The text of a number. -/
def render : JsonNumber → String
  | .integer n => Whole.render n
  | .real x => x.render

end JsonNumber

end BlockCompiler
