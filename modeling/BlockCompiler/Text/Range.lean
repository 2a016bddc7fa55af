/-!
# Ranges of characters

Classes of characters that are given by tables of ranges of their numbers.
-/

namespace BlockCompiler.Text

/-- The character lies in one of the ranges, both ends included. -/
def inRanges (table : List (Nat × Nat)) (c : Char) : Bool :=
  table.any fun r => r.1 ≤ c.toNat && c.toNat ≤ r.2

end BlockCompiler.Text
