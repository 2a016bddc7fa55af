/-!
# Blank characters

A character is blank when it has the Unicode property White_Space.  Texts read
from a program are trimmed of blanks at both ends before they are used as names
or numbers, and a text that is blank throughout counts as missing.
-/

namespace BlockCompiler.Text

/-- The character has the property White_Space. -/
def isBlank (c : Char) : Bool :=
  let n := c.toNat
  (9 ≤ n && n ≤ 13) || n == 0x20 || n == 0x85 || n == 0xA0 || n == 0x1680 ||
    (0x2000 ≤ n && n ≤ 0x200A) || n == 0x2028 || n == 0x2029 || n == 0x202F ||
    n == 0x205F || n == 0x3000

/-- The list without the longest run at its end that satisfies `p`. -/
def dropEndWhile {α : Type} (p : α → Bool) (xs : List α) : List α :=
  (xs.reverse.dropWhile p).reverse

/-- The text without the blanks at its two ends. -/
def trim (s : String) : String :=
  String.ofList (dropEndWhile isBlank (s.toList.dropWhile isBlank))

/-- Every character of the text is blank; so is the empty text. -/
def blank (s : String) : Bool :=
  s.toList.all isBlank

theorem toList_trim (s : String) :
    (trim s).toList = dropEndWhile isBlank (s.toList.dropWhile isBlank) := by
  simp [trim]

end BlockCompiler.Text
