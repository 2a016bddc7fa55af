import BlockCompiler.Text.Extender
import BlockCompiler.Text.Ignorable
import BlockCompiler.Text.Wide
import BlockCompiler.Text.Emoji
import BlockCompiler.Text.Joining

/-!
# Display width

The number of columns that a text takes up on a terminal.  A character has a width of
its own, but the text after it can change how it is drawn: a selector asks for a
picture or for a plain form, pictures are joined to one picture, and letters to a
ligature.  So a text is measured from its end: `Onset` is what a text begins with, as
far as the character in front of it is concerned, and `widthBefore` says what that
character adds.
-/

namespace BlockCompiler.Text

/-- A sign behind a character that chooses its form. -/
inductive Selector where
  /-- The character is drawn as a picture. -/
  | picture
  /-- The character is drawn as plain text. -/
  | plain
  /-- A quotation mark is drawn wide. -/
  | broad
deriving DecidableEq, Repr

/-- The letters and signs that end a ligature. -/
inductive LigatureEnd where
  /-- Hebrew lamed, after alef. -/
  | lamed
  /-- Buginese ya, after the vowel i and ya. -/
  | ya
  /-- Buginese ya with the vowel in front of it. -/
  | voweledYa
  /-- A Tifinagh consonant. -/
  | consonant
  /-- A Tifinagh consonant with the sign that joins it. -/
  | boundConsonant
  /-- The later tone letter of a Lisu pair. -/
  | tone
  /-- Old Turkic i. -/
  | orkhon
  /-- A Khmer letter that can stand below another. -/
  | subscript
  /-- The Kirat Rai vowel e. -/
  | vowelE
  /-- The Kirat Rai vowel ai. -/
  | vowelAi
deriving DecidableEq, Repr

/-- What a text begins with, as far as it bears on the character in front of it. -/
inductive Onset where
  /-- Nothing that matters. -/
  | ordinary
  /-- A line feed. -/
  | lineFeed
  /-- A form of alef. -/
  | alef
  /-- The end of a ligature, with or without a joiner before it. -/
  | ligature (last : LigatureEnd) (bound : Bool)
  /-- A picture. -/
  | emoji
  /-- A colour of skin. -/
  | tint
  /-- One letter of a flag. -/
  | flagLetter
  /-- Several letters of flags. -/
  | flagLetters
  /-- A joiner before a picture. -/
  | joined
  /-- A key's frame before a joiner. -/
  | joinedKey
  /-- One letter of a flag before a joiner. -/
  | joinedFlagLetter
  /-- Letters of flags before a joiner, in pairs or with one left over. -/
  | joinedFlagLetters (paired : Bool)
  /-- So many letters of the tag of a flag before a joiner. -/
  | tagLetters (count : Nat)
  /-- So many digits of the tag of a flag before a joiner. -/
  | tagDigits (count : Nat)
deriving DecidableEq, Repr

/-! ### Characters by themselves -/

/-- The ranges of characters that are drawn as a part of a neighbour, though they do not extend
the one before them: signs in front of a letter or a number, and the later parts of a syllable. -/
def partRanges : List (Nat × Nat) := [
  (0x605, 0x605), (0x70F, 0x70F), (0x890, 0x891), (0x8E2, 0x8E2), (0xD4E, 0xD4E),
  (0x1160, 0x11FF), (0xA8FA, 0xA8FA), (0xD7B0, 0xD7C6), (0xD7CB, 0xD7FB), (0x111C2, 0x111C3),
  (0x113D1, 0x113D1), (0x1193F, 0x1193F), (0x11941, 0x11941), (0x11A3A, 0x11A3A),
  (0x11A84, 0x11A89), (0x11D46, 0x11D46), (0x11F02, 0x11F02)]

/-- The width of a character by itself.  The filler of a syllable's first part keeps the room of
that part, the sign that joins Tifinagh consonants is seen where it joins none, and the narrow
sound marks of Katakana stand behind their letter. -/
def ownWidth (c : Char) : Nat :=
  if c.toNat ≤ 0xA0 || c.toNat = 0x2D7F || c.toNat = 0xFF9E || c.toNat = 0xFF9F then 1
  else if c.toNat = 0x17D8 then 3
  else if c.toNat = 0x115F || c.toNat = 0x17A4 then 2
  else if isIgnorable c || isExtender c || inRanges partRanges c then 0
  else if isWide c then 2
  else 1

/-- The zero-width joiner. -/
def isJoiner (c : Char) : Bool :=
  c.toNat = 0x200D

/-- A letter of a flag. -/
def isFlagLetter (c : Char) : Bool :=
  0x1F1E6 ≤ c.toNat && c.toNat ≤ 0x1F1FF

/-- A colour of skin. -/
def isTint (c : Char) : Bool :=
  0x1F3FB ≤ c.toNat && c.toNat ≤ 0x1F3FF

/-- A consonant of Tifinagh. -/
def isTifinaghConsonant (c : Char) : Bool :=
  inRanges [(0x2D31, 0x2D65), (0x2D6F, 0x2D6F)] c

/-- A Khmer letter that can stand below another. -/
def isKhmerSubscript (c : Char) : Bool :=
  inRanges [(0x1780, 0x1782), (0x1784, 0x1787), (0x1789, 0x178C), (0x178E, 0x1793),
    (0x1795, 0x1798), (0x179B, 0x179D), (0x17A0, 0x17A0), (0x17A2, 0x17A2), (0x17A7, 0x17A7),
    (0x17AB, 0x17AC), (0x17AF, 0x17AF)] c

/-- The ligature that a character can end. -/
def ligatureEnd? (c : Char) : Option LigatureEnd :=
  if c.toNat = 0x5DC then some .lamed
  else if c.toNat = 0x1A10 then some .ya
  else if isTifinaghConsonant c then some .consonant
  else if c.toNat = 0xA4FC || c.toNat = 0xA4FD then some .tone
  else if c.toNat = 0x10C03 then some .orkhon
  else if isKhmerSubscript c then some .subscript
  else if c.toNat = 0x16D67 then some .vowelE
  else if c.toNat = 0x16D68 then some .vowelAi
  else none

/-- The onset of a text that begins with the character and with nothing that goes together
with it. -/
def ownOnset (c : Char) : Onset :=
  if c.toNat ≤ 0xA0 then .ordinary
  else if isAlef c then .alef
  else if isFlagLetter c then .flagLetter
  else if isTint c then .tint
  else if isEmoji c then .emoji
  else
    match ligatureEnd? c with
    | some last => .ligature last false
    | none => .ordinary

/-! ### Characters before an onset -/

/-- A character that may stand inside a ligature without breaking it. -/
def isTransparent (c : Char) : Bool :=
  inRanges [(0x34F, 0x34F), (0x17B4, 0x17B5), (0x180B, 0x180D), (0x180F, 0x180F),
    (0x200D, 0x200D), (0xFE00, 0xFE0F), (0xE0100, 0xE01EF)] c

/-- What a character adds before the end of a ligature, if it goes together with it. -/
def LigatureEnd.before? (c : Char) (bound : Bool) : LigatureEnd → Option (Int × Onset)
  | lamed => if bound && c.toNat = 0x5D0 then some (0, .ordinary) else none
  | ya => if bound && c.toNat = 0x1A17 then some (0, .ligature voweledYa true) else none
  | voweledYa => if c.toNat = 0x1A15 then some (0, .ordinary) else none
  | consonant =>
    if c.toNat = 0x2D7F then some (1, .ligature boundConsonant true)
    else if bound && isTifinaghConsonant c then some (0, .ordinary)
    else none
  | boundConsonant => if isTifinaghConsonant c then some (-1, .ordinary) else none
  | tone => if 0xA4F8 ≤ c.toNat && c.toNat ≤ 0xA4FB then some (0, .ordinary) else none
  | orkhon => if bound && c.toNat = 0x10C32 then some (0, .ordinary) else none
  | subscript => if c.toNat = 0x17D2 then some (-1, .ordinary) else none
  | vowelE =>
    if c.toNat = 0x16D63 || c.toNat = 0x16D69 then some (0, .ordinary)
    else if c.toNat = 0x16D67 then some (0, .ligature vowelAi true)
    else if c.toNat = 0x16D68 then some (1, .ligature vowelE true)
    else none
  | vowelAi => if c.toNat = 0x16D63 then some (0, .ordinary) else none

/-- What a character adds before an onset, if it goes together with it.  Of a sequence of joined
pictures only the last has a width, and a pair of flag letters counts as a picture. -/
def Onset.before? (c : Char) : Onset → Option (Int × Onset)
  | ordinary => none
  | lineFeed => if c = '\r' then some (0, ordinary) else none
  | alef =>
    if isLam c then some (0, ordinary)
    else if ownWidth c = 0 && !isBarrier c then some (0, alef)
    else none
  | ligature last bound =>
    if isTransparent c then some (0, ligature last (bound || isJoiner c))
    else last.before? c bound
  | emoji => if isJoiner c then some (0, joined) else none
  | tint =>
    if isBearer c then some (0, emoji)
    else if isJoiner c then some (0, joined)
    else none
  | flagLetter => if isFlagLetter c then some (1, flagLetters) else none
  | flagLetters =>
    if isFlagLetter c then some (1, flagLetters)
    else if isJoiner c then some (0, joined)
    else none
  | joined =>
    if c.toNat = 0x20E3 then some (0, joinedKey)
    else if isFlagLetter c then some (1, joinedFlagLetter)
    else if isTint c then some (0, tint)
    else if c.toNat = 0xE007F then some (0, tagLetters 0)
    else if isEmoji c then some (0, emoji)
    else none
  | joinedKey => none
  | joinedFlagLetter => if isFlagLetter c then some (-1, joinedFlagLetters true) else none
  | joinedFlagLetters paired =>
    if isJoiner c then some (0, joined)
    else if isFlagLetter c then
      some (if paired then 3 else -1, joinedFlagLetters !paired)
    else none
  | tagLetters count =>
    if 0xE0061 ≤ c.toNat && c.toNat ≤ 0xE007A && count < 6 then some (0, tagLetters (count + 1))
    else if 0xE0030 ≤ c.toNat && c.toNat ≤ 0xE0039 && count < 5 then some (0, tagDigits 1)
    else if c.toNat = 0x1F3F4 && 3 ≤ count then some (0, emoji)
    else none
  | tagDigits count =>
    if 0xE0030 ≤ c.toNat && c.toNat ≤ 0xE0039 && count < 3 then some (0, tagDigits (count + 1))
    else if c.toNat = 0x1F3F4 && count = 3 then some (0, emoji)
    else none

/-! ### Selectors -/

/-- The selector that a character is. -/
def selector? (c : Char) : Option Selector :=
  if c.toNat = 0xFE0F then some .picture
  else if c.toNat = 0xFE0E then some .plain
  else if c.toNat = 0xFE01 then some .broad
  else none

/-- A selector does not break a ligature. -/
def Onset.endsLigature : Onset → Bool
  | alef | ligature .. => true
  | _ => false

/-- A character of this onset would be a part of a joined picture. -/
def Onset.isJoined : Onset → Bool
  | joined | joinedKey => true
  | _ => false

/-- What remains of an onset with a selector in front of it. -/
def Onset.select (o : Onset) : Selector → Onset
  | .picture => if o.endsLigature || o.isJoined then o else .ordinary
  | .plain | .broad => if o.endsLigature then o else .ordinary

/-- What a character adds before a selector and an onset, if the selector applies to it. -/
def Selector.before? (c : Char) (o : Onset) : Selector → Option (Int × Onset)
  | picture => if isDual c then some (if o.isJoined then 0 else 2, .emoji) else none
  | plain =>
    if isDual c && isEmoji c && !(0x1F200 ≤ c.toNat && c.toNat ≤ 0x1F2FF) then
      some (1, .ordinary)
    else none
  | broad =>
    if inRanges [(0x2018, 0x2019), (0x201C, 0x201D)] c then some (2, .ordinary) else none

/-! ### Texts -/

/-- What a text begins with: its onset, behind the selector that it may begin with. -/
structure Front where
  selector : Option Selector := none
  onset : Onset := .ordinary
deriving DecidableEq, Repr

/-- A selector that does not apply to the character in front of it is passed over.  One that asks
for a picture parts what it stands between, unless that is a ligature. -/
def Front.settle (f : Front) : Onset :=
  match f.selector with
  | some .picture => if f.onset.endsLigature then f.onset else .ordinary
  | _ => f.onset

/-- What a character adds to the width of the text behind it, and what the text then begins
with. -/
def widthBefore (c : Char) (f : Front) : Int × Front :=
  match f.selector.bind (·.before? c f.onset) with
  | some (w, o) => (w, { onset := o })
  | none =>
    match selector? c with
    | some s => (0, { selector := some s, onset := f.settle.select s })
    | none =>
      if c = '\n' then (1, { onset := .lineFeed })
      else
        match f.settle.before? c with
        | some (w, o) => (w, { onset := o })
        | none => (ownWidth c, { onset := ownOnset c })

/-- The width of a list of characters and what it begins with. -/
def measure (cs : List Char) : Int × Front :=
  cs.foldr (fun c behind =>
    let (w, front) := widthBefore c behind.2
    (w + behind.1, front)) (0, {})

/-- The width of a text. -/
def width (s : String) : Nat :=
  (measure s.toList).1.toNat

end BlockCompiler.Text
