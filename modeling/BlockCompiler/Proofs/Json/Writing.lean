import BlockCompiler.Json.Printer
import BlockCompiler.Proofs.Json.Tree
import Mathlib.Data.List.TakeWhile

/-!
# What written JSON is cut into

The reader goes over a text character by character.  A word or a number goes on until a
character comes that cannot belong to it, so a piece of text is judged in two ways:
`Passes` if a new token may begin right after it, `Yields` if its last token may still
be open.  Both compose, and each piece that the writer puts out has its lemma: quoted
strings with their escapes, words, numbers, blanks, and the lines between brackets.

Together they say that a value written over several lines is cut into the tokens of its
tree (`Json.yields_layout`), whatever its strings hold, if only its numbers are legible.
-/

namespace BlockCompiler

namespace JsonToken

/-- The text is read as the tokens `ts`, and a new token may begin after it. -/
def Passes (cs : List Char) (ts : List JsonToken) : Prop :=
  ∀ seen, cs.foldlM Scan.step ⟨seen, .between⟩ = some ⟨ts.reverse ++ seen, .between⟩

/-- The text is read as the tokens `ts`, the last of which may still be open. -/
def Yields (cs : List Char) (ts : List JsonToken) : Prop :=
  ∀ seen, ∃ s : Scan, cs.foldlM Scan.step ⟨seen, .between⟩ = some s ∧
    s.settle = some ⟨ts.reverse ++ seen, .between⟩

/-- The character belongs to no word and to no number. -/
def Separates (c : Char) : Prop :=
  c.isLower = false ∧ isNumeralChar c = false

/-- A character that separates closes the token before it. -/
theorem Scan.step_of_settle {s s' : Scan} (h : s.settle = some s') {c : Char} (hc : Separates c) :
    s.step c = s'.start c := by
  obtain ⟨tokens, mode⟩ := s
  cases mode with
  | between =>
    cases h
    rfl
  | word letters => simp only [step, hc.1, Bool.false_eq_true, if_false, h, Option.bind_some]
  | numeral chars => simp only [step, hc.2, Bool.false_eq_true, if_false, h, Option.bind_some]
  | string | escape | unit => cases h

/-- At the end of a text its last token is closed. -/
theorem scan?_of_yields {s : String} {ts : List JsonToken} (h : Yields s.toList ts) :
    scan? s = some ts := by
  obtain ⟨last, hlast, hsettle⟩ := h []
  have hfold : s.toList.foldlM Scan.step {} = some last := hlast
  simp [scan?, hfold, hsettle]

namespace Passes

variable {cs ds : List Char} {ts us : List JsonToken}

theorem yields (h : Passes cs ts) : Yields cs ts :=
  fun seen => ⟨_, h seen, rfl⟩

theorem nil : Passes [] [] :=
  fun _ => rfl

/-- Pieces that leave no token open can be put one after the other. -/
theorem append (h : Passes cs ts) (h' : Passes ds us) : Passes (cs ++ ds) (ts ++ us) := by
  intro seen
  rw [List.foldlM_append, h seen, List.reverse_append, List.append_assoc]
  exact h' _

/-- Only the last piece may leave a token open. -/
theorem append_yields (h : Passes cs ts) (h' : Yields ds us) : Yields (cs ++ ds) (ts ++ us) := by
  intro seen
  rw [List.foldlM_append, h seen, List.reverse_append, List.append_assoc]
  exact h' _

/-- White space is no token. -/
theorem blanks (n : Nat) : Passes (List.replicate n ' ') [] := by
  induction n with
  | zero => exact nil
  | succ n ih =>
    have hblank : Passes [' '] [] := fun _ => rfl
    exact hblank.append ih

end Passes

/-- A character that separates closes the token that was left open. -/
theorem Yields.append_passes {cs ds : List Char} {ts us : List JsonToken} {c : Char}
    (h : Yields cs ts) (hc : Separates c) (h' : Passes (c :: ds) us) :
    Passes (cs ++ c :: ds) (ts ++ us) := by
  intro seen
  obtain ⟨s, hs, hsettle⟩ := h seen
  have hrest := h' (ts.reverse ++ seen)
  rw [List.foldlM_cons] at hrest
  rw [List.foldlM_append, hs, List.reverse_append, List.append_assoc, ← hrest]
  show (c :: ds).foldlM Scan.step s = _
  rw [List.foldlM_cons, Scan.step_of_settle hsettle hc]
  rfl

/-! ## Strings -/

namespace Piece

/-- The piece is how a character is written inside a string. -/
inductive StandsFor : Piece → Char → Prop where
  | char (c : Char) : StandsFor (.char c) c
  | unit {c : Char} : c.toNat < 32 → StandsFor (.unit c.toNat) c

/-- A control character is no part of a pair of units. -/
theorem decode_unit_of_lt {n : Nat} (hn : n < 32) (rest : List Piece) :
    decode (.unit n :: rest) = (decode rest).map (Char.ofNat n :: ·) := by
  have hhigh : isHigh n = false := Bool.and_eq_false_iff.mpr (Or.inl (decide_eq_false (by omega)))
  have hlow : isLow n = false := Bool.and_eq_false_iff.mpr (Or.inl (decide_eq_false (by omega)))
  rcases rest with _ | ⟨_ | _, _⟩ <;> simp [decode, hhigh, hlow]

/-- Pieces that stand for characters are decoded to these. -/
theorem decode_of_standsFor {ps : List Piece} {cs : List Char} (h : List.Forall₂ StandsFor ps cs) :
    decode ps = some cs := by
  induction h with
  | nil => rfl
  | cons hpiece _ ih =>
    cases hpiece with
    | char => rw [decode, ih, Option.map_some]
    | unit hn => rw [decode_unit_of_lt hn, ih, Option.map_some, Char.ofNat_toNat]

end Piece

/-- A hexadecimal digit is read as what it was written for. -/
theorem hexValue?_hexDigit {n : Nat} (hn : n < 16) : hexValue? (Json.hexDigit n) = some n := by
  have hall : ∀ k : Fin 16, hexValue? (Json.hexDigit k) = some k.val := by decide
  exact hall ⟨n, hn⟩

/-- A character is written as an escape of one letter, by its number, or as it is. -/
theorem escapeChar_cases (c : Char) :
    (∃ letter, letter ≠ 'u' ∧ escaped? letter = some c ∧ Json.escapeChar c = ['\\', letter]) ∨
    (c.toNat < 32 ∧ Json.escapeChar c = ['\\', 'u', '0', '0', Json.hexDigit (c.toNat / 16),
      Json.hexDigit (c.toNat % 16)]) ∨
    (c ≠ '"' ∧ c ≠ '\\' ∧ 32 ≤ c.toNat ∧ Json.escapeChar c = [c]) := by
  have hcode : ∀ n, c.toNat = n → Char.ofNat n = c := by
    rintro n rfl
    exact Char.ofNat_toNat c
  unfold Json.escapeChar
  split_ifs with hquote hslash hfeed hreturn htab hback hform hcontrol
  · exact Or.inl ⟨'"', by decide, by rw [hquote]; rfl, rfl⟩
  · exact Or.inl ⟨'\\', by decide, by rw [hslash]; rfl, rfl⟩
  · exact Or.inl ⟨'n', by decide, by rw [hfeed]; rfl, rfl⟩
  · exact Or.inl ⟨'r', by decide, by rw [hreturn]; rfl, rfl⟩
  · exact Or.inl ⟨'t', by decide, by rw [htab]; rfl, rfl⟩
  · exact Or.inl ⟨'b', by decide, by rw [← hcode 8 hback]; rfl, rfl⟩
  · exact Or.inl ⟨'f', by decide, by rw [← hcode 12 hform]; rfl, rfl⟩
  · exact Or.inr (Or.inl ⟨hcontrol, rfl⟩)
  · exact Or.inr (Or.inr ⟨hquote, hslash, Nat.le_of_not_lt hcontrol, rfl⟩)

/-- A character comes out of a string as it went in. -/
theorem foldlM_escapeChar (c : Char) : ∃ p, Piece.StandsFor p c ∧ ∀ seen pieces,
    (Json.escapeChar c).foldlM Scan.step ⟨seen, .string pieces⟩ =
      some ⟨seen, .string (p :: pieces)⟩ := by
  rcases escapeChar_cases c with ⟨letter, hletter, hc, htext⟩ | ⟨hlt, htext⟩ | ⟨hq, hs, hle, htext⟩
  · refine ⟨.char c, .char c, fun seen pieces => ?_⟩
    rw [htext]
    simp [Scan.step, hletter, hc]
  · refine ⟨.unit c.toNat, .unit hlt, fun seen pieces => ?_⟩
    have hhigh := hexValue?_hexDigit (show c.toNat / 16 < 16 by omega)
    have hlow := hexValue?_hexDigit (show c.toNat % 16 < 16 by omega)
    have hzero : hexValue? '0' = some 0 := by decide
    have hvalue : 16 * (c.toNat / 16) + c.toNat % 16 = c.toNat := by omega
    rw [htext]
    simp [Scan.step, hzero, hhigh, hlow, hvalue]
  · refine ⟨.char c, .char c, fun seen pieces => ?_⟩
    rw [htext]
    simp [Scan.step, hq, hs, Nat.not_lt.mpr hle]

/-- Inside of a string, escaped characters are read as pieces that stand for them. -/
theorem foldlM_escaped (cs : List Char) : ∃ ps, List.Forall₂ Piece.StandsFor ps cs ∧
    ∀ seen pieces, (cs.flatMap Json.escapeChar).foldlM Scan.step ⟨seen, .string pieces⟩ =
      some ⟨seen, .string (ps.reverse ++ pieces)⟩ := by
  induction cs with
  | nil => exact ⟨[], .nil, fun _ _ => rfl⟩
  | cons c cs ih =>
    obtain ⟨p, hp, hchar⟩ := foldlM_escapeChar c
    obtain ⟨ps, hps, hrest⟩ := ih
    refine ⟨p :: ps, .cons hp hps, fun seen pieces => ?_⟩
    rw [List.flatMap_cons, List.foldlM_append, hchar, List.reverse_cons, List.append_assoc]
    exact hrest seen (p :: pieces)

/-- **A quoted string is read as the string.** -/
theorem passes_quote (s : String) : Passes (Json.quote s).toList [.string (some s)] := by
  intro seen
  obtain ⟨ps, hps, hfold⟩ := foldlM_escaped s.toList
  have hopen : Scan.step ⟨seen, .between⟩ '"' = some ⟨seen, .string []⟩ := rfl
  have hstring := hfold seen []
  rw [List.append_nil] at hstring
  rw [Json.quote, String.toList_ofList, List.foldlM_cons, hopen]
  simp only [Option.bind_eq_bind, Option.bind_some, List.foldlM_append, hstring]
  simp [Scan.step, Piece.decode_of_standsFor hps]

/-! ## Words -/

theorem yields_null : Yields "null".toList [.null] :=
  fun seen => ⟨⟨seen, .word ['l', 'l', 'u', 'n']⟩, rfl, rfl⟩

theorem yields_boolText (b : Bool) : Yields (Json.boolText b).toList [.bool b] := by
  intro seen
  cases b with
  | true => exact ⟨⟨seen, .word ['e', 'u', 'r', 't']⟩, rfl, rfl⟩
  | false => exact ⟨⟨seen, .word ['e', 's', 'l', 'a', 'f']⟩, rfl, rfl⟩

/-! ## Numbers -/

theorem isNumeralChar_of_isDigit {c : Char} (h : c.isDigit = true) : isNumeralChar c = true := by
  simp [isNumeralChar, h]

/-- A digit begins a number. -/
theorem start_of_isDigit {c : Char} (h : c.isDigit = true) (seen : List JsonToken) :
    Scan.start ⟨seen, .between⟩ c = some ⟨seen, .numeral [c]⟩ := by
  have hne : ∀ d : Char, d.isDigit = false → c ≠ d := by
    rintro d hd rfl
    rw [h] at hd
    cases hd
  have hlower : c.isLower = false := by
    have hnine : c.val ≤ '9'.val := of_decide_eq_true (Bool.and_eq_true_iff.mp h).2
    refine Bool.and_eq_false_iff.mpr (Or.inl (decide_eq_false fun hc => ?_))
    exact absurd (UInt32.le_trans hc hnine) (by decide)
  simp [Scan.start, h, hlower, hne]

/-- Digits go on with the numeral that they stand in. -/
theorem foldlM_digits {cs : List Char} (h : ∀ c ∈ cs, c.isDigit = true) (seen : List JsonToken)
    (chars : List Char) :
    cs.foldlM Scan.step ⟨seen, .numeral chars⟩ = some ⟨seen, .numeral (cs.reverse ++ chars)⟩ := by
  induction cs generalizing chars with
  | nil => rfl
  | cons c cs ih =>
    obtain ⟨hc, hcs⟩ := List.forall_mem_cons.mp h
    have hstep : Scan.step ⟨seen, .numeral chars⟩ c = some ⟨seen, .numeral (c :: chars)⟩ := by
      simp [Scan.step, isNumeralChar_of_isDigit hc]
    rw [List.foldlM_cons, hstep, List.reverse_cons, List.append_assoc]
    exact ih hcs (c :: chars)

/-- A sign or nothing, and then digits, is read as one number. -/
theorem yields_digits {sign cs : List Char} (hsign : sign = [] ∨ sign = ['-']) (hne : cs ≠ [])
    (hcs : ∀ c ∈ cs, c.isDigit = true) {n : Numeral} (hscan : Numeral.scan? (sign ++ cs) = some n)
    (hstrict : n.isStrict = true) : Yields (sign ++ cs) [.number n] := by
  have htoken : ofNumeral? (sign ++ cs) = some (.number n) := by
    simp [ofNumeral?, hscan, hstrict]
  intro seen
  refine ⟨⟨seen, .numeral (sign ++ cs).reverse⟩, ?_, ?_⟩
  · rcases hsign with rfl | rfl
    · obtain ⟨c, rest, rfl⟩ := List.exists_cons_of_ne_nil hne
      obtain ⟨hc, hrest⟩ := List.forall_mem_cons.mp hcs
      have hstart : Scan.step ⟨seen, .between⟩ c = some ⟨seen, .numeral [c]⟩ :=
        start_of_isDigit hc seen
      rw [List.nil_append, List.foldlM_cons, hstart, List.reverse_cons]
      exact foldlM_digits hrest seen [c]
    · have hstart : Scan.step ⟨seen, .between⟩ '-' = some ⟨seen, .numeral ['-']⟩ := rfl
      rw [List.singleton_append, List.foldlM_cons, hstart, List.reverse_cons]
      exact foldlM_digits hcs seen ['-']
  · rw [Scan.settle]
    simp only [List.reverse_reverse, htoken]
    rfl

end JsonToken

namespace Numeral

/-- The numeral of a whole number. -/
def ofInt (n : Int) : Numeral where
  sign := if n < 0 then some '-' else none
  whole := Nat.toDigits 10 n.natAbs
  fraction := none
  exponent := none

theorem toList_render (n : Int) :
    (Whole.render n).toList = (if n < 0 then ['-'] else []) ++ Nat.toDigits 10 n.natAbs := by
  rw [Whole.render]
  split <;> simp [Nat.repr_eq_ofList_toDigits]

theorem isDigit_of_mem {n : Nat} {c : Char} (h : c ∈ Nat.toDigits 10 n) : c.isDigit = true :=
  Nat.isDigit_of_mem_toDigits (by decide) (by decide) h

theorem splitSign_of_isDigit {cs : List Char} (h : ∀ c ∈ cs, c.isDigit = true) :
    splitSign cs = (none, cs) := by
  have hfirst : ∀ sign rest, cs = sign :: rest → sign.isDigit = true := by
    rintro sign rest rfl
    exact h sign List.mem_cons_self
  rw [splitSign]
  · exact fun rest heq => absurd (hfirst '-' rest heq) (by decide)
  · exact fun rest heq => absurd (hfirst '+' rest heq) (by decide)

/-- A whole number is read as the numeral that it was written as. -/
theorem scan?_render (n : Int) : scan? (Whole.render n).toList = some (ofInt n) := by
  have hdigits : ∀ c ∈ Nat.toDigits 10 n.natAbs, c.isDigit = true := fun c => isDigit_of_mem
  have hsplit : splitSign (Whole.render n).toList =
      (if n < 0 then some '-' else none, Nat.toDigits 10 n.natAbs) := by
    rw [toList_render]
    split
    · rfl
    · exact splitSign_of_isDigit hdigits
  have htake : (Nat.toDigits 10 n.natAbs).takeWhile Char.isDigit = Nat.toDigits 10 n.natAbs :=
    List.takeWhile_eq_self_iff.mpr hdigits
  have hdrop : (Nat.toDigits 10 n.natAbs).dropWhile Char.isDigit = [] :=
    List.dropWhile_eq_nil_iff.mpr hdigits
  simp only [scan?, hsplit, htake, hdrop]
  rfl

/-- Only zero is written with a zero in front. -/
theorem head?_toDigits_ne_zero {n : Nat} (hn : 0 < n) : (Nat.toDigits 10 n).head? ≠ some '0' := by
  induction n using Nat.strongRecOn with
  | ind n ih =>
    by_cases hsmall : n < 10
    · have hall : ∀ k : Fin 10, 0 < k.val → k.val.digitChar ≠ '0' := by decide
      rw [Nat.toDigits_of_lt_base hsmall, List.head?_cons]
      exact fun h => hall ⟨n, hsmall⟩ hn (Option.some.inj h)
    · have hsplit := Nat.toDigits_append_toDigits (b := 10) (n := n / 10) (d := n % 10) (by decide)
        (by omega) (by omega)
      rw [Nat.div_add_mod] at hsplit
      rw [← hsplit, List.head?_append_of_ne_nil _ Nat.toDigits_ne_nil]
      exact ih (n / 10) (by omega) (by omega)

/-- It has no leading zeros, as JSON asks. -/
theorem isStrict_ofInt (n : Int) : (ofInt n).isStrict = true := by
  have hsign : ((ofInt n).sign != some '+') = true := by
    rw [ofInt]
    split <;> rfl
  have hwhole : ((ofInt n).whole.length == 1 || (ofInt n).whole.head? != some '0') = true := by
    by_cases hn : n.natAbs = 0
    · rw [ofInt, hn]
      rfl
    · rw [Bool.or_eq_true, bne_iff_ne]
      exact Or.inr (head?_toDigits_ne_zero (by omega))
  have hne : (ofInt n).whole.isEmpty = false := by simp [ofInt]
  rw [isStrict, hsign, hwhole, hne]
  rfl

/-- It stands for the number. -/
theorem toDecimal_ofInt (n : Int) :
    (ofInt n).toDecimal = { negative := n < 0, mantissa := n.natAbs, exponent := 0 } := by
  have hdigits : digitsValue (Nat.toDigits 10 n.natAbs ++ []) = n.natAbs := by
    rw [List.append_nil]
    exact Nat.ofDigitChars_ten_toDigits
  have hsign : ((if n < 0 then some '-' else none) == some '-') = decide (n < 0) := by
    split <;> simp_all
  simp only [toDecimal, ofInt, Option.getD_none, hdigits, hsign]
  rfl

end Numeral

namespace JsonNumber

/-- The numeral that a number is written as. -/
def numeral (x : JsonNumber) : Numeral :=
  (Numeral.scan? x.render.toList).getD { sign := none, whole := [], fraction := none, exponent := none }

/-- The text of the number is read as one numeral, which stands for the number. -/
structure Legible (x : JsonNumber) : Prop where
  yields : JsonToken.Yields x.render.toList [.number x.numeral]
  stands : ofNumeral? x.numeral = some x

theorem numeral_integer (n : Int) : (integer n).numeral = Numeral.ofInt n := by
  rw [numeral, render, Numeral.scan?_render, Option.getD_some]

/-- **Whole numbers of 64 bits are legible.** -/
theorem legible_integer {n : Int} (h : fits n = true) : (integer n).Legible := by
  constructor
  · have hsign : (if n < 0 then ['-'] else []) = [] ∨ (if n < 0 then ['-'] else []) = ['-'] := by
      split <;> simp
    have hscan := Numeral.scan?_render n
    rw [Numeral.toList_render] at hscan
    rw [numeral_integer, render, Numeral.toList_render]
    exact JsonToken.yields_digits hsign Nat.toDigits_ne_nil (fun c => Numeral.isDigit_of_mem) hscan
      (Numeral.isStrict_ofInt n)
  · have hwhole : (if decide (n < 0) = true then -(n.natAbs : Int) else n.natAbs) = n := by
      simp only [decide_eq_true_eq]
      split <;> omega
    have hsigned : (!(decide (n < 0) && n.natAbs == 0)) = true := by
      rw [Bool.not_eq_true', Bool.and_eq_false_iff, decide_eq_false_iff_not, beq_eq_false_iff_ne]
      omega
    have hform : (Numeral.ofInt n).isWhole = true := rfl
    rw [numeral_integer, ofNumeral?, Numeral.toDecimal_ofInt]
    simp only [hwhole, hsigned, hform, h, Bool.and_self, if_true]

end JsonNumber

namespace Json

/-- Induction over values, from the parts of an array or object to the whole. -/
@[elab_as_elim]
theorem induction {motive : Json → Prop} (null : motive .null) (bool : ∀ b, motive (.bool b))
    (number : ∀ x, motive (.number x)) (string : ∀ s, motive (.string s))
    (array : ∀ items, (∀ item ∈ items, motive item) → motive (.array items))
    (object : ∀ members, (∀ member ∈ members, motive member.2) → motive (.object members)) :
    ∀ j, motive j
  | .null => null
  | .bool b => bool b
  | .number x => number x
  | .string s => string s
  | .array items => array items fun item _ => induction null bool number string array object item
  | .object members =>
    object members fun member _ => induction null bool number string array object member.2
decreasing_by
  all_goals simp_wf
  · rename_i hmem
    have := List.sizeOf_lt_of_mem hmem
    omega
  · rename_i hmem
    have := List.sizeOf_lt_of_mem hmem
    obtain ⟨name, value⟩ := member
    simp only [Prod.mk.sizeOf_spec] at this ⊢
    omega

/-- Every number in the value has a property. -/
inductive Numbers (P : JsonNumber → Prop) : Json → Prop where
  | null : Numbers P .null
  | bool (b : Bool) : Numbers P (.bool b)
  | number {x : JsonNumber} : P x → Numbers P (.number x)
  | string (s : String) : Numbers P (.string s)
  | array {items : List Json} : (∀ item ∈ items, Numbers P item) → Numbers P (.array items)
  | object {members : List (String × Json)} :
      (∀ member ∈ members, Numbers P member.2) → Numbers P (.object members)

attribute [simp] Numbers.null Numbers.bool Numbers.string

section Numbers

variable {P Q : JsonNumber → Prop}

@[simp] theorem numbers_number_iff {x : JsonNumber} : (Json.number x).Numbers P ↔ P x := by
  constructor
  · intro h
    cases h with
    | number hx => exact hx
  · exact .number

@[simp] theorem numbers_array_iff {items : List Json} :
    (Json.array items).Numbers P ↔ ∀ item ∈ items, item.Numbers P := by
  constructor
  · intro h
    cases h with
    | array hitems => exact hitems
  · exact .array

@[simp] theorem numbers_object_iff {members : List (String × Json)} :
    (Json.object members).Numbers P ↔ ∀ member ∈ members, member.2.Numbers P := by
  constructor
  · intro h
    cases h with
    | object hmembers => exact hmembers
  · exact .object

/-- A weaker property holds of all numbers too. -/
theorem Numbers.imp (himp : ∀ x, P x → Q x) {j : Json} (h : j.Numbers P) : j.Numbers Q := by
  induction h with
  | null => exact .null
  | bool b => exact .bool b
  | number hx => exact .number (himp _ hx)
  | string s => exact .string s
  | array _ ih => exact .array ih
  | object _ ih => exact .object ih

end Numbers

mutual

/-- The tree that a value is written as. -/
def toTree : Json → JsonTree
  | .null => .null
  | .bool b => .bool b
  | .number x => .number x.numeral
  | .string s => .string (some s)
  | .array items => .array (itemTrees items)
  | .object members => .object (memberTrees members)

/-- The trees of the items of an array. -/
def itemTrees : List Json → List JsonTree
  | [] => []
  | item :: rest => item.toTree :: itemTrees rest

/-- The names and trees of the members of an object. -/
def memberTrees : List (String × Json) → List (Option String × JsonTree)
  | [] => []
  | (name, value) :: rest => (some name, value.toTree) :: memberTrees rest

end

theorem itemTrees_eq_map (items : List Json) : itemTrees items = items.map toTree := by
  induction items with
  | nil => rfl
  | cons item rest ih => rw [itemTrees, ih, List.map_cons]

theorem memberTrees_eq_map (members : List (String × Json)) :
    memberTrees members = members.map fun m => (some m.1, m.2.toTree) := by
  induction members with
  | nil => rfl
  | cons m rest ih => rw [memberTrees, ih, List.map_cons]

theorem layoutItems_eq_map (level : Nat) (items : List Json) :
    layoutItems level items = items.map (layout level) := by
  induction items with
  | nil => rfl
  | cons item rest ih => rw [layoutItems, ih, List.map_cons]

theorem layoutMembers_eq_map (level : Nat) (members : List (String × Json)) :
    layoutMembers level members =
      members.map fun m => quote m.1 ++ ": " ++ m.2.layout level := by
  induction members with
  | nil => rfl
  | cons m rest ih => rw [layoutMembers, ih, List.map_cons]

open JsonToken

/-- The line feed and the spaces at a margin are no tokens. -/
theorem passes_margin (level : Nat) : Passes (margin level).toList [] := by
  rw [margin, String.toList_ofList]
  exact Passes.blanks _

section Lines

variable {α : Type} {write : α → String} {tokens : α → List JsonToken} {parts : List α}
variable {comma : String} {gap : List Char} (hgap : comma.toList = ',' :: gap)
  (hcomma : Passes (',' :: gap) [.comma])

include hgap hcomma

/-- Further parts, each with a comma before it, that blanks may follow. -/
theorem yields_further {cs : List Char} {ts : List JsonToken} (hcs : Yields cs ts)
    (h : ∀ x ∈ parts, Yields (write x).toList (tokens x)) :
    Yields (cs ++ parts.flatMap fun x => comma.toList ++ (write x).toList)
      (ts ++ parts.flatMap fun x => [.comma] ++ tokens x) := by
  induction parts generalizing cs ts with
  | nil => simpa using hcs
  | cons x rest ih =>
    obtain ⟨hx, hrest⟩ := List.forall_mem_cons.mp h
    have hnext := (hcs.append_passes ⟨by decide, by decide⟩ hcomma).append_yields hx
    rw [List.append_assoc, List.append_assoc, ← hgap] at hnext
    rw [List.flatMap_cons, List.flatMap_cons, ← List.append_assoc cs, ← List.append_assoc ts]
    exact ih hnext hrest

/-- Parts with commas between them are read as what they hold, with commas between. -/
theorem yields_intercalate (hne : parts ≠ []) (h : ∀ x ∈ parts, Yields (write x).toList (tokens x)) :
    Yields (comma.intercalate (parts.map write)).toList
      ([.comma].intercalate (parts.map tokens)) := by
  obtain ⟨x, rest, rfl⟩ := List.exists_cons_of_ne_nil hne
  obtain ⟨hx, hrest⟩ := List.forall_mem_cons.mp h
  have hall := yields_further hgap hcomma hx hrest
  rw [String.toList_intercalate, List.map_map, List.map_cons, List.map_cons,
    JsonTree.intercalate_cons, JsonTree.intercalate_cons, List.flatMap_map, List.flatMap_map]
  exact hall

end Lines

section Brackets

variable {α : Type} {write : α → String} {tokens : α → List JsonToken} {parts : List α}

/-- Lines between brackets are read as what they hold, between the brackets. -/
theorem passes_block {left right : String} {opening closing : JsonToken}
    (hleft : Passes left.toList [opening]) (hright : Passes right.toList [closing]) (level : Nat)
    (h : ∀ x ∈ parts, Yields (write x).toList (tokens x)) :
    Passes (block left right level (parts.map write)).toList
      (opening :: ([.comma].intercalate (parts.map tokens) ++ [closing])) := by
  by_cases hnil : parts = []
  · subst hnil
    rw [List.map_nil, block, String.toList_append]
    exact hleft.append hright
  · have hline : ∀ x ∈ parts, Yields (margin (level + 1) ++ write x).toList (tokens x) := by
      intro x hx
      rw [String.toList_append]
      exact (passes_margin (level + 1)).append_yields (h x hx)
    have hcomma : Passes [',', '\n'] [.comma] := fun _ => rfl
    have hgap : ",\n".toList = [',', '\n'] := rfl
    have hlines := yields_intercalate hgap hcomma hnil hline
    have hbreak : Passes ['\n'] [] := fun _ => rfl
    have hend := (hbreak.append (passes_margin level)).append hright
    have hbody := hlines.append_passes ⟨by decide, by decide⟩ hend
    have hall := (hleft.append hbreak).append hbody
    obtain ⟨x, rest, rfl⟩ := List.exists_cons_of_ne_nil hnil
    simpa [block, Function.comp_def] using hall

end Brackets

/-- **A value written over several lines is cut into the tokens of its tree.** -/
theorem yields_layout {j : Json} (h : j.Numbers JsonNumber.Legible) (level : Nat) :
    Yields (j.layout level).toList j.toTree.tokens := by
  induction j using induction generalizing level with
  | null => exact yields_null
  | bool b => exact yields_boolText b
  | number x => exact (numbers_number_iff.mp h).yields
  | string s => exact (passes_quote s).yields
  | array items ih =>
    have hitems := numbers_array_iff.mp h
    rw [layout, layoutItems_eq_map, toTree, itemTrees_eq_map, JsonTree.tokens,
      JsonTree.itemTokens_eq_map, List.map_map]
    exact (passes_block (fun _ => rfl) (fun _ => rfl) level fun item hitem =>
      ih item hitem (hitems item hitem) (level + 1)).yields
  | object members ih =>
    have hmembers := numbers_object_iff.mp h
    rw [layout, layoutMembers_eq_map, toTree, memberTrees_eq_map, JsonTree.tokens,
      JsonTree.memberTokens_eq_map, List.map_map]
    refine (passes_block (fun _ => rfl) (fun _ => rfl) level fun m hm => ?_).yields
    have hcolon : Passes ": ".toList [.colon] := fun _ => rfl
    have hvalue := ih m hm (hmembers m hm) (level + 1)
    rw [String.toList_append, String.toList_append]
    exact ((passes_quote m.1).append hcolon).append_yields hvalue

end Json

end BlockCompiler
