import BlockCompiler.Proofs.Expression.Arduino
import BlockCompiler.Proofs.Expression.Integer
import Mathlib.Logic.Function.Basic

/-!
# Counting

A counting loop goes from a first number by equal steps until it would come past a last
one (`Counts`).  In C it has a header of three parts: an assignment, a test before each
round, and a step after it (`LoopHeader`).  In Python its values are those of a range, the
end of which is not among them (`Python.range`).

A header is read off the tokens of its text, and there is one way to read it
(`LoopHeader.Derives.unique`).  One that adds a step to its variable while it is not past a
bound runs through what is counted and no more (`LoopHeader.visits_iff`), and so does a
range whose end lies one past the bound (`Python.exists_range`).
-/

namespace BlockCompiler

/-! ## Equal steps -/

/-- The number does not lie past the last one, seen in the direction of the step. -/
def IsWithin (step value last : Int) : Prop :=
  (0 < step ∧ value ≤ last) ∨ (step < 0 ∧ last ≤ value)

instance (step value last : Int) : Decidable (IsWithin step value last) :=
  inferInstanceAs (Decidable (_ ∨ _))

/-- The numbers are `first`, `first + step` and so on, as long as they do not lie past `last`. -/
def Counts (first last step : Int) (values : List Int) : Prop :=
  ∀ k : Nat, values[k]? =
    if IsWithin step (first + k * step) last then some (first + k * step) else none

/-- What lies past the last number stays so with further steps. -/
theorem not_isWithin_add {first last step : Int} (h : ¬ IsWithin step first last) (k : Nat) :
    ¬ IsWithin step (first + k * step) last := by
  rintro (⟨hstep, hle⟩ | ⟨hstep, hle⟩)
  · have hmul : 0 ≤ (k : Int) * step := Int.mul_nonneg (by omega) (by omega)
    exact h (Or.inl ⟨hstep, by omega⟩)
  · have hmul : (k : Int) * step ≤ 0 := Int.mul_nonpos_of_nonneg_of_nonpos (by omega) (by omega)
    exact h (Or.inr ⟨hstep, by omega⟩)

namespace Counts

variable {first last step : Int} {values : List Int}

theorem unique {other : List Int} (h : Counts first last step values)
    (h' : Counts first last step other) : values = other :=
  List.ext_getElem? fun k => (h k).trans (h' k).symm

theorem nil_iff : Counts first last step [] ↔ ¬ IsWithin step first last := by
  constructor
  · intro h hwithin
    have hfirst := h 0
    simp [hwithin] at hfirst
  · intro h k
    rw [if_neg (not_isWithin_add h k)]
    rfl

theorem cons_iff {value : Int} : Counts first last step (value :: values) ↔
    IsWithin step first last ∧ value = first ∧ Counts (first + step) last step values := by
  have hshift : ∀ k : Nat, first + (k + 1 : Nat) * step = first + step + k * step := by
    intro k
    rw [Int.natCast_succ, Int.add_mul]
    omega
  constructor
  · intro h
    have hfirst := h 0
    by_cases hwithin : IsWithin step first last
    · refine ⟨hwithin, by simpa [hwithin] using hfirst, fun k => ?_⟩
      have hnext := h (k + 1)
      rwa [hshift k, List.getElem?_cons_succ] at hnext
    · simp [hwithin] at hfirst
  · rintro ⟨hwithin, rfl, hrest⟩ k
    cases k with
    | zero => simp [hwithin]
    | succ k => rw [hshift k, List.getElem?_cons_succ, hrest k]

end Counts

/-! ## Ranges -/

namespace Python

theorem lt_rangeLength_iff {start stop step : Int} {k : Nat} :
    k < rangeLength start stop step ↔
      (0 < step ∧ start + k * step < stop) ∨ (step < 0 ∧ stop < start + k * step) := by
  rw [rangeLength]
  by_cases hup : 0 < step
  · have hdown : ¬ step < 0 := by omega
    have hdiv : (k : Int) ≤ (stop - start - 1) / step ↔ k * step ≤ stop - start - 1 :=
      Int.le_ediv_iff_mul_le hup
    have hnonneg : 0 ≤ (k : Int) * step := Int.mul_nonneg (by omega) (by omega)
    simp only [hup, hdown, true_and, false_and, if_false, or_false]
    split <;> omega
  · by_cases hdown : step < 0
    · have hdiv : (k : Int) ≤ (start - stop - 1) / -step ↔ k * -step ≤ start - stop - 1 :=
        Int.le_ediv_iff_mul_le (by omega)
      have hneg : (k : Int) * -step = -(k * step) := Int.mul_neg _ _
      have hnonneg : 0 ≤ (k : Int) * -step := Int.mul_nonneg (by omega) (by omega)
      simp only [hup, hdown, true_and, false_and, if_false, false_or]
      split <;> omega
    · simp [hup, hdown]

/-- **A range whose end lies one past the last number counts up or down to it.** -/
theorem exists_range (first last : Int) {step : Int} (hstep : step ≠ 0) :
    ∃ values, range first (last + if 0 < step then 1 else -1) step = some values ∧
      Counts first last step values := by
  rw [range, if_neg hstep]
  refine ⟨_, rfl, fun k => ?_⟩
  have hiff : k < rangeLength first (last + if 0 < step then 1 else -1) step ↔
      IsWithin step (first + k * step) last := by
    rw [lt_rangeLength_iff, IsWithin]
    split <;> omega
  rw [List.getElem?_map]
  by_cases hk : k < rangeLength first (last + if 0 < step then 1 else -1) step
  · rw [List.getElem?_range hk, if_pos (hiff.mp hk)]
    rfl
  · rw [if_neg (mt hiff.mpr hk), List.getElem?_eq_none (by simpa using hk)]
    rfl

end Python

/-! ## Headers of loops -/

/-- What separates the parts of a header. -/
def Token.semicolon : Token := .sign [';']

/-- The header of a loop in C: a variable is set, then a test is made before each round, and a
variable is changed after it. -/
structure LoopHeader where
  counter : List Char
  start : Expression
  test : Expression
  stepped : List Char
  op : ArithmeticOp
  amount : Expression

namespace LoopHeader

/-- The signs that change a variable by an amount. -/
def updates : List (Token × ArithmeticOp) :=
  [(.sign ['+', '='], .add), (.sign ['-', '='], .subtract), (.sign ['*', '='], .multiply)]

/-- The text can be read as the header, in which any word is a variable. -/
def Derives (text : String) (h : LoopHeader) : Prop :=
  ∃ t start test amount, (t, h.op) ∈ updates ∧
    Lexicon.c.scan none text.toList =
      some (.word h.counter :: .sign ['='] :: (start ++ .semicolon :: (test ++ .semicolon ::
        .word h.stepped :: t :: amount))) ∧
    Grammar.operators.Reads (.expression Grammar.operators.loosest h.start) start ∧
    Grammar.operators.Reads (.expression Grammar.operators.loosest h.test) test ∧
    Grammar.operators.Reads (.expression Grammar.operators.loosest h.amount) amount

/-- The values of the counter in the rounds that follow, if the body does not change variables. -/
inductive Visits (h : LoopHeader) : (List Char → Int) → List Int → Prop
  | stop {env : List Char → Int} (htest : h.test.value env = some 0) : Visits h env []
  | round {env : List Char → Int} {t amount next : Int} {values : List Int}
      (htest : h.test.value env = some t) (ht : t ≠ 0)
      (hamount : h.amount.value env = some amount)
      (hnext : h.op.result? (env h.stepped) amount = some next)
      (hrest : Visits h (Function.update env h.stepped next) values) :
      Visits h env (env h.counter :: values)

/-- The values of the counter in all rounds. -/
def Runs (h : LoopHeader) (env : List Char → Int) (values : List Int) : Prop :=
  ∃ first, h.start.value env = some first ∧
    h.Visits (Function.update env h.counter first) values

/-! ### Reading -/

/-- No expression has a semicolon in it. -/
theorem semicolon_not_mem {p : Phrase} {ts : List Token} (h : Grammar.operators.Reads p ts) :
    Token.semicolon ∉ ts := by
  have hunary : Grammar.operators.unary.lookup Token.semicolon = none := by decide
  have hbinary : Grammar.operators.binary.lookup Token.semicolon = none := by decide
  induction h with
  | numeral | name => simp [Token.semicolon]
  | noArguments => simp [Token.semicolon, Token.opening, Token.closing]
  | call _ _ ih | parens _ ih => simpa [Token.semicolon, Token.opening, Token.closing] using ih
  | unary ht _ ih =>
    rintro (_ | ⟨_, hmem⟩)
    · rw [hunary] at ht
      cases ht
    · exact ih hmem
  | binary ht _ _ iha ihb =>
    intro hmem
    rcases List.mem_append.mp hmem with hmem | _ | ⟨_, hmem⟩
    · exact iha hmem
    · rw [hbinary] at ht
      cases ht
    · exact ihb hmem
  | looser _ _ ih | last _ ih => exact ih
  | further _ _ ih ihs =>
    have hcomma : Token.semicolon ≠ .comma := by decide
    simp [ih, ihs, hcomma]

/-- The parts before and after the first semicolon. -/
theorem eq_of_semicolon_eq {p q : Phrase} {a b c d : List Token} (ha : Grammar.operators.Reads p a)
    (hc : Grammar.operators.Reads q c) (h : a ++ Token.semicolon :: b = c ++ Token.semicolon :: d) :
    a = c ∧ b = d := by
  rcases List.append_eq_append_iff.mp h with ⟨e, rfl, hrest⟩ | ⟨e, rfl, hrest⟩
  · cases e with
    | nil => simpa using hrest
    | cons x e =>
      obtain ⟨rfl, -⟩ := List.cons.inj hrest
      exact absurd (List.mem_append_right a List.mem_cons_self) (semicolon_not_mem hc)
  · cases e with
    | nil => simpa using hrest.symm
    | cons x e =>
      obtain ⟨rfl, -⟩ := List.cons.inj hrest
      exact absurd (List.mem_append_right c List.mem_cons_self) (semicolon_not_mem ha)

/-- **A header is read in one way.** -/
theorem Derives.unique {text : String} {h h' : LoopHeader} (hd : Derives text h)
    (hd' : Derives text h') : h = h' := by
  obtain ⟨t, start, test, amount, ht, hscan, hstart, htest, hamount⟩ := hd
  obtain ⟨t', start', test', amount', ht', hscan', hstart', htest', hamount'⟩ := hd'
  rw [hscan] at hscan'
  obtain ⟨hcounter, hparts⟩ := List.cons.inj (Option.some.inj hscan')
  obtain ⟨rfl, htests⟩ := eq_of_semicolon_eq hstart hstart' (List.cons.inj hparts).2
  obtain ⟨rfl, hsteps⟩ := eq_of_semicolon_eq htest htest' htests
  obtain ⟨hstepped, hupdate⟩ := List.cons.inj hsteps
  obtain ⟨rfl, rfl⟩ := List.cons.inj hupdate
  have hop : ∀ e ∈ updates, ∀ e' ∈ updates, e.1 = e'.1 → e.2 = e'.2 := by decide
  cases h
  cases h'
  simp only [mk.injEq]
  exact ⟨Token.word.inj hcounter, hstart.unique hstart', htest.unique htest',
    Token.word.inj hstepped, hop _ ht _ ht' rfl, hamount.unique hamount'⟩

/-! ### Headers that count -/

/-- The header that counts with a variable from one number up or down to another. -/
def counting (w : List Char) (up : Bool) (first last amount : Int) : LoopHeader where
  counter := w
  start := .signed (Whole.render first).toList
  test := .binary (.comparison (if up then .lessOrEqual else .greaterOrEqual)) (.name w)
    (.signed (Whole.render last).toList)
  stepped := w
  op := if up then .add else .subtract
  amount := .signed (Whole.render amount).toList

@[simp] theorem counter_counting {w : List Char} {up : Bool} {first last amount : Int} :
    (counting w up first last amount).counter = w := rfl

@[simp] theorem stepped_counting {w : List Char} {up : Bool} {first last amount : Int} :
    (counting w up first last amount).stepped = w := rfl

/-- The signs of its test and of its step. -/
def countingSigns (up : Bool) : String × String :=
  if up then ("<=", "+=") else (">=", "-=")

/-- The text of that header. -/
def countingText (var : String) (up : Bool) (first last amount : Int) : String :=
  var ++ " = " ++ Whole.render first ++ "; " ++
    var ++ " " ++ (countingSigns up).1 ++ " " ++ Whole.render last ++ "; " ++
      var ++ " " ++ (countingSigns up).2 ++ " " ++ Whole.render amount

/-- The tokens of the decimal text of a number. -/
def literalTokens (v : Int) : List Token :=
  if v < 0 then [.sign ['-'], .numeral (Nat.toDigits 10 v.natAbs)]
  else [.numeral (Nat.toDigits 10 v.natAbs)]

theorem reads_literal (v : Int) :
    Grammar.operators.Reads (.expression 1 (.signed (Whole.render v).toList)) (literalTokens v) := by
  have hnumeral := Grammar.Reads.numeral (G := Grammar.operators) (isDecimal_toDigits v.natAbs)
  rcases toList_render_cases v with ⟨hv, htext⟩ | ⟨hv, htext⟩
  · rw [htext, literalTokens, if_pos hv]
    exact Grammar.Reads.unary (t := .sign ['-']) (u := ⟨.minus, 1⟩) rfl
      (hnumeral.looser (by decide))
  · rw [htext, literalTokens, if_neg (by omega), Expression.signed_toDigits]
    exact hnumeral.looser (by decide)

theorem scan_literal (v : Int) {rest : List Char} (hrest : ∀ d ∈ rest.head?, d = ';') :
    Lexicon.c.scan none ((Whole.render v).toList ++ rest) =
      (Lexicon.c.scan none rest).map (literalTokens v ++ ·) := by
  have hdecimal := isDecimal_toDigits v.natAbs
  have hnumeral : Lexicon.c.scan none (Nat.toDigits 10 v.natAbs ++ rest) =
      (Lexicon.c.scan none rest).map (.numeral (Nat.toDigits 10 v.natAbs) :: ·) := by
    refine Lexicon.scan_token (Lexicon.token?_numeral hdecimal) fun d hd => ?_
    rw [hrest d hd]
    simp [Lexicon.extend?, isWordChar]
  rcases toList_render_cases v with ⟨hv, htext⟩ | ⟨hv, htext⟩
  · have hminus : Lexicon.c.token? ['-'] = some (.sign ['-']) := by decide
    have hnext : ∀ d ∈ (Nat.toDigits 10 v.natAbs ++ rest).head?,
        Lexicon.c.extend? (.sign ['-']) d = none := by
      intro d hd
      rw [List.head?_append_of_ne_nil _ Nat.toDigits_ne_nil] at hd
      exact Rendition.extend?_minus (Or.inl (Numeral.isDigit_of_mem (List.mem_of_mem_head? hd)))
    have hscan := Lexicon.scan_token hminus hnext
    rw [htext, literalTokens, if_pos hv]
    rw [hnumeral, Option.map_map] at hscan
    exact hscan
  · rw [htext, literalTokens, if_neg (by omega)]
    exact hnumeral

/-- A part of a header: a variable, a sign and a number. -/
theorem scan_part {w sign : List Char} (hw : isWord w = true)
    (hsign : Lexicon.c.token? sign = some (.sign sign)) (v : Int) {rest : List Char}
    (hrest : ∀ d ∈ rest.head?, d = ';') :
    Lexicon.c.scan none (w ++ ' ' :: (sign ++ ' ' :: ((Whole.render v).toList ++ rest))) =
      (Lexicon.c.scan none rest).map (.word w :: .sign sign :: literalTokens v ++ ·) := by
  have hne : Token.sign sign ≠ .sign [] := by
    intro hnil
    cases hnil
    cases hsign
  have hword := Lexicon.lexes_token (Lexicon.token?_word (L := Lexicon.c) hw) (by simp)
  rw [hword _ (Lexicon.stops_cons (by simp) _), Lexicon.scan_space,
    Lexicon.lexes_token hsign hne _ (Lexicon.stops_cons (by simp) _), Lexicon.scan_space,
    scan_literal v hrest, Option.map_map, Option.map_map]
  rfl

theorem scan_semicolon (rest : List Char) :
    Lexicon.c.scan none (';' :: ' ' :: rest) =
      (Lexicon.c.scan none rest).map (.semicolon :: ·) := by
  have htoken : Lexicon.c.token? [';'] = some Token.semicolon := by decide
  have hscan := Lexicon.lexes_token htoken (by decide) (' ' :: rest)
    (Lexicon.stops_cons (by simp) _)
  rwa [Lexicon.scan_space] at hscan

/-- The text of a header that counts is read as that header. -/
theorem derives_counting {var : String} (hvar : isWord var.toList = true) (up : Bool)
    (first last amount : Int) :
    Derives (countingText var up first last amount)
      (counting var.toList up first last amount) := by
  have hassign : Lexicon.c.token? ['='] = some (.sign ['=']) := by decide
  have htest : Lexicon.c.token? (countingSigns up).1.toList =
      some (.sign (countingSigns up).1.toList) := by
    cases up <;> decide
  have hstep : Lexicon.c.token? (countingSigns up).2.toList =
      some (.sign (countingSigns up).2.toList) := by
    cases up <;> decide
  have hsemicolon : ∀ rest : List Char, ∀ d ∈ (';' :: rest).head?, d = ';' := by
    rintro rest d hd
    cases hd
    rfl
  have htext : (countingText var up first last amount).toList =
      var.toList ++ ' ' :: (['='] ++ ' ' :: ((Whole.render first).toList ++ ';' :: ' ' ::
        (var.toList ++ ' ' :: ((countingSigns up).1.toList ++ ' ' ::
          ((Whole.render last).toList ++ ';' :: ' ' ::
            (var.toList ++ ' ' :: ((countingSigns up).2.toList ++ ' ' ::
              ((Whole.render amount).toList ++ [])))))))) := by
    simp [countingText]
  -- The three parts are read one after the other; the semicolons end them.
  refine ⟨.sign (countingSigns up).2.toList, literalTokens first,
    [.word var.toList] ++ .sign (countingSigns up).1.toList :: literalTokens last,
    literalTokens amount, ?_, ?_, (reads_literal first).looser (by decide), ?_,
    (reads_literal amount).looser (by decide)⟩
  · cases up <;> simp [updates, counting, countingSigns]
  · rw [htext, scan_part hvar hassign first (hsemicolon _), scan_semicolon,
      scan_part hvar htest last (hsemicolon _), scan_semicolon,
      scan_part hvar hstep amount (by simp)]
    simp [Lexicon.scan, counting]
  · have hname : Grammar.operators.Reads (.expression 4 (.name var.toList)) [.word var.toList] :=
      (Grammar.Reads.name (Rendition.isName_operators _)).looser (by decide)
    have hlast := (reads_literal last).looser (m := 3) (by decide)
    cases up with
    | true =>
      exact (Grammar.Reads.binary (t := .sign ['<', '='])
        (r := .leftward (.comparison .lessOrEqual) 4) rfl hname hlast).looser (by decide)
    | false =>
      exact (Grammar.Reads.binary (t := .sign ['>', '='])
        (r := .leftward (.comparison .greaterOrEqual) 4) rfl hname hlast).looser (by decide)

/-! ### Running -/

section Running

variable {w : List Char} {up : Bool} {first last amount : Int} {env : List Char → Int}

theorem value_test (hamount : 0 < amount) :
    (counting w up first last amount).test.value env =
      some (decide (IsWithin (if up then amount else -amount) (env w) last)).toInt := by
  have hwithin : IsWithin (if up then amount else -amount) (env w) last ↔
      (if up then ComparisonOp.lessOrEqual else .greaterOrEqual).holds (env w) last = true := by
    cases up <;> simp [IsWithin, ComparisonOp.holds] <;> omega
  rw [counting, Expression.value, Expression.value, Expression.value_render, Option.bind_some,
    Option.bind_some, BinaryOp.result?, Bool.eq_iff_iff.mpr (decide_eq_true_iff.trans hwithin)]

theorem result?_step :
    (counting w up first last amount).op.result? (env w) amount =
      some (env w + if up then amount else -amount) := by
  cases up <;> simp [counting, ArithmeticOp.result?, Int.sub_eq_add_neg]

/-- The rounds of a header that counts are what is counted from the value of its variable on. -/
theorem visits_iff (hamount : 0 < amount) {values : List Int} :
    (counting w up first last amount).Visits env values ↔
      Counts (env w) last (if up then amount else -amount) values := by
  constructor
  · intro h
    induction h with
    | @stop env htest =>
      refine Counts.nil_iff.mpr fun hwithin => ?_
      simp [value_test hamount, hwithin] at htest
    | @round env t change next values htest ht hchange hnext _ ih =>
      have hwithin : IsWithin (if up then amount else -amount) (env w) last := by
        by_contra hnot
        rw [value_test hamount, decide_eq_false hnot] at htest
        exact ht (Option.some.inj htest).symm
      have hsame : change = amount := by
        rw [counting, Expression.value_render] at hchange
        exact (Option.some.inj hchange).symm
      rw [hsame, stepped_counting, result?_step] at hnext
      cases hnext
      refine Counts.cons_iff.mpr ⟨hwithin, rfl, ?_⟩
      rwa [stepped_counting, Function.update_self] at ih
  · intro h
    -- The other way round the values are given, and each of them is a round.
    induction values generalizing env with
    | nil =>
      refine .stop ?_
      simp [value_test hamount, Counts.nil_iff.mp h]
    | cons value values ih =>
      obtain ⟨hwithin, rfl, hrest⟩ := Counts.cons_iff.mp h
      refine .round (t := 1) ?_ (by decide) (Expression.value_render amount env) result?_step
        (ih ?_)
      · simp [value_test hamount, hwithin]
      · rwa [stepped_counting, Function.update_self]

/-- **A header that counts runs through what is counted.** -/
theorem runs_iff (hamount : 0 < amount) {values : List Int} :
    (counting w up first last amount).Runs env values ↔
      Counts first last (if up then amount else -amount) values := by
  have hstart := Expression.value_render first env
  constructor
  · rintro ⟨start, hvalue, hvisits⟩
    have hsame : some first = some start := hstart.symm.trans hvalue
    cases hsame
    have hcounts := (visits_iff hamount).mp hvisits
    rwa [counter_counting, Function.update_self] at hcounts
  · intro hcounts
    refine ⟨first, hstart, (visits_iff hamount).mpr ?_⟩
    rwa [counter_counting, Function.update_self]

end Running

end LoopHeader

end BlockCompiler
