import BlockCompiler.Decimal.Binary64
import BlockCompiler.Proofs.Expression.Python
import BlockCompiler.Proofs.Expression.Tree
import BlockCompiler.Proofs.Json.Writing
import Mathlib.Data.Nat.Digits.Defs

/-!
# Whole numbers in expressions

What expressions are worth if whole numbers have no bounds.  An expression of C may hold
variables, so its value depends on theirs; truth is 1 and falsehood 0.  What leaves the
whole numbers, such as a division, has no value here.

The decimal text of a whole number is a numeral or a minus and a numeral.  Read as an
expression in either language it has the value of the number (`Expression.value_render`,
`Python.value?_render`).  Read as a number of the binary64 format it has the sign of the
number, if that is one of 64 bits other than zero (`Numeral.exists_value?_render`).
-/

namespace BlockCompiler

/-- The number of a decimal numeral.  A needless nought in front makes a numeral octal in C and is
an error in Python. -/
def wholeNumber? (ds : List Char) : Option Int :=
  if !ds.isEmpty && ds.all Char.isDigit && (ds.length == 1 || ds.head? != some '0') then
    some (Numeral.digitsValue ds : Int)
  else none

/-- What the operator makes of two numbers, if that is a whole number for any two. -/
def ArithmeticOp.result? : ArithmeticOp → Int → Int → Option Int
  | add, a, b => some (a + b)
  | subtract, a, b => some (a - b)
  | multiply, a, b => some (a * b)
  | divide, _, _ | power, _, _ => none

/-- The comparison holds between two numbers. -/
def ComparisonOp.holds : ComparisonOp → Int → Int → Bool
  | equal, a, b => a == b
  | different, a, b => a != b
  | less, a, b => a < b
  | lessOrEqual, a, b => a ≤ b
  | greater, a, b => b < a
  | greaterOrEqual, a, b => b ≤ a

/-- What the operator makes of two numbers. -/
def BinaryOp.result? : BinaryOp → Int → Int → Option Int
  | arithmetic op, a, b => op.result? a b
  | comparison op, a, b => some (op.holds a b).toInt
  | logic .and, a, b => some (a != 0 && b != 0).toInt
  | logic .or, a, b => some (a != 0 || b != 0).toInt

/-- The value of an expression of C, given those of the variables. -/
def Expression.value (env : List Char → Int) : Expression → Option Int
  | .numeral ds => wholeNumber? ds
  | .name w => some (env w)
  | .call _ _ => none
  | .unary .minus e => (e.value env).map (- ·)
  | .unary .negation e => (e.value env).map fun v => (v == 0).toInt
  | .binary op a b => (a.value env).bind fun v => (b.value env).bind (op.result? v)

namespace Python

/-- The value of an expression of Python that is made of numerals. -/
def Tree.value? : Tree → Option Int
  | .numeral ds => wholeNumber? ds
  | .unary .minus a => a.value?.map (- ·)
  | .arithmetic op a b => a.value?.bind fun v => b.value?.bind (op.result? v)
  | _ => none

/-- The number of values of a range. -/
def rangeLength (start stop step : Int) : Nat :=
  if 0 < step ∧ start < stop then ((stop - start - 1) / step + 1).toNat
  else if step < 0 ∧ stop < start then ((start - stop - 1) / -step + 1).toNat
  else 0

/-- The values of a range: its end is not among them.  A step of nought is an error. -/
def range (start stop step : Int) : Option (List Int) :=
  if step = 0 then none
  else some ((List.range (rangeLength start stop step)).map fun k : Nat => start + k * step)

/-- The values of a call of `range`; it begins with nought and has a step of one unless it says
otherwise. -/
def Tree.range? : Tree → Option (List Int)
  | .call f arguments =>
    if f = "range".toList then
      match arguments with
      | [stop] => stop.value?.bind fun z => range 0 z 1
      | [start, stop] => start.value?.bind fun a => stop.value?.bind fun z => range a z 1
      | [start, stop, step] =>
        start.value?.bind fun a => stop.value?.bind fun z => step.value?.bind (range a z)
      | _ => none
    else none
  | _ => none

end Python

/-! ## Decimal texts -/

/-- A natural number is read back from its digits. -/
theorem Whole.natural?_toDigits (n : Nat) : Whole.natural? (Nat.toDigits 10 n) = some n := by
  have hall : (Nat.toDigits 10 n).all Char.isDigit = true :=
    List.all_eq_true.mpr fun _ => Numeral.isDigit_of_mem
  have hvalue : Numeral.digitsValue (Nat.toDigits 10 n) = n := Nat.ofDigitChars_ten_toDigits
  rw [Whole.natural?, if_pos (by simp [hall]), hvalue]

theorem wholeNumber?_toDigits (n : Nat) : wholeNumber? (Nat.toDigits 10 n) = some (n : Int) := by
  have hne : (Nat.toDigits 10 n).isEmpty = false := by simp
  have hall : (Nat.toDigits 10 n).all Char.isDigit = true :=
    List.all_eq_true.mpr fun _ => Numeral.isDigit_of_mem
  have hhead : ((Nat.toDigits 10 n).length == 1 || (Nat.toDigits 10 n).head? != some '0') =
      true := by
    by_cases hn : n = 0
    · subst hn
      rfl
    · rw [Bool.or_eq_true, bne_iff_ne]
      exact Or.inr (Numeral.head?_toDigits_ne_zero (by omega))
  have hvalue : Numeral.digitsValue (Nat.toDigits 10 n) = n := Nat.ofDigitChars_ten_toDigits
  rw [wholeNumber?, hne, hall, hhead, hvalue]
  rfl

/-- The two forms of a decimal text. -/
theorem toList_render_cases (v : Int) :
    (v < 0 ∧ (Whole.render v).toList = '-' :: Nat.toDigits 10 v.natAbs) ∨
      (0 ≤ v ∧ (Whole.render v).toList = Nat.toDigits 10 v.natAbs) := by
  by_cases hv : v < 0
  · exact Or.inl ⟨hv, by rw [Numeral.toList_render, if_pos hv]; rfl⟩
  · exact Or.inr ⟨by omega, by rw [Numeral.toList_render, if_neg hv]; rfl⟩

theorem toList_render_natCast (n : Nat) : (Whole.render n).toList = Nat.toDigits 10 n := by
  rcases toList_render_cases n with ⟨hn, -⟩ | ⟨-, htext⟩
  · omega
  · rwa [Int.natAbs_natCast] at htext

theorem minus_not_mem_toDigits (n : Nat) : '-' ∉ Nat.toDigits 10 n := by
  intro hminus
  exact absurd (Numeral.isDigit_of_mem hminus) (by decide)

theorem Expression.signed_toDigits (n : Nat) :
    Expression.signed (Nat.toDigits 10 n) = .numeral (Nat.toDigits 10 n) := by
  rw [Expression.signed]
  intro ds hds
  exact minus_not_mem_toDigits n (hds ▸ List.mem_cons_self)

theorem Expression.value_render (v : Int) (env : List Char → Int) :
    (Expression.signed (Whole.render v).toList).value env = some v := by
  rcases toList_render_cases v with ⟨hv, htext⟩ | ⟨hv, htext⟩
  · rw [htext, Expression.signed, value, value, wholeNumber?_toDigits, Option.map_some]
    congr 1
    omega
  · rw [htext, Expression.signed_toDigits, value, wholeNumber?_toDigits]
    congr 1
    omega

theorem Python.value?_render (v : Int) :
    (Tree.ofExpression (.signed (Whole.render v).toList)).value? = some v := by
  rcases toList_render_cases v with ⟨hv, htext⟩ | ⟨hv, htext⟩
  · rw [htext, Expression.signed, Tree.ofExpression, Tree.ofExpression, Tree.value?, Tree.value?,
      wholeNumber?_toDigits, Option.map_some]
    congr 1
    omega
  · rw [htext, Expression.signed_toDigits, Tree.ofExpression, Tree.value?, wholeNumber?_toDigits]
    congr 1
    omega

theorem Whole.render_injective : Function.Injective Whole.render := by
  intro v w h
  have hv := Expression.value_render v fun _ => 0
  rw [h, Expression.value_render] at hv
  exact (Option.some.inj hv).symm

theorem isDecimal_toDigits (n : Nat) : isDecimal (Nat.toDigits 10 n) = true := by
  have hscan := Numeral.scan?_render n
  have hsign : ¬ (n : Int) < 0 := by omega
  rw [toList_render_natCast] at hscan
  rw [isDecimal, hscan]
  simp [Numeral.ofInt, Numeral.isLiteral, hsign]

/-! ## The sign of a number -/

namespace Binary64

theorem roundDiv_pos {num den : Nat} (hden : 0 < den) (h : den ≤ num) : 0 < roundDiv num den := by
  have hquotient : 0 < num / den := Nat.div_pos h hden
  simp only [roundDiv]
  split
  · exact hquotient
  · split
    · omega
    · split <;> omega

theorem mantissaExponent_le (num : Nat) : mantissaExponent num 1 ≤ num.log2 - 52 := by
  have hguess : max ((num.log2 : Int) - Nat.log2 1 - 53) leastExponent ≤ num.log2 - 53 := by
    have hlog : Nat.log2 1 = 0 := by decide
    rw [hlog, leastExponent]
    omega
  simp only [mantissaExponent]
  split <;> omega

/-- A number other than zero keeps a mantissa other than zero. -/
theorem exists_ofRatio? (negative : Bool) {num : Nat} (hne : num ≠ 0) (hlog : num.log2 < 64) :
    ∃ x, ofRatio? negative num 1 = some x ∧ x.negative = negative ∧ x.mantissa ≠ 0 := by
  have hexponent := mantissaExponent_le num
  have hmantissa : 0 < roundDiv (descale 2 num 1 (mantissaExponent num 1)).1
      (descale 2 num 1 (mantissaExponent num 1)).2 := by
    rw [descale]
    split
    · have hpow : Nat.pow 2 (mantissaExponent num 1).toNat ≤ num :=
        Nat.le_trans (Nat.pow_le_pow_right (by decide) (by omega)) (Nat.log2_self_le hne)
      refine roundDiv_pos ?_ ?_
      · exact Nat.mul_pos Nat.one_pos (Nat.pow_pos (by decide))
      · rwa [Nat.one_mul]
    · exact roundDiv_pos Nat.one_pos (Nat.mul_pos (by omega) (Nat.pow_pos (by decide)))
  have hbound : mantissaBound / 2 ≠ 0 := by decide
  simp only [ofRatio?, if_neg hne]
  -- Rounding up to the bound moves the exponent on by one, which still is in range.
  by_cases hfull : roundDiv (descale 2 num 1 (mantissaExponent num 1)).1
      (descale 2 num 1 (mantissaExponent num 1)).2 = mantissaBound
  · have hsmall : ¬ greatestExponent < mantissaExponent num 1 + 1 := by
      rw [greatestExponent]
      omega
    simp only [if_pos hfull, if_neg hsmall]
    exact ⟨_, rfl, rfl, by rwa [hfull]⟩
  · have hsmall : ¬ greatestExponent < mantissaExponent num 1 := by
      rw [greatestExponent]
      omega
    simp only [if_neg hfull, if_neg hsmall]
    exact ⟨_, rfl, rfl, Nat.ne_of_gt hmantissa⟩

end Binary64

theorem Whole.natAbs_le_of_inSignedRange {v : Int} (h : Whole.inSignedRange v = true) :
    v.natAbs ≤ 9223372036854775808 := by
  have hleast : Int64.minValue.toInt = -9223372036854775808 := by decide
  have hgreatest : Int64.maxValue.toInt = 9223372036854775807 := by decide
  rw [Whole.inSignedRange, hleast, hgreatest, Bool.and_eq_true, decide_eq_true_iff,
    decide_eq_true_iff] at h
  omega

/-- The decimal text of a number of 64 bits that is not zero has a value with the sign of the
number. -/
theorem Numeral.exists_value?_render {v : Int} (hne : v ≠ 0)
    (hrange : Whole.inSignedRange v = true) :
    ∃ x, Numeral.value? (Whole.render v).toList = some x ∧ x.isNegative = decide (v < 0) := by
  have hle := Whole.natAbs_le_of_inSignedRange hrange
  have hne' : v.natAbs ≠ 0 := by omega
  have hlog : v.natAbs.log2 < 64 := (Nat.log2_lt hne').mpr (by omega)
  have hdigits : Binary64.digitCount v.natAbs ≤ 20 :=
    Nat.toDigits_length 10 _ 20 (by decide) (by omega)
  obtain ⟨x, hx, hnegative, hmantissa⟩ := Binary64.exists_ofRatio? (decide (v < 0)) hne' hlog
  refine ⟨x, ?_, ?_⟩
  · have hliteral : (Numeral.ofInt v).isLiteral = true := by
      simp [Numeral.ofInt, Numeral.isLiteral]
    have hlarge : ¬ (400 : Int) < Binary64.digitCount v.natAbs + 0 := by omega
    have hsmall : ¬ (Binary64.digitCount v.natAbs + 0 : Int) < -400 := by omega
    have hscale : Binary64.descale 10 v.natAbs 1 (-0) = (v.natAbs, 1) := by
      simp [Binary64.descale]
    rw [Numeral.value?, Numeral.scan?_render]
    simp only [hliteral, if_true, Numeral.toDecimal_ofInt, Binary64.ofDecimal?, if_neg hne',
      if_neg hlarge, if_neg hsmall, hscale]
    exact hx
  · rw [Binary64.isNegative, hnegative, bne_iff_ne.mpr hmantissa, Bool.and_true]

end BlockCompiler
