import BlockCompiler.Proofs.Expression.Literal
import BlockCompiler.Proofs.Generation.Lockstep
import BlockCompiler.Proofs.Generation.Nesting

/-!
# Generators in lockstep

Given replies whose texts come from one template, with literals in its open places, every
generator comes to such code again (`Generator.inStep_script`).  Each is looked at once,
for a whole family of replies.

Only the counting loop looks into the code of a value: its step and its bounds may be
numbers.  A text with a quote in it is none, so such a test goes the same way for all
members of a family (`literalValue?_const_or_none`, `woven_movedBound`).
-/

namespace BlockCompiler

open Text Script

/-! ## Literals as pieces -/

namespace Literal

variable (t : Target)

/-- A literal stands between quotes, and line feeds in it are escaped. -/
theorem sealed_literal (s : String) :
    Sealed t.quoteMark (Blocks.literal t.quoteMark s).toList :=
  ⟨⟨_, toList_literal _ _⟩, not_mem_literal t s⟩

theorem isBlank_quoteMark : isBlank t.quoteMark = false := by
  cases t <;> rfl

/-- A quote is no character of a number. -/
theorem isFieldChar_quoteMark : Nesting.isFieldChar t.quoteMark = false := by
  cases t <;> rfl

/-- A literal has the carriage returns of its text. -/
theorem count_literal (s : String) :
    (Blocks.literal t.quoteMark s).toList.count '\r' = s.toList.count '\r' := by
  have hchar : ∀ c, (Blocks.literalChar t.quoteMark c).count '\r' = [c].count '\r' := by
    intro c
    by_cases hc : c = '\r'
    · subst hc
      cases t <;> decide
    rcases literalChar_cases t c with ⟨d, hd, hescape, -⟩ | ⟨hd, -⟩
    · have hne : d ≠ '\r' := by
        rintro rfl
        cases t <;> cases hescape
      simp [hd, hc, hne]
    · rw [hd]
  have hbody : ∀ cs : List Char,
      (cs.flatMap (Blocks.literalChar t.quoteMark)).count '\r' = cs.count '\r' := by
    intro cs
    induction cs with
    | nil => rfl
    | cons c rest ih =>
      rw [List.flatMap_cons, List.count_append, hchar, ih, ← List.count_append,
        List.singleton_append]
  have hmark : t.quoteMark ≠ '\r' := ne_of_isBlank_eq_false (isBlank_quoteMark t) rfl
  simp [toList_literal, hbody, hmark]

end Literal

/-! ## Numbers in woven texts -/

/-- Trimming keeps what is not blank. -/
theorem Text.mem_trim {s : String} {c : Char} (h : c ∈ s.toList) (hc : isBlank c = false) :
    c ∈ (trim s).toList := by
  have hdrop : ∀ cs : List Char, c ∈ cs → c ∈ cs.dropWhile isBlank := by
    intro cs hmem
    rw [← List.takeWhile_append_dropWhile (p := isBlank) (l := cs), List.mem_append] at hmem
    refine hmem.resolve_left fun htake => ?_
    have hblank := List.mem_takeWhile_imp htake
    rw [hc] at hblank
    cases hblank
  rw [toList_trim, dropEndWhile, List.mem_reverse]
  exact hdrop _ (List.mem_reverse.mpr (hdrop _ h))

namespace Blocks

variable {code : String} {c : Char}

/-- A text with a character that is in no number is not one. -/
theorem literalValue?_eq_none (h : c ∈ code.toList) (hblank : isBlank c = false)
    (hc : Nesting.isFieldChar c = false) : literalValue? code = none := by
  have hmem := mem_trim h hblank
  rw [literalValue?, Numeral.value?]
  cases hscan : Numeral.scan? (trim code).toList with
  | none => rfl
  | some m =>
    have hall := List.all_eq_true.mp (Nesting.all_isFieldChar_of_scan? hscan) c hmem
    rw [hc] at hall
    cases hall

/-- A text with a character of no number in it is no number. -/
theorem signed?_eq_none (h : c ∈ code.toList) (hblank : isBlank c = false)
    (hc : Nesting.isFieldChar c = false) : Whole.signed? (trim code).toList = none := by
  have hmem := mem_trim h hblank
  obtain ⟨sg, hsg, hcs, -⟩ := Numeral.splitSign_parts (trim code).toList
  have hsigns : ∀ sg ∈ [[], ['+'], ['-']], sg.all Nesting.isFieldChar = true := by decide
  have hdigits : c ∈ (Numeral.splitSign (trim code).toList).2 := by
    rw [hcs] at hmem
    refine (List.mem_append.mp hmem).resolve_left fun hsign => ?_
    have hall := List.all_eq_true.mp (hsigns sg hsg) c hsign
    rw [hc] at hall
    cases hall
  have hnatural : Whole.natural? (Numeral.splitSign (trim code).toList).2 = none := by
    refine if_neg fun hall => ?_
    have hdigit := List.all_eq_true.mp (Bool.and_eq_true_iff.mp hall).2 c hdigits
    rw [Nesting.isFieldChar, Char.isAlphanum, hdigit, Bool.or_true] at hc
    cases hc
  simp only [Whole.signed?, hnatural]
  rfl

/-- A bound that is no number is moved by a sum. -/
theorem movedBound_of_none {bound : String} (h : Whole.signed? (trim bound).toList = none)
    (up : Bool) : movedBound bound up = bound ++ if up then " + 1" else " - 1" := by
  unfold movedBound
  extract_lets delta
  have hfilter : ((Whole.signed? (trim bound).toList).map (· + delta)).filter Whole.inSignedRange =
      none := by
    rw [h, Option.map_none, Option.filter_none]
  rw [hfilter]

end Blocks

section Numbers

variable {ι : Type} {pieces : ι → List Char} {t : Target}
variable (hpieces : ∀ x, Sealed t.quoteMark (pieces x))

include hpieces

/-- A woven text is the same for all members, or has a quote in it for each. -/
theorem Text.Woven.const_or_quote {f : ι → String} (h : Woven pieces f) :
    (∃ s, ∀ x, f x = s) ∨ ∀ x, t.quoteMark ∈ (f x).toList := by
  obtain ⟨T, hT⟩ := h
  by_cases hopen : none ∈ T
  · right
    intro x
    obtain ⟨body, hbody⟩ := (hpieces x).shape
    rw [hT, Template.fill, List.mem_flatMap]
    exact ⟨none, hopen, by simp [hbody]⟩
  · left
    obtain ⟨cs, rfl⟩ : ∃ cs : List Char, T = cs.map some := by
      clear hT
      induction T with
      | nil => exact ⟨[], rfl⟩
      | cons place rest ih =>
        obtain ⟨cs, rfl⟩ := ih fun hmem => hopen (List.mem_cons_of_mem _ hmem)
        cases place with
        | none => exact absurd List.mem_cons_self hopen
        | some c => exact ⟨c :: cs, rfl⟩
    refine ⟨String.ofList cs, fun x => String.toList_inj.mp ?_⟩
    rw [hT, Template.fill_map_some, String.toList_ofList]

/-- A bound is counted on for all members of a family or for none. -/
theorem woven_movedBound {bound : ι → String} (h : Woven pieces bound) (up : Bool) :
    Woven pieces fun x => Blocks.movedBound (bound x) up := by
  rcases h.const_or_quote hpieces with ⟨s, hs⟩ | hquote
  · simp only [hs]
    exact woven_const _
  · have hnone : ∀ x, Whole.signed? (trim (bound x)).toList = none := fun x =>
      Blocks.signed?_eq_none (hquote x) (Literal.isBlank_quoteMark t)
        (Literal.isFieldChar_quoteMark t)
    simp only [Blocks.movedBound_of_none (hnone _)]
    exact h.append (woven_const _)

/-- A woven step is the same for all members, or a number for none of them. -/
theorem literalValue?_const_or_none {step : ι → String} (h : Woven pieces step) :
    (∃ s, ∀ x, step x = s) ∨ ∀ x, Blocks.literalValue? (step x) = none ∧ step x ≠ "1" := by
  refine (h.const_or_quote hpieces).imp_right fun hquote x => ⟨?_, ?_⟩
  · exact Blocks.literalValue?_eq_none (hquote x) (Literal.isBlank_quoteMark t)
      (Literal.isFieldChar_quoteMark t)
  · intro heq
    have hmem := hquote x
    rw [heq] at hmem
    have hnot : t.quoteMark ∉ "1".toList := by cases t <;> decide
    exact hnot hmem

/-- So the form of the header depends on the template only. -/
theorem woven_countingHeader (var : String) {last step : ι → String} (hlast : Woven pieces last)
    (hstep : Woven pieces step) :
    Woven pieces (fun x => (Blocks.countingHeader var (last x) (step x)).1) ∧
      Woven pieces fun x => (Blocks.countingHeader var (last x) (step x)).2 := by
  rcases literalValue?_const_or_none hpieces hstep with ⟨s, hs⟩ | hnone
  · simp only [hs, Blocks.countingHeader]
    cases Blocks.literalValue? s with
    | none =>
      refine ⟨Woven.append ?_ hlast, woven_const _⟩
      exact ((hlast.between (s ++ " >= 0 ? " ++ var ++ " <= ") " : ").append
        (woven_const var)).append (woven_const " >= ")
    | some value =>
      cases hsign : value.isNegative with
      | true =>
        simp only [hsign, if_true]
        exact ⟨(woven_const (var ++ " >= ")).append hlast, woven_const _⟩
      | false =>
        simp only [hsign, Bool.false_eq_true, if_false]
        exact ⟨(woven_const (var ++ " <= ")).append hlast, woven_const _⟩
  · simp only [Blocks.countingHeader, (hnone _).1]
    refine ⟨?_, (woven_const (var ++ " += ")).append hstep⟩
    have htest := (hstep.append (woven_const " >= 0 ? ")).append (woven_const var)
    have hup := (htest.append (woven_const " <= ")).append hlast
    have hdown := ((hup.append (woven_const " : ")).append (woven_const var)).append
      (woven_const " >= ")
    exact hdown.append hlast

/-- The same holds of the range. -/
theorem woven_countingRange {start last step : ι → String} (hstart : Woven pieces start)
    (hlast : Woven pieces last) (hstep : Woven pieces step) :
    Woven pieces fun x => Blocks.countingRange (start x) (last x) (step x) := by
  have hopen : Woven pieces fun x => "range(" ++ start x ++ ", " := hstart.between "range(" ", "
  have hmoved := fun up => hopen.append (woven_movedBound hpieces hlast up)
  rcases literalValue?_const_or_none hpieces hstep with ⟨s, hs⟩ | hnone
  · simp only [hs, Blocks.countingRange]
    split
    · exact (hmoved true).append (woven_const ")")
    · cases Blocks.literalValue? s with
      | some value =>
        exact (((hmoved _).append (woven_const ", ")).append (woven_const s)).append
          (woven_const ")")
      | none =>
        have hboth := ((((hmoved true).append (woven_const " if ")).append (woven_const s)).append
          (woven_const " > 0 else ")).append (woven_movedBound hpieces hlast false)
        exact ((hboth.append (woven_const ", ")).append (woven_const s)).append (woven_const ")")
  · simp only [Blocks.countingRange, (hnone _).1, (hnone _).2, if_false]
    have hboth := ((((hmoved true).append (woven_const " if ")).append hstep).append
      (woven_const " > 0 else ")).append (woven_movedBound hpieces hlast false)
    exact ((hboth.append (woven_const ", ")).append hstep).append (woven_const ")")

end Numbers

/-! ## Expressions -/

section Generators

variable {ι : Type} {pieces : ι → List Char} {t : Target}
variable (hpieces : ∀ x, Sealed t.quoteMark (pieces x)) {j : Job} {n : Node}

namespace Blocks

include hpieces

/-- Operands are woven, and the sign between them is part of the template. -/
theorem inStep_binary (sign : String) (order : Order) (fallback : String) :
    InStep (Code.Woven pieces) (Code.Woven pieces) fun _ => binary j n sign order fallback := by
  refine (j.inStep_valueCode hpieces n "A" order fallback).bind fun a ha => ?_
  refine (j.inStep_valueCode hpieces n "B" order fallback).bind fun b hb => .pure ?_
  have hfront := ((ha.append (woven_const " ")).append (woven_const sign)).append (woven_const " ")
  exact .expression order (hfront.append hb)

/-- The operator decides how it is written, not the operands. -/
theorem inStep_applyArithmetic (op : ArithmeticOp) :
    InStep (Code.Woven pieces) (Code.Woven pieces) fun _ => applyArithmetic t j n op := by
  have hbinary : ∀ t', InStep (Code.Woven pieces) (Code.Woven pieces) fun _ =>
      binary j n op.sign (Target.order t' op.binding) "0" :=
    fun t' => inStep_binary hpieces op.sign _ "0"
  cases t with
  | microPython => exact hbinary .microPython
  | arduino =>
    cases op with
    | power =>
      refine (j.inStep_valueCode hpieces n "A" Order.loosest "0").bind fun a ha => ?_
      refine (j.inStep_valueCode hpieces n "B" Order.loosest "0").bind fun b hb => .pure ?_
      exact .expression _ (((ha.between "pow(" ", ").append hb).append (woven_const ")"))
    | add | subtract | multiply | divide => exact hbinary .arduino

theorem inStep_arithmetic :
    InStep (Code.Woven pieces) (Code.Woven pieces) fun _ => arithmetic t j n := by
  simp only [arithmetic]
  cases ArithmeticOp.ofField? (n.fieldOr "OP" "ADD") with
  | some op => exact inStep_applyArithmetic hpieces op
  | none => exact (InStep.notice _).bind fun _ _ => inStep_applyArithmetic hpieces .add

theorem inStep_negation :
    InStep (Code.Woven pieces) (Code.Woven pieces) fun _ => negation t j n := by
  refine (j.inStep_valueCode hpieces n "BOOL" _ _).bind fun operand hoperand => .pure ?_
  exact .expression _ ((woven_const _).append hoperand)

/-- The arguments of a call are woven into one template, one after the other. -/
theorem inStep_call : InStep (Code.Woven pieces) (Woven pieces) fun _ => call t j n := by
  refine (InStep.mapM fun i _ => j.inStep_valueCode hpieces n _ _ _).bind fun args hargs => .pure ?_
  exact (WovenList.intercalate hargs ", ").between (nameField n "NAME" "do_something" ++ "(") ")"

/-! ## Statements of one line -/

/-- Only the value may differ from member to member; the name is part of the template. -/
theorem inStep_assignment :
    InStep (Code.Woven pieces) (Code.Woven pieces) fun _ => assignment t j n := by
  have hvalue : InStep (Code.Woven pieces) (Code.Woven pieces) fun _ : ι => (do
      let value ← j.valueCode n "VALUE" (t.order .assignment) "0"
      return .statement (j.line (nameField n "VAR" "item" ++ " = " ++ value)) : Script Code) := by
    refine (j.inStep_valueCode hpieces n "VALUE" _ "0").bind fun value hvalue => .pure ?_
    exact .statement (j.woven_line ((woven_const _).append hvalue))
  cases t <;> exact (InStep.declare _ _).bind fun _ _ => hvalue

theorem inStep_digitalWrite :
    InStep (Code.Woven pieces) (Code.Woven pieces) fun _ => digitalWrite t j n := by
  cases t with
  | arduino =>
    refine .plain (fun _ h => by cases h) fun _ => ?_
    refine (j.inStep_valueCode hpieces n "STATE" Order.loosest "LOW").bind fun state hstate => ?_
    exact .pure (.statement (j.woven_line (hstate.between _ ")")))
  | microPython =>
    refine (InStep.declare _ _).bind fun _ _ => (InStep.declare _ _).bind fun _ _ => ?_
    refine (j.inStep_valueCode hpieces n "STATE" Order.loosest "0").bind fun state hstate => ?_
    exact .pure (.statement (j.woven_line (hstate.between _ ")")))

theorem inStep_analogWrite :
    InStep (Code.Woven pieces) (Code.Woven pieces) fun _ => analogWrite t j n := by
  cases t with
  | arduino =>
    refine .plain (fun _ h => by cases h) fun _ => ?_
    refine (j.inStep_valueCode hpieces n "NUM" Order.loosest "0").bind fun value hvalue => ?_
    exact .pure (.statement (j.woven_line (hvalue.between _ ")")))
  | microPython =>
    refine (InStep.declare _ _).bind fun _ _ => (InStep.declare _ _).bind fun _ _ => ?_
    refine (InStep.declare _ _).bind fun _ _ => ?_
    refine (j.inStep_valueCode hpieces n "NUM" Order.loosest "0").bind fun value hvalue => ?_
    exact .pure (.statement (j.woven_line (hvalue.between _ ")")))

theorem inStep_delay :
    InStep (Code.Woven pieces) (Code.Woven pieces) fun _ => delay t j n := by
  have htime := j.inStep_valueCode hpieces n "DELAY_TIME" Order.loosest "1000"
  cases t with
  | arduino =>
    exact htime.bind fun time htime => .pure (.statement (j.woven_line (htime.between "delay(" ")")))
  | microPython =>
    exact (InStep.declare _ _).bind fun _ _ => htime.bind fun time htime =>
      .pure (.statement (j.woven_line (htime.between "time.sleep_ms(" ")")))

theorem inStep_serialPrint :
    InStep (Code.Woven pieces) (Code.Woven pieces) fun _ => serialPrint t j n := by
  cases t with
  | arduino =>
    refine (j.inStep_valueCode hpieces n "CONTENT" Order.loosest _).bind fun content hcontent => ?_
    exact .pure (.statement (j.woven_line (hcontent.between _ ")")))
  | microPython =>
    refine (j.inStep_valueCode hpieces n "CONTENT" Order.loosest _).bind fun content hcontent => ?_
    exact .pure (.statement (j.woven_line ((hcontent.between "print(" _).append (woven_const ")"))))

theorem inStep_servoWrite :
    InStep (Code.Woven pieces) (Code.Woven pieces) fun _ => servoWrite t j n := by
  have hdegrees := j.inStep_valueCode hpieces n "DEGREE" Order.loosest "90"
  cases t with
  | arduino =>
    exact hdegrees.bind fun degrees hdegrees =>
      .pure (.statement (j.woven_line (hdegrees.between _ ")")))
  | microPython =>
    exact (InStep.declare _ _).bind fun _ _ => hdegrees.bind fun degrees hdegrees =>
      .pure (.statement (j.woven_line (hdegrees.between _ ")")))

theorem inStep_returnStatement :
    InStep (Code.Woven pieces) (Code.Woven pieces) fun _ => returnStatement j n := by
  refine (j.inStep_valueCode? hpieces n "VALUE" Order.loosest).bind fun values hvalues => ?_
  rcases hvalues with hnone | ⟨texts, htexts, hsome⟩
  · simp only [hnone]
    exact .pure (Code.woven_const _)
  · simp only [hsome]
    exact .pure (.statement (j.woven_line ((woven_const _).append htexts)))

omit hpieces in
/-- Whether a block stands in a loop is a matter of the graph, which is one for all members. -/
theorem inStep_loopExit (i : NodeId) :
    InStep (Code.Woven pieces) (Code.Woven pieces) fun _ => loopExit j i n := by
  simp only [loopExit]
  cases j.standsInLoop i with
  | true => exact .pure (Code.woven_const _)
  | false => exact (InStep.notice _).bind fun _ _ => .pure (Code.woven_const _)

/-! ## Statements with a body -/

/-- There are as many branches for each member. -/
theorem inStep_conditional :
    InStep (Code.Woven pieces) (Code.Woven pieces) fun _ => conditional t j n := by
  have hmark := Literal.isBlank_quoteMark t
  cases t with
  | arduino =>
    have hbranch : ∀ i, InStep (Code.Woven pieces) (Woven pieces) fun _ => braceBranch j n i := by
      intro i
      refine (j.inStep_valueCode hpieces n _ _ _).bind fun condition hcondition => ?_
      refine (j.inStep_slotCode hpieces hmark n _).bind fun body hbody => .pure ?_
      exact ((hcondition.between _ ") \x7b\n").append hbody).append (woven_const "\x7d")
    have hotherwise : InStep (Code.Woven pieces) (Woven pieces) fun _ => braceOtherwise j n := by
      unfold braceOtherwise
      cases n.statements.contains "ELSE" with
      | false => exact .pure (woven_const "")
      | true =>
        refine (j.inStep_slotCode hpieces hmark n "ELSE").bind fun body hbody => .pure ?_
        exact hbody.between " else \x7b\n" "\x7d"
    refine (InStep.mapM fun i _ => hbranch i).bind fun branches hbranches => ?_
    refine hotherwise.bind fun otherwise hotherwise => .pure ?_
    exact .statement (((WovenList.join hbranches).append hotherwise).append (woven_const "\n"))
  | microPython =>
    have hbranch : ∀ i, InStep (Code.Woven pieces) (Woven pieces) fun _ => colonBranch j n i := by
      intro i
      refine (j.inStep_valueCode hpieces n _ _ _).bind fun condition hcondition => ?_
      refine (j.inStep_bodyCode hpieces hmark n _).bind fun body hbody => .pure ?_
      exact (hcondition.between _ ":\n").append hbody
    have hotherwise : InStep (Code.Woven pieces) (Woven pieces) fun _ => colonOtherwise j n := by
      unfold colonOtherwise
      cases n.statements.contains "ELSE" with
      | false => exact .pure (woven_const "")
      | true =>
        refine (j.inStep_bodyCode hpieces hmark n "ELSE").bind fun body hbody => .pure ?_
        exact (woven_const "else:\n").append hbody
    refine (InStep.mapM fun i _ => hbranch i).bind fun branches hbranches => ?_
    refine hotherwise.bind fun otherwise hotherwise => .pure ?_
    exact .statement ((WovenList.join hbranches).append hotherwise)

theorem inStep_repeatLoop :
    InStep (Code.Woven pieces) (Code.Woven pieces) fun _ => repeatLoop t j n := by
  have hmark := Literal.isBlank_quoteMark t
  cases t with
  | arduino =>
    refine (j.inStep_valueCode hpieces n "TIMES" _ "0").bind fun times htimes => ?_
    refine (j.inStep_slotCode hpieces hmark n "DO").bind fun body hbody => .pure ?_
    exact .statement (((((htimes.between _ "; ").append (woven_const _)).append
      (woven_const "++) \x7b\n")).append hbody).append (woven_const "\x7d\n"))
  | microPython =>
    refine (j.inStep_valueCode hpieces n "TIMES" _ "0").bind fun times htimes => ?_
    refine (j.inStep_bodyCode hpieces hmark n "DO").bind fun body hbody => .pure ?_
    exact .statement ((htimes.between _ "):\n").append hbody)

theorem inStep_conditionLoop :
    InStep (Code.Woven pieces) (Code.Woven pieces) fun _ => conditionLoop t j n := by
  have hmark := Literal.isBlank_quoteMark t
  have hscript : InStep (Code.Woven pieces) (Woven pieces) fun _ => loopCondition t j n := by
    unfold loopCondition
    split
    · refine (j.inStep_valueCode hpieces n "BOOL" _ _).bind fun operand hoperand => .pure ?_
      exact (woven_const _).append hoperand
    · exact j.inStep_valueCode hpieces n "BOOL" _ _
  refine hscript.bind fun condition hcondition => ?_
  cases t with
  | arduino =>
    refine (j.inStep_slotCode hpieces hmark n "DO").bind fun body hbody => .pure ?_
    exact .statement (((hcondition.between "while (" ") \x7b\n").append hbody).append
      (woven_const "\x7d\n"))
  | microPython =>
    refine (j.inStep_bodyCode hpieces hmark n "DO").bind fun body hbody => .pure ?_
    exact .statement ((hcondition.between "while " ":\n").append hbody)

/-- The one loop whose form depends on the code of its values. -/
theorem inStep_countingLoop :
    InStep (Code.Woven pieces) (Code.Woven pieces) fun _ => countingLoop t j n := by
  have hmark := Literal.isBlank_quoteMark t
  cases t with
  | arduino =>
    refine (InStep.declare _ _).bind fun _ _ => ?_
    refine (j.inStep_valueCode hpieces n "FROM" _ "0").bind fun start hstart => ?_
    refine (j.inStep_valueCode hpieces n "TO" _ "0").bind fun last hlast => ?_
    refine (j.inStep_valueCode hpieces n "BY" _ "1").bind fun step hstep => ?_
    refine (j.inStep_slotCode hpieces hmark n "DO").bind fun body hbody => .pure ?_
    obtain ⟨htest, hmove⟩ := woven_countingHeader hpieces (nameField n "VAR" "i") hlast hstep
    have hparts := (((hstart.between ("for (" ++ nameField n "VAR" "i" ++ " = ") "; ").append
      htest).append (woven_const "; ")).append hmove
    exact .statement (((hparts.append (woven_const ") \x7b\n")).append hbody).append
      (woven_const "\x7d\n"))
  | microPython =>
    refine (InStep.declare _ _).bind fun _ _ => ?_
    refine (j.inStep_valueCode hpieces n "FROM" _ "0").bind fun start hstart => ?_
    refine (j.inStep_valueCode hpieces n "TO" _ "0").bind fun last hlast => ?_
    refine (j.inStep_valueCode hpieces n "BY" _ "1").bind fun step hstep => ?_
    refine (j.inStep_bodyCode hpieces hmark n "DO").bind fun body hbody => .pure ?_
    have hrange := woven_countingRange hpieces hstart hlast hstep
    exact .statement ((hrange.between _ ":\n").append hbody)

theorem inStep_timedRepeat :
    InStep (Code.Woven pieces) (Code.Woven pieces) fun _ => timedRepeat t j n := by
  have hmark := Literal.isBlank_quoteMark t
  cases t with
  | arduino =>
    refine (InStep.declare _ _).bind fun _ _ => ?_
    refine (j.inStep_valueCode hpieces n "INTERVAL" _ "1000").bind fun interval hinterval => ?_
    refine (j.inStep_slotCode hpieces hmark n "DO").bind fun body hbody => .pure ?_
    exact .statement ((((hinterval.between _ ") \x7b\n").append (woven_const _)).append hbody).append
      (woven_const "\x7d\n"))
  | microPython =>
    refine (InStep.declare _ _).bind fun _ _ => (InStep.declare _ _).bind fun _ _ => ?_
    refine (j.inStep_valueCode hpieces n "INTERVAL" _ "1000").bind fun interval hinterval => ?_
    refine (j.inStep_slotCode hpieces hmark n "DO").bind fun body hbody => .pure ?_
    exact .statement (((hinterval.between _ ":\n").append (woven_const _)).append hbody)

/-! ## Routines -/

/-- The lines of the setup are the same for all members. -/
theorem inStep_entry : InStep (Code.Woven pieces) (Code.Woven pieces) fun _ => entry t j n := by
  have hmark := Literal.isBlank_quoteMark t
  refine .plain (fun _ h => by cases h) fun _ => ?_
  refine (j.inStep_alwaysEmittedPass hpieces).bind fun _ _ => ?_
  cases t with
  | arduino =>
    refine (j.inStep_slotCode hpieces hmark n "SETUP").bind fun setupBody hsetup => ?_
    refine (j.inStep_slotCode hpieces hmark n "LOOP").bind fun loopBody hloop => ?_
    refine .plain (fun _ h => by cases h) fun lines => .pure ?_
    exact .statement (((hsetup.between _ "\x7d\n\nvoid loop() \x7b\n").append hloop).append
      (woven_const "\x7d\n"))
  | microPython =>
    have hrest : ∀ setupBody, Woven pieces setupBody →
        InStep (Code.Woven pieces) (Code.Woven pieces) fun x => (do
          let loopBody ← j.bodyCode n "LOOP"
          let lines ← Script.setupLines
          let opening := lines ++ setupBody x
          return .statement (opening ++ (if opening.isEmpty then "" else "\n") ++ "while True:\n" ++
            loopBody) : Script Code) := by
      intro setupBody hsetup
      refine (j.inStep_bodyCode hpieces hmark n "LOOP").bind fun loopBody hloop => ?_
      refine .plain (fun _ h => by cases h) fun (lines : String) => .pure ?_
      have hopening : Woven pieces fun x => lines ++ setupBody x :=
        (woven_const lines).append hsetup
      obtain ⟨b, hb⟩ := hopening.isEmpty hpieces
      simp only [hb]
      exact .statement (((hopening.append (woven_const _)).append
        (woven_const "while True:\n")).append hloop)
    dsimp only
    cases n.statements.get? "SETUP" with
    | none => exact hrest (fun _ => "") (woven_const "")
    | some head => exact (j.inStep_chainCode hpieces head).bind hrest

/-- Globals are read off the graph, so they are the same for all members. -/
theorem inStep_procedure (i : NodeId) :
    InStep (Code.Woven pieces) (Code.Woven pieces) fun _ => procedure t j i n := by
  have hmark := Literal.isBlank_quoteMark t
  have hstack := j.inStep_slotCode hpieces hmark n "STACK"
  have hreturn : InStep (Code.Woven pieces) (Woven pieces) fun _ => returnLine j n := by
    unfold returnLine
    split
    · refine (j.inStep_valueCode? hpieces n "RETURN" Order.loosest).bind fun values hvalues => ?_
      rcases hvalues with hnone | ⟨texts, htexts, hsome⟩
      · simp only [hnone]
        exact .pure (woven_const "")
      · simp only [hsome]
        have hline := j.woven_line ((woven_const "return ").append htexts)
        exact .pure (j.woven_indent hpieces hmark hline)
    · exact .pure (woven_const "")
  cases t with
  | arduino =>
    refine (InStep.declare _ _).bind fun _ _ => hstack.bind fun stack hstack => ?_
    refine hreturn.bind fun returned hreturned => .pure ?_
    exact .statement ((((woven_const _).append hstack).append hreturned).append
      (woven_const "\x7d\n"))
  | microPython =>
    refine hstack.bind fun stack hstack => hreturn.bind fun returned hreturned => .pure ?_
    obtain ⟨b, hb⟩ := hstack.blank hpieces hmark
    obtain ⟨b', hb'⟩ := hreturned.isEmpty hpieces
    simp only [hb, hb']
    refine .statement ((woven_const _).append ?_)
    split
    · exact woven_const _
    · exact hstack.append hreturned

end Blocks

/-- A block that asks for no other is in step with itself. -/
theorem Generator.inStep_of_isLeaf {gen : Generator} (hleaf : gen.kind.isLeaf = true) (i : NodeId) :
    InStep (Code.Woven pieces) (Code.Woven pieces) fun _ : ι => gen.script j i := by
  have hplain : ∀ r, gen.Permits j i r → (∀ c, r ≠ .generate c) ∧ r ≠ .beginPass := by
    intro r hr
    constructor
    · rintro c rfl
      have hnot : gen.kind.isLeaf = false := hr.1
      rw [hleaf] at hnot
      cases hnot
    · rintro rfl
      have hkind : gen.kind = .entry := hr
      rw [hkind] at hleaf
      cases hleaf
  have hscript := (InStep.of_asks (C := Code.Woven pieces) (gen.asks_script j i) hplain).bind
    (q := Code.Woven pieces) (f := fun _ => Pure.pure) fun c hc => by
      obtain ⟨code, rfl⟩ := hc
      exact .pure (Code.woven_const code)
  simpa only [bind_pure] using hscript

include hpieces

/-- **Every kind of block goes in lockstep with itself** on woven replies. -/
theorem Generator.inStep_script (kind : BlockKind) (i : NodeId) :
    InStep (Code.Woven pieces) (Code.Woven pieces) fun _ => Generator.script ⟨t, kind⟩ j i := by
  cases kind with
  | entry => exact Blocks.inStep_entry hpieces
  | procedure => exact Blocks.inStep_procedure hpieces i
  | conditional => exact j.inStep_guarded (Blocks.inStep_conditional hpieces)
  | repeatLoop => exact j.inStep_guarded (Blocks.inStep_repeatLoop hpieces)
  | conditionLoop => exact j.inStep_guarded (Blocks.inStep_conditionLoop hpieces)
  | countingLoop => exact j.inStep_guarded (Blocks.inStep_countingLoop hpieces)
  | loopExit => exact j.inStep_guarded (Blocks.inStep_loopExit i)
  | returnStatement => exact j.inStep_guarded (Blocks.inStep_returnStatement hpieces)
  | timedRepeat => exact j.inStep_guarded (Blocks.inStep_timedRepeat hpieces)
  | assignment => exact Blocks.inStep_assignment hpieces
  | digitalWrite => exact Blocks.inStep_digitalWrite hpieces
  | analogWrite => exact Blocks.inStep_analogWrite hpieces
  | serialPrint => exact Blocks.inStep_serialPrint hpieces
  | delay => exact Blocks.inStep_delay hpieces
  | servoWrite => exact Blocks.inStep_servoWrite hpieces
  | callStatement =>
    exact (Blocks.inStep_call hpieces).bind fun _ htexts => .pure (.statement (j.woven_line htexts))
  | arithmetic => exact Blocks.inStep_arithmetic hpieces
  | comparison => exact Blocks.inStep_binary hpieces _ _ _
  | logic => exact Blocks.inStep_binary hpieces _ _ _
  | negation => exact Blocks.inStep_negation hpieces
  | callExpression =>
    exact (Blocks.inStep_call hpieces).bind fun _ htexts => .pure (.expression _ htexts)
  | serialSetup | servoAttach | interruptAttach | number | boolean | text | variableValue
  | digitalRead | analogRead | milliseconds => exact Generator.inStep_of_isLeaf rfl i

/-- One block of one graph, for a family of replies. -/
theorem Job.inStep_blockScript {g : Graph} (i : NodeId) :
    InStep (Code.Woven pieces) (Code.Woven pieces) fun _ => Job.blockScript ⟨g, t.backend⟩ i := by
  unfold Job.blockScript
  cases hget : t.backend.generators.get? (g.node i).type with
  | none =>
    simp only [Job.node, hget]
    exact (InStep.notice _).bind fun _ _ => .plain (fun _ h => by cases h) fun _ =>
      .pure (Code.woven_const _)
  | some gen =>
    simp only [Job.node, hget]
    rw [Target.eq_of_get? hget]
    exact Generator.inStep_script hpieces gen.kind i

end Generators

end BlockCompiler
