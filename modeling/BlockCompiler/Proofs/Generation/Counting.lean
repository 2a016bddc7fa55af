import BlockCompiler.Proofs.Expression.Counting
import BlockCompiler.Proofs.Expression.MicroPython
import BlockCompiler.Proofs.Generation.Timers
import BlockCompiler.Proofs.Generation.Weaving

/-!
# Counting loops

A counting loop whose bounds and step are numbers counts the same on both targets
(`Built.counting_agrees`).  On the Arduino the sign of the step is taken off and shown by
the test and the update of the header; for MicroPython the end of the range is moved one
past the last number, and worked out only where the result is a number of 64 bits.
-/

namespace BlockCompiler

open Text

/-! ## Decimal texts -/

theorem Text.dropWhile_of_forall {p : Char → Bool} {cs : List Char} (h : ∀ c ∈ cs, p c = false) :
    cs.dropWhile p = cs := by
  cases cs with
  | nil => rfl
  | cons c rest => exact List.dropWhile_cons_of_neg (by simp [h c List.mem_cons_self])

theorem Text.trim_of_isBlank {s : String} (h : ∀ c ∈ s.toList, isBlank c = false) : trim s = s := by
  rw [← String.toList_inj, toList_trim, dropWhile_of_forall h, dropEndWhile,
    dropWhile_of_forall fun c hc => h c (List.mem_reverse.mp hc), List.reverse_reverse]

theorem isBlank_of_mem_render {v : Int} {c : Char} (h : c ∈ (Whole.render v).toList) :
    isBlank c = false := by
  have hdigit : c ∈ Nat.toDigits 10 v.natAbs → isBlank c = false := by
    intro hc
    refine isBlank_of_isWordChar ?_
    simp [isWordChar, Char.isAlphanum, Numeral.isDigit_of_mem hc]
  rcases toList_render_cases v with ⟨-, htext⟩ | ⟨-, htext⟩
  · rw [htext] at h
    rcases List.mem_cons.mp h with rfl | hc
    · decide
    · exact hdigit hc
  · rw [htext] at h
    exact hdigit h

theorem exists_mem_render (v : Int) : ∃ c, c ∈ (Whole.render v).toList := by
  obtain ⟨c, hc⟩ := List.exists_mem_of_ne_nil _ (Nat.toDigits_ne_nil (b := 10) (n := v.natAbs))
  rcases toList_render_cases v with ⟨-, htext⟩ | ⟨-, htext⟩
  · exact ⟨c, htext ▸ List.mem_cons_of_mem _ hc⟩
  · exact ⟨c, htext ▸ hc⟩

theorem trim_render (v : Int) : trim (Whole.render v) = Whole.render v :=
  trim_of_isBlank fun _ => isBlank_of_mem_render

/-- What is read from the decimal text of a number is that number. -/
theorem Whole.eq_of_signed?_render {v n : Int}
    (h : Whole.signed? (Whole.render v).toList = some n) : n = v := by
  have hnatural := Whole.natural?_toDigits v.natAbs
  rcases toList_render_cases v with ⟨hv, htext⟩ | ⟨hv, htext⟩
  · have hsplit : Numeral.splitSign (Whole.render v).toList =
        (some '-', Nat.toDigits 10 v.natAbs) := by
      rw [htext]
      rfl
    rw [Whole.signed?, hsplit] at h
    have hvalue := (Option.filter_eq_some_iff.mp h).1
    rw [hnatural] at hvalue
    have heq : -(v.natAbs : Int) = n := Option.some.inj hvalue
    omega
  · have hsplit : Numeral.splitSign (Whole.render v).toList =
        (none, Nat.toDigits 10 v.natAbs) := by
      rw [htext]
      exact Numeral.splitSign_of_isDigit fun _ => Numeral.isDigit_of_mem
    rw [Whole.signed?, hsplit] at h
    have hvalue := (Option.filter_eq_some_iff.mp h).1
    rw [hnatural] at hvalue
    have heq : (v.natAbs : Int) = n := Option.some.inj hvalue
    omega

namespace Blocks

theorem exists_literalValue?_render {v : Int} (hne : v ≠ 0)
    (hrange : Whole.inSignedRange v = true) :
    ∃ x, literalValue? (Whole.render v) = some x ∧ x.isNegative = decide (v < 0) := by
  rw [literalValue?, trim_render]
  exact Numeral.exists_value?_render hne hrange

/-! ## On the Arduino -/

/-- A step that is a number fixes the direction of a loop, and loses its sign. -/
theorem countingHeader_render {var : String} {first last step : Int} (hne : step ≠ 0)
    (hrange : Whole.inSignedRange step = true) :
    var ++ " = " ++ Whole.render first ++ "; " ++
        (countingHeader var (Whole.render last) (Whole.render step)).1 ++ "; " ++
          (countingHeader var (Whole.render last) (Whole.render step)).2 =
      LoopHeader.countingText var (decide (0 < step)) first last step.natAbs := by
  obtain ⟨x, hx, hsign⟩ := exists_literalValue?_render hne hrange
  rw [countingHeader, hx]
  by_cases hneg : step < 0
  · have hdigits : String.ofList ((trim (Whole.render step)).toList.dropWhile (· == '-')) =
        Whole.render step.natAbs := by
      have hminus : ∀ c ∈ Nat.toDigits 10 step.natAbs, (c == '-') = false := by
        intro c hc
        rw [beq_eq_false_iff_ne]
        rintro rfl
        exact minus_not_mem_toDigits _ hc
      have htext := (toList_render_cases step).resolve_right (by omega)
      rw [trim_render, ← String.toList_inj, String.toList_ofList, htext.2, toList_render_natCast,
        List.dropWhile_cons_of_pos rfl, dropWhile_of_forall hminus]
    have hup : decide (0 < step) = false := decide_eq_false (by omega)
    simp only [hsign, decide_eq_true hneg, if_true, hdigits, hup]
    apply String.toList_inj.mp
    simp [LoopHeader.countingText, LoopHeader.countingSigns]
  · have hup : decide (0 < step) = true := decide_eq_true (by omega)
    have habs : (step.natAbs : Int) = step := by omega
    simp only [hsign, decide_eq_false hneg, Bool.false_eq_true, if_false, hup, habs]
    apply String.toList_inj.mp
    simp [LoopHeader.countingText, LoopHeader.countingSigns]

/-! ## For MicroPython -/

/-- A bound is moved by working it out or by writing it out. -/
theorem movedBound_render (last : Int) (up : Bool) :
    movedBound (Whole.render last) up = Whole.render (last + if up then 1 else -1) ∨
      movedBound (Whole.render last) up =
        Whole.render last ++ " " ++ (if up then ArithmeticOp.add else .subtract).sign ++ " " ++
          Whole.render 1 := by
  have hwritten : Whole.render last ++ (if up then " + 1" else " - 1") =
      Whole.render last ++ " " ++ (if up then ArithmeticOp.add else .subtract).sign ++ " " ++
        Whole.render 1 := by
    have hone : Whole.render 1 = "1" := by decide
    apply String.toList_inj.mp
    cases up <;> simp [ArithmeticOp.sign, hone]
  cases hsigned : Whole.signed? (trim (Whole.render last)).toList with
  | none =>
    right
    rw [movedBound_of_none hsigned, hwritten]
  | some n =>
    have hn : n = last := by
      rw [trim_render] at hsigned
      exact Whole.eq_of_signed?_render hsigned
    unfold movedBound
    extract_lets delta
    -- A bound at the end of the range cannot be worked out, so it is written out.
    by_cases hrange : Whole.inSignedRange (last + delta) = true
    · left
      have hfilter : ((Whole.signed? (trim (Whole.render last)).toList).map (· + delta)).filter
          Whole.inSignedRange = some (last + delta) := by
        rw [hsigned, hn, Option.map_some, Option.filter_some, if_pos hrange]
      rw [hfilter]
    · right
      have hfilter : ((Whole.signed? (trim (Whole.render last)).toList).map (· + delta)).filter
          Whole.inSignedRange = none := by
        rw [hsigned, hn, Option.map_some, Option.filter_some, if_neg hrange]
      rw [hfilter]
      exact hwritten

/-- The arguments of the range; a step of one is left out. -/
theorem countingRange_render {first last step : Int} (hne : step ≠ 0)
    (hrange : Whole.inSignedRange step = true) :
    countingRange (Whole.render first) (Whole.render last) (Whole.render step) =
      "range(" ++ ", ".intercalate (Whole.render first ::
        movedBound (Whole.render last) (decide (0 < step)) ::
          if step = 1 then [] else [Whole.render step]) ++ ")" := by
  have hrender : Whole.render 1 = "1" := by decide
  rw [countingRange]
  by_cases hone : step = 1
  · subst hone
    rw [if_pos hrender, if_pos rfl]
    apply String.toList_inj.mp
    simp
  · obtain ⟨x, hx, hsign⟩ := exists_literalValue?_render hne hrange
    have hup : (!x.isNegative) = decide (0 < step) := by
      rw [hsign]
      by_cases hneg : step < 0
      · rw [decide_eq_true hneg, decide_eq_false (by omega)]
        rfl
      · rw [decide_eq_false hneg, decide_eq_true (by omega)]
        rfl
    have hother : ¬ Whole.render step = "1" := fun htext =>
      hone (Whole.render_injective (htext.trans hrender.symm))
    rw [if_neg hother, if_neg hone, hx]
    simp only [hup]
    apply String.toList_inj.mp
    simp

end Blocks

namespace Python

theorem spells_render (v : Int) :
    Language.python.Spells 2 (Whole.render v) (.signed (Whole.render v).toList) := by
  have hnumeral : Language.python.Spells 2 (Whole.render v.natAbs)
      (.numeral (Nat.toDigits 10 v.natAbs)) :=
    .looser (.numeral (isDecimal_toDigits v.natAbs) (toList_render_natCast v.natAbs)) (by decide)
  rcases toList_render_cases v with ⟨hv, htext⟩ | ⟨hv, htext⟩
  · have hminus : Whole.render v = "-" ++ Whole.render v.natAbs := by
      apply String.toList_inj.mp
      rw [htext, String.toList_append, toList_render_natCast]
      rfl
    obtain ⟨-, -, -, -, hnext⟩ := Rendition.microPython_writesMinus
    rw [htext, hminus]
    refine hnumeral.unary (t := .sign ['-']) (u := ⟨.minus, 2⟩) rfl rfl (by decide) ?_
    intro d tail hd
    rw [toList_render_natCast] at hd
    exact hnext d (Or.inl (Numeral.isDigit_of_mem (hd ▸ List.mem_cons_self)))
  · have habs : (v.natAbs : Int) = v := by omega
    rw [habs] at hnumeral
    rw [htext, Expression.signed_toDigits]
    exact hnumeral

/-- A bound that is moved spells an expression with the value of the bound moved by one. -/
theorem exists_spells_movedBound (last : Int) (up : Bool) :
    ∃ e, Language.python.Spells 4 (Blocks.movedBound (Whole.render last) up) e ∧
      (Tree.ofExpression e).value? = some (last + if up then 1 else -1) := by
  rcases Blocks.movedBound_render last up with hfolded | hwritten
  · rw [hfolded]
    exact ⟨_, (spells_render _).looser (by decide), value?_render _⟩
  · rw [hwritten]
    refine ⟨.binary (.arithmetic (if up then .add else .subtract))
      (.signed (Whole.render last).toList) (.signed (Whole.render 1).toList), ?_, ?_⟩
    · have hlast := (spells_render last).looser (m := 4) (by decide)
      have hone := (spells_render 1).looser (m := 3) (by decide)
      cases up with
      | true =>
        exact .binary (t := .sign ['+']) (r := .leftward (.arithmetic .add) 4) rfl hlast hone rfl
      | false =>
        exact .binary (t := .sign ['-']) (r := .leftward (.arithmetic .subtract) 4) rfl hlast hone
          rfl
    · simp only [Tree.ofExpression, Tree.value?, value?_render, Option.bind_some]
      cases up <;> rfl

/-- A call of `range` is read as such, and its arguments as what they spell. -/
theorem derives_range_iff {texts : List String} {es : List Expression}
    (h : List.Forall₂ (Language.python.Spells Grammar.python.loosest) texts es) (a : Tree) :
    Derives ("range(" ++ ", ".intercalate texts ++ ")") a ↔
      a = .ofExpression (.call "range".toList es) := by
  have hword : isWord "range".toList = true := by decide
  have hname : "range".toList ∉ keywords := by decide
  have hspells : Language.python.Spells 0 ("range" ++ "(" ++ ", ".intercalate texts ++ ")")
      (.call "range".toList es) :=
    .call (Lexicon.token?_word hword) (Lexicon.head?_ne_of_isWord hword) (isName_iff.mpr hname)
      rfl h
  exact derives_iff (hspells.looser (Nat.zero_le _)) a

/-- **The range of a counting loop** is read in one way, and ends one past the last number. -/
theorem exists_derives_countingRange (first last : Int) {step : Int} (hne : step ≠ 0)
    (hrange : Whole.inSignedRange step = true) :
    ∃ tree, (∀ a, Derives (Blocks.countingRange (Whole.render first) (Whole.render last)
        (Whole.render step)) a ↔ a = tree) ∧
      tree.range? = range first (last + if 0 < step then 1 else -1) step := by
  have hplace : ∀ v, Language.python.Spells Grammar.python.loosest (Whole.render v)
      (.signed (Whole.render v).toList) := fun v => (spells_render v).looser (by decide)
  obtain ⟨e, hspells, hvalue⟩ := exists_spells_movedBound last (decide (0 < step))
  rw [Blocks.countingRange_render hne hrange]
  by_cases hone : step = 1
  · subst hone
    refine ⟨_, derives_range_iff (.cons (hplace first)
      (.cons (hspells.looser (by decide)) .nil)), ?_⟩
    simp only [Tree.ofExpression, Tree.ofExpressions, Tree.range?, if_true, value?_render, hvalue,
      Option.bind_some]
    rfl
  · rw [if_neg hone]
    refine ⟨_, derives_range_iff (.cons (hplace first)
      (.cons (hspells.looser (by decide)) (.cons (hplace step) .nil))), ?_⟩
    simp only [Tree.ofExpression, Tree.ofExpressions, Tree.range?, if_true, value?_render, hvalue,
      Option.bind_some, decide_eq_true_iff]

end Python

/-! ## Loops between numbers -/

/-- The slot holds a number block with the decimal text of the number. -/
def Graph.HoldsNumber (g : Graph) (i : NodeId) (slot : String) (v : Int) : Prop :=
  ∃ c, (g.node i).values.get? slot = some c ∧ (g.node c).type = "math_number" ∧
    (g.node c).fields.get? "NUM" = some (Whole.render v)

namespace Job

variable {g : Graph} {t : Target} {i : NodeId}

theorem parenthesize_of_lt {text : String} {inner outer : Order} (h : inner < outer) :
    parenthesize text inner outer = text := by
  have hbare : (outer ≤ inner) = False := eq_false (Nat.not_le.mpr h)
  simp [parenthesize, hbare]

/-- A number stands in a slot as it is, without brackets. -/
theorem yields_holdsNumber (h : g.IsForest) {slot : String} {v : Int}
    (hslot : g.HoldsNumber i slot v) (t : Target) {outer : Order} (hsign : t.order .sign < outer)
    (fallback : String) :
    Yields ⟨g, t.backend⟩ (valueCode ⟨g, t.backend⟩ (g.node i) slot outer fallback)
      (Whole.render v) := by
  obtain ⟨c, hc, htype, hnum⟩ := hslot
  obtain ⟨d, hd⟩ := exists_mem_render v
  have hblank : ¬ blank (Whole.render v) = true := by
    intro hall
    have hd' := List.all_eq_true.mp hall d hd
    rw [isBlank_of_mem_render hd] at hd'
    cases hd'
  have hfield : (g.node c).fieldOr "NUM" "0" = Whole.render v := by
    rw [Node.fieldOr, hnum]
    exact if_neg hblank
  have hkind : ((g.node c).type, BlockKind.number) ∈ t.typeKinds := by
    rw [htype]
    cases t <;> decide
  have hcode : Yields ⟨g, t.backend⟩ (Script.generate c) (Blocks.number t (g.node c)) :=
    yields_generate_of_mem h hkind (yields_pure _)
  simp only [Blocks.number, hfield, trim_render] at hcode
  have hne : (Whole.render v).isEmpty = false := by
    rw [String.isEmpty_eq_false_iff]
    intro hempty
    rw [hempty] at hd
    cases hd
  -- Only a negative number binds less than an atom, and the slot takes a sign.
  have hinner : (if (Whole.render v).toList.head? = some '-' then t.order .sign else Order.atomic) <
      outer := by
    split
    · exact hsign
    · exact Nat.lt_of_le_of_lt (Nat.zero_le _) hsign
  have hvalue : Yields ⟨g, t.backend⟩ (valueCode ⟨g, t.backend⟩ (g.node i) slot outer fallback)
      (parenthesize (Whole.render v) _ outer) := yields_valueCode_of_some hc hcode hne
  rwa [parenthesize_of_lt hinner] at hvalue

theorem Yields.exists_play?_bind {α β : Type} {j : Job} {script : Script α} {a : α}
    (h : j.Yields script a) (f : α → Script β) (s : Run) :
    ∃ s₁, j.play? (script >>= f) s = j.play? (f a) s₁ := by
  obtain ⟨s₁, hplay⟩ := h s
  exact ⟨s₁, by rw [play?_bind, hplay]; rfl⟩

section Loop

variable {first last step : Int} (h : g.IsForest) (htype : (g.node i).type = "controls_for")
  (hfirst : g.HoldsNumber i "FROM" first) (hlast : g.HoldsNumber i "TO" last)
  (hstep : g.HoldsNumber i "BY" step)

include h htype hfirst hlast hstep

/-- The code of the loop on the Arduino, whatever run it is generated on. -/
theorem exists_play?_countingLoop_arduino
    (hin : g.isInside Target.arduino.backend.containers i = true) (hne : step ≠ 0)
    (hrange : Whole.inSignedRange step = true) (s : Run) :
    ∃ body s', play? ⟨g, Target.arduino.backend⟩ (Script.generate i) s =
      some (.statement ("for (" ++ LoopHeader.countingText
        (Blocks.nameField (g.node i) "VAR" "i") (decide (0 < step)) first last step.natAbs ++
          ") \x7b\n" ++ body ++ "\x7d\n"), s') := by
  rw [play?_generate h, blockScript_countingLoop htype hin, Blocks.countingLoop]
  dsimp only
  obtain ⟨s₁, hdeclare⟩ := (yields_declare _ _).exists_play?_bind _ s
  have hassignment : Target.arduino.order .sign < Target.arduino.order .assignment := by decide
  have hcomparison : Target.arduino.order .sign < Target.arduino.order .comparison := by decide
  obtain ⟨s₂, hstart⟩ :=
    (yields_holdsNumber h hfirst .arduino hassignment "0").exists_play?_bind _ s₁
  obtain ⟨s₃, hend⟩ := (yields_holdsNumber h hlast .arduino hcomparison "0").exists_play?_bind _ s₂
  obtain ⟨s₄, hby⟩ := (yields_holdsNumber h hstep .arduino hcomparison "1").exists_play?_bind _ s₃
  obtain ⟨body, s₅, hbody⟩ := exists_play? (j := ⟨g, Target.arduino.backend⟩) h
    (slotCode ⟨g, Target.arduino.backend⟩ (g.node i) "DO") s₄
  refine ⟨body, s₅, ?_⟩
  rw [hdeclare, hstart, hend, hby, play?_bind, hbody, ← Blocks.countingHeader_render hne hrange]
  refine congrArg (fun text => some (Code.statement text, s₅)) ?_
  simp only [String.append_assoc]

/-- The code of the loop for MicroPython, whatever run it is generated on. -/
theorem exists_play?_countingLoop_microPython
    (hin : g.isInside Target.microPython.backend.containers i = true) (s : Run) :
    ∃ body s', play? ⟨g, Target.microPython.backend⟩ (Script.generate i) s =
      some (.statement ("for " ++ Blocks.nameField (g.node i) "VAR" "i" ++ " in " ++
        Blocks.countingRange (Whole.render first) (Whole.render last) (Whole.render step) ++
          ":\n" ++ body), s') := by
  rw [play?_generate h, blockScript_countingLoop htype hin, Blocks.countingLoop]
  have hloosest : Target.microPython.order .sign < Order.loosest := by decide
  have hsum : Target.microPython.order .sign < Target.microPython.order .sum := by decide
  have hcomparison : Target.microPython.order .sign < Target.microPython.order .comparison := by
    decide
  obtain ⟨s₁, hdeclare⟩ := (yields_declare _ _).exists_play?_bind _ s
  obtain ⟨s₂, hstart⟩ :=
    (yields_holdsNumber h hfirst .microPython hloosest "0").exists_play?_bind _ s₁
  obtain ⟨s₃, hend⟩ := (yields_holdsNumber h hlast .microPython hsum "0").exists_play?_bind _ s₂
  obtain ⟨s₄, hby⟩ :=
    (yields_holdsNumber h hstep .microPython hcomparison "1").exists_play?_bind _ s₃
  obtain ⟨body, s₅, hbody⟩ := exists_play? (j := ⟨g, Target.microPython.backend⟩) h
    (bodyCode ⟨g, Target.microPython.backend⟩ (g.node i) "DO") s₄
  refine ⟨body, s₅, ?_⟩
  rw [hdeclare, hstart, hend, hby, play?_bind, hbody]
  rfl

end Loop

end Job

namespace Graph

variable {g : Graph} {i : NodeId}

/-- **Counting loops include both bounds and agree on the two targets.**  The bounds are any whole
numbers and the step is one of 64 bits other than zero, each given by a number block.  Then there
are values that count from the first bound by the step to the last one, such that the header
generated for the Arduino, run over whole numbers without bounds, and the range generated for
MicroPython go through exactly these values.  Header and range are the same on every run, and each
is read in one way. -/
theorem Built.counting_agrees (h : g.Built) (htype : (g.node i).type = "controls_for")
    {first last step : Int} (hfirst : g.HoldsNumber i "FROM" first)
    (hlast : g.HoldsNumber i "TO" last) (hstep : g.HoldsNumber i "BY" step) (hne : step ≠ 0)
    (hrange : Whole.inSignedRange step = true) :
    ∃ values, Counts first last step values ∧
      (g.isInside Target.arduino.backend.containers i = true → ∃ text header,
        (∀ s, ∃ body s', Job.play? ⟨g, Target.arduino.backend⟩ (Script.generate i) s =
          some (.statement ("for (" ++ text ++ ") \x7b\n" ++ body ++ "\x7d\n"), s')) ∧
        (∀ other, LoopHeader.Derives text other ↔ other = header) ∧
        header.counter = (Blocks.nameField (g.node i) "VAR" "i").toList ∧
        ∀ env visited, header.Runs env visited ↔ visited = values) ∧
      (g.isInside Target.microPython.backend.containers i = true → ∃ text tree,
        (∀ s, ∃ body s', Job.play? ⟨g, Target.microPython.backend⟩ (Script.generate i) s =
          some (.statement ("for " ++ Blocks.nameField (g.node i) "VAR" "i" ++ " in " ++ text ++
            ":\n" ++ body), s')) ∧
        (∀ other, Python.Derives text other ↔ other = tree) ∧
        tree.range? = some values) := by
  obtain ⟨values, hvalues, hcounts⟩ := Python.exists_range first last hne
  refine ⟨values, hcounts, fun hin => ?_, fun hin => ?_⟩
  · have hvar : isWord (Blocks.nameField (g.node i) "VAR" "i").toList = true :=
      isWord_nameField _ _ (by decide)
    have hderives := LoopHeader.derives_counting hvar (decide (0 < step)) first last step.natAbs
    -- The header has the amount of the step, and its direction is in the signs.
    have hsame : (if decide (0 < step) = true then (step.natAbs : Int) else -step.natAbs) =
        step := by
      by_cases hup : 0 < step
      · rw [if_pos (decide_eq_true hup)]
        omega
      · rw [if_neg (by simpa using hup)]
        omega
    refine ⟨_, _, Job.exists_play?_countingLoop_arduino h.isForest htype hfirst hlast hstep hin hne
      hrange, fun other => ⟨fun hother => hother.unique hderives, ?_⟩, rfl, fun env visited => ?_⟩
    · rintro rfl
      exact hderives
    · rw [LoopHeader.runs_iff (by omega), hsame]
      constructor
      · intro hvisited
        exact hvisited.unique hcounts
      · rintro rfl
        exact hcounts
  · obtain ⟨tree, hderives, htree⟩ := Python.exists_derives_countingRange first last hne hrange
    exact ⟨_, tree,
      Job.exists_play?_countingLoop_microPython h.isForest htype hfirst hlast hstep hin,
      hderives, htree.trans hvalues⟩

/-- A procedure whose loop counts from one number to another, with the given texts. -/
def countingDraft (first last step : String) : Draft :=
  [.node "count" "procedures_defnoreturn", .node "rounds" "controls_for", .node "a" "math_number",
    .node "b" "math_number", .node "c" "math_number", .setField 2 "NUM" first,
    .setField 3 "NUM" last, .setField 4 "NUM" step, .setValue 1 "FROM" 2, .setValue 1 "TO" 3,
    .setValue 1 "BY" 4, .setStatement 0 "STACK" 1].foldl (fun d e => Draft.Edit.apply e d) {}

theorem countingDraft_reachable (first last step : String) :
    (countingDraft first last step).Reachable :=
  Draft.reachable_of_edits rfl

/-- The loop goes down by two to the least number of 64 bits, which cannot be moved further down. -/
def leastDraft : Draft :=
  countingDraft "-9223372036854775803" "-9223372036854775808" "-2"

theorem Built.counting_agrees_least :
    leastDraft.toGraph.Built ∧
      (∃ text header,
        (∀ s, ∃ body s', Job.play? ⟨leastDraft.toGraph, Target.arduino.backend⟩
            (Script.generate 1) s =
          some (.statement ("for (" ++ text ++ ") \x7b\n" ++ body ++ "\x7d\n"), s')) ∧
        LoopHeader.Derives text header ∧
        ∀ env, header.Runs env
          [-9223372036854775803, -9223372036854775805, -9223372036854775807]) ∧
      ∃ text tree,
        (∀ s, ∃ body s', Job.play? ⟨leastDraft.toGraph, Target.microPython.backend⟩
            (Script.generate 1) s =
          some (.statement ("for i in " ++ text ++ ":\n" ++ body), s')) ∧
        Python.Derives text tree ∧
        tree.range? =
          some [-9223372036854775803, -9223372036854775805, -9223372036854775807] := by
  have hreachable : leastDraft.Reachable := countingDraft_reachable _ _ _
  have hbuilt : leastDraft.toGraph.Built := hreachable.built rfl
  have hfirst : leastDraft.toGraph.HoldsNumber 1 "FROM" (-9223372036854775803) :=
    ⟨2, by decide, by decide, by decide⟩
  have hlast : leastDraft.toGraph.HoldsNumber 1 "TO" (-9223372036854775808) :=
    ⟨3, by decide, by decide, by decide⟩
  have hstep : leastDraft.toGraph.HoldsNumber 1 "BY" (-2) := ⟨4, by decide, by decide, by decide⟩
  have hvalues : Counts (-9223372036854775803) (-9223372036854775808) (-2)
      [-9223372036854775803, -9223372036854775805, -9223372036854775807] := by
    simp [Counts.cons_iff, Counts.nil_iff, IsWithin]
  have hvar : "for " ++ Blocks.nameField (leastDraft.toGraph.node 1) "VAR" "i" ++ " in " =
      "for i in " := by
    decide +kernel
  obtain ⟨values, hcounts, harduino, hpython⟩ :=
    hbuilt.counting_agrees (i := 1) rfl hfirst hlast hstep (by decide) (by decide)
  obtain rfl := hcounts.unique hvalues
  obtain ⟨text, header, hcode, hderives, -, hruns⟩ := harduino (by decide)
  obtain ⟨range, tree, hloop, hreads, htree⟩ := hpython (by decide)
  rw [hvar] at hloop
  exact ⟨hbuilt, ⟨text, header, hcode, (hderives header).mpr rfl, fun env => (hruns env _).mpr rfl⟩,
    range, tree, hloop, (hreads tree).mpr rfl, htree⟩

end Graph

end BlockCompiler
