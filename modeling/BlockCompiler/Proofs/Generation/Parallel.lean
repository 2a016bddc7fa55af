import BlockCompiler.Proofs.Generation.Depth
import Mathlib.Data.List.Forall2

/-!
# Scripts in parallel

Two scripts run in parallel if they make the same requests and, given the same replies,
come to the same result.  Where one asks for a block, the other may ask for a different
one, as long as the two blocks are related (`B`); and what they write to the log may
differ.  The first script may also ask for silent blocks (`Z`) that the second does not
ask for, and must then go on as if the reply had been no code at all.  All other requests
satisfy `P`.

If the scripts of related blocks run in parallel, and silent blocks turn into nothing,
then playing them on two related runs comes to the same result, and again to two related
runs (`Job.parallel_play?`).  What it means for runs to be related is left open: it is
enough that the answers to requests keep it (`Request.Respects`).  In the simplest case
the runs differ in their logs only.  This is what shows that a compilation does not
depend on some part of the graph: the parts of two graphs that it does depend on are
related.

For a single script the same relation, with itself and with equality of blocks, bounds
the requests that it makes (`Parallel.asks`).
-/

namespace BlockCompiler

namespace Script

variable {α β γ δ : Type} {B : NodeId → NodeId → Prop} {Z : NodeId → Prop} {P : Request → Prop}

/-- The scripts make the same requests, up to related and silent blocks and the log, with the same
result. -/
inductive Parallel (B : NodeId → NodeId → Prop) (Z : NodeId → Prop) (P : Request → Prop) :
    Script α → Script α → Prop
  | done (a : α) : Parallel B Z P (done a) (done a)
  | same {r : Request} {resume resume' : r.Reply → Script α} (hr : P r)
      (hblock : ∀ i, r ≠ .generate i)
      (h : ∀ reply, Parallel B Z P (resume reply) (resume' reply)) :
      Parallel B Z P (ask r resume) (ask r resume')
  | block {i i' : NodeId} {resume resume' : Code → Script α} (hi : B i i')
      (h : ∀ code, Parallel B Z P (resume code) (resume' code)) :
      Parallel B Z P (ask (.generate i) resume) (ask (.generate i') resume')
  | notice {n n' : Notice} {resume resume' : Unit → Script α} (hn : P (.notice n))
      (hn' : P (.notice n')) (h : Parallel B Z P (resume ()) (resume' ())) :
      Parallel B Z P (ask (.notice n) resume) (ask (.notice n') resume')
  | skip {i : NodeId} {resume : Code → Script α} {script' : Script α} (hi : Z i)
      (h : Parallel B Z P (resume Code.empty) script') :
      Parallel B Z P (ask (.generate i) resume) script'

namespace Parallel

theorem pure (a : α) : Parallel B Z P (Pure.pure a : Script α) (Pure.pure a) :=
  .done a

theorem bind {script script' : Script α} {f f' : α → Script β}
    (h : script.Parallel B Z P script') (hf : ∀ a, (f a).Parallel B Z P (f' a)) :
    (script >>= f).Parallel B Z P (script' >>= f') := by
  induction h with
  | done a => exact hf a
  | same hr hblock _ ih => exact .same hr hblock ih
  | block hi _ ih => exact .block hi ih
  | notice hn hn' _ ih => exact .notice hn hn' ih
  | skip hi _ ih => exact .skip hi ih

theorem ite {c : Prop} [Decidable c] {first first' second second' : Script α}
    (hfirst : first.Parallel B Z P first') (hsecond : second.Parallel B Z P second') :
    (if c then first else second).Parallel B Z P (if c then first' else second') := by
  split
  · exact hfirst
  · exact hsecond

theorem mapM {R : γ → δ → Prop} {f : γ → Script β} {f' : δ → Script β}
    (hf : ∀ x x', R x x' → (f x).Parallel B Z P (f' x')) {xs : List γ} {xs' : List δ}
    (h : List.Forall₂ R xs xs') : (xs.mapM f).Parallel B Z P (xs'.mapM f') := by
  induction h with
  | nil => exact pure []
  | cons hx _ ih =>
    rw [List.mapM_cons, List.mapM_cons]
    exact (hf _ _ hx).bind fun y => ih.bind fun ys => pure (y :: ys)

theorem forM {R : γ → δ → Prop} {f : γ → Script PUnit} {f' : δ → Script PUnit}
    (hf : ∀ x x', R x x' → (f x).Parallel B Z P (f' x')) {xs : List γ} {xs' : List δ}
    (h : List.Forall₂ R xs xs') : (xs.forM f).Parallel B Z P (xs'.forM f') := by
  induction h with
  | nil => exact pure _
  | cons hx _ ih => exact (hf _ _ hx).bind fun _ => ih

/-- The same script for each element of a list. -/
theorem mapM_same {f f' : γ → Script β} {xs : List γ} (hf : ∀ x, (f x).Parallel B Z P (f' x)) :
    (xs.mapM f).Parallel B Z P (xs.mapM f') :=
  mapM (R := Eq) (fun x _ hx => hx ▸ hf x) (List.forall₂_refl xs)

/-- Whatever a script asks for, apart from blocks, is bounded by `P`. -/
theorem asks {script script' : Script α} (h : script.Parallel B Z P script')
    (hZ : ∀ i, ¬ Z i) {P' : Request → Prop} (hP : ∀ r, P r → P' r)
    (hblock : ∀ i i', B i i' → P' (.generate i)) (Q : Request → Prop) (opened : Bool) :
    script.Asks P' Q opened := by
  induction h generalizing opened with
  | done a => exact .done a
  | same hr _ _ ih => exact .single (hP _ hr) fun reply => ih reply _
  | block hi _ ih => exact .single (hblock _ _ hi) fun code => ih code _
  | notice hn _ _ ih => exact .single (hP _ hn) fun _ => ih _
  | skip hi _ _ => exact absurd hi (hZ _)

/-! ### The other script -/

theorem eq_done {a : α} {script' : Script α} (h : (Script.done a).Parallel B Z P script') :
    script' = Script.done a := by
  cases h
  rfl

theorem exists_of_generate {i : NodeId} {resume : Code → Script α} {script' : Script α}
    (h : (ask (.generate i) resume).Parallel B (fun _ => False) P script') :
    ∃ i' resume', B i i' ∧ script' = ask (.generate i') resume' ∧
      ∀ code, (resume code).Parallel B (fun _ => False) P (resume' code) := by
  cases h with
  | same _ hblock _ => exact absurd rfl (hblock i)
  | block hi h => exact ⟨_, _, hi, rfl, h⟩
  | skip hi _ => exact hi.elim

theorem exists_of_notice {n : Notice} {resume : Unit → Script α} {script' : Script α}
    (h : (ask (.notice n) resume).Parallel B Z P script') :
    ∃ n' resume', script' = ask (.notice n') resume' ∧
      (resume ()).Parallel B Z P (resume' ()) := by
  cases h with
  | same _ _ h => exact ⟨n, _, rfl, h ()⟩
  | notice _ _ h => exact ⟨_, _, rfl, h⟩

theorem exists_of_ask {r : Request} (hblock : ∀ i, r ≠ .generate i) (hnotice : ∀ n, r ≠ .notice n)
    {resume : r.Reply → Script α} {script' : Script α}
    (h : (ask r resume).Parallel B Z P script') :
    ∃ resume', script' = ask r resume' ∧ ∀ reply, (resume reply).Parallel B Z P (resume' reply) := by
  cases h with
  | same _ _ h => exact ⟨_, rfl, h⟩
  | block => exact absurd rfl (hblock _)
  | notice => exact absurd rfl (hnotice _)
  | skip => exact absurd rfl (hblock _)

end Parallel

end Script

/-! ## Related runs -/

/-- On related runs the requests are answered alike, and the runs stay related. -/
structure Request.Respects (P : Request → Prop) (R : Run → Run → Prop) : Prop where
  answer : ∀ {r : Request}, P r → (∀ i, r ≠ .generate i) →
    ∀ (code code' : NodeId → Run → Option (Code × Run)) {s s' : Run}, R s s' →
      ∃ reply t t', r.answer code s = some (reply, t) ∧ r.answer code' s' = some (reply, t') ∧
        R t t'
  notice : ∀ (n n' : Notice) {s s' : Run}, R s s' → R (s.notice n) (s'.notice n')

/-- The scripts of the blocks turn into nothing and leave related runs related. -/
def Silences (scripts : NodeId → Script Code) (Z : NodeId → Prop) (R : Run → Run → Prop) : Prop :=
  ∀ i code s s' c t, Z i → R s s' → (scripts i).run code s = some (c, t) → c = Code.empty ∧ R t s'

theorem Silences.emit {scripts : NodeId → Script Code} {Z : NodeId → Prop} {R : Run → Run → Prop}
    (h : Silences scripts Z R) {fuel : Nat} {i : NodeId} {s s' t : Run} {c : Code} (hi : Z i)
    (hs : R s s') (hemit : emit scripts fuel i s = some (c, t)) : c = Code.empty ∧ R t s' := by
  cases fuel with
  | zero => cases hemit
  | succ fuel => exact h i _ s s' c t hi hs hemit

namespace Script.Parallel

variable {α : Type} {B : NodeId → NodeId → Prop} {Z : NodeId → Prop} {P : Request → Prop}
  {R : Run → Run → Prop}

/-- Scripts in parallel have the same result, given that related blocks have the same code and
silent blocks have none. -/
theorem run {script script' : Script α} (h : script.Parallel B Z P script')
    (hR : Request.Respects P R) {code code' : NodeId → Run → Option (Code × Run)}
    (hcode : ∀ i i' s s' c t, B i i' → R s s' → code i s = some (c, t) →
      ∃ t', code' i' s' = some (c, t') ∧ R t t')
    (hsilent : ∀ i s s' c t, Z i → R s s' → code i s = some (c, t) → c = Code.empty ∧ R t s')
    {s s' t : Run} {a : α} (hs : R s s') (hrun : script.run code s = some (a, t)) :
    ∃ t', script'.run code' s' = some (a, t') ∧ R t t' := by
  induction h generalizing s s' with
  | done b =>
    cases hrun
    exact ⟨s', rfl, hs⟩
  | same hr hblock _ ih =>
    obtain ⟨reply, u, u', hu, hu', hRu⟩ := hR.answer hr hblock code code' hs
    rw [Script.run, hu] at hrun
    obtain ⟨t', hrun', ht⟩ := ih reply hRu hrun
    refine ⟨t', ?_, ht⟩
    rw [Script.run, hu']
    exact hrun'
  | block hi _ ih =>
    obtain ⟨⟨c, u⟩, hu, hrest⟩ := Option.bind_eq_some_iff.mp hrun
    obtain ⟨u', hu', hRu⟩ := hcode _ _ s s' c u hi hs hu
    obtain ⟨t', hrun', ht⟩ := ih c hRu hrest
    exact ⟨t', Option.bind_eq_some_iff.mpr ⟨(c, u'), hu', hrun'⟩, ht⟩
  | notice _ _ _ ih => exact ih (hR.notice _ _ hs) hrun
  | skip hi _ ih =>
    obtain ⟨⟨c, u⟩, hu, hrest⟩ := Option.bind_eq_some_iff.mp hrun
    obtain ⟨rfl, hRu⟩ := hsilent _ s s' c u hi hs hu
    exact ih hRu hrest

/-- The code of related blocks is the same, to any depth. -/
theorem emit {scripts scripts' : NodeId → Script Code} (hR : Request.Respects P R)
    (hblocks : ∀ i i', B i i' → (scripts i).Parallel B Z P (scripts' i'))
    (hsilent : Silences scripts Z R) (fuel : Nat) {i i' : NodeId} (hi : B i i') {s s' t : Run}
    {c : Code} (hs : R s s')
    (hemit : BlockCompiler.emit scripts fuel i s = some (c, t)) :
    ∃ t', BlockCompiler.emit scripts' fuel i' s' = some (c, t') ∧ R t t' := by
  induction fuel generalizing i i' s s' c t with
  | zero => cases hemit
  | succ fuel ih =>
    exact (hblocks i i' hi).run hR (fun _ _ _ _ _ _ hi hs => ih hi hs)
      (fun _ _ _ _ _ hi hs => hsilent.emit hi hs) hs hemit

end Script.Parallel

theorem emit_of_le {scripts : NodeId → Script Code} {fuel fuel' : Nat} (hle : fuel ≤ fuel')
    {i : NodeId} {s : Run} {r : Code × Run} (h : emit scripts fuel i s = some r) :
    emit scripts fuel' i s = some r := by
  induction hle with
  | refl => exact h
  | step _ ih => exact emit_succ ih

namespace Job

variable {α : Type} {j j' : Job} {B : NodeId → NodeId → Prop} {Z : NodeId → Prop}
  {P : Request → Prop} {R : Run → Run → Prop}

/-- More depth than the bound does not change what a script comes to. -/
theorem play?_eq_run (h : j.graph.IsForest) {fuel : Nat} (hle : j.depthBound ≤ fuel)
    (script : Script α) (s : Run) : j.play? script s = script.run (emit j.blockScript fuel) s := by
  obtain ⟨a, s', hplay⟩ := exists_play? h script s
  rw [hplay]
  exact (Script.run_mono (fun _ _ _ => emit_of_le hle) hplay).symm

/-- **Scripts in parallel come to the same result** and to related runs. -/
theorem parallel_play? (h : j.graph.IsForest) (h' : j'.graph.IsForest)
    (hR : Request.Respects P R)
    (hblocks : ∀ i i', B i i' → (j.blockScript i).Parallel B Z P (j'.blockScript i'))
    (hsilent : Silences j.blockScript Z R) {script script' : Script α}
    (hscript : script.Parallel B Z P script') {s s' : Run} (hs : R s s') :
    ∃ a t t', j.play? script s = some (a, t) ∧ j'.play? script' s' = some (a, t') ∧ R t t' := by
  obtain ⟨a, t, hplay⟩ := exists_play? h script s
  have hrun := hplay
  -- The two bounds differ with the sizes of the graphs; the greater one serves both.
  rw [play?_eq_run h (Nat.le_max_left _ j'.depthBound)] at hrun
  obtain ⟨t', hrun', ht⟩ := hscript.run hR
    (fun _ _ _ _ _ _ hi hs => Script.Parallel.emit hR hblocks hsilent _ hi hs)
    (fun _ _ _ _ _ hi hs => hsilent.emit hi hs) hs hrun
  rw [← play?_eq_run h' (Nat.le_max_right j.depthBound _)] at hrun'
  exact ⟨a, t, t', hplay, hrun', ht⟩

end Job

/-! ## Runs up to the log and to hidden diagnostics -/

namespace DiagnosticLog

variable {hidden : List Diagnostic} {d : Diagnostic}

/-- The log without the hidden diagnostics, as if their subjects had not been seen. -/
def without (hidden : List Diagnostic) (log : DiagnosticLog) : DiagnosticLog where
  entries := log.entries.filter (!hidden.contains ·)
  seen := ⟨log.seen.members.filter (!(hidden.map Diagnostic.subject).contains ·)⟩

theorem reports_without (hd : d.subject ∉ hidden.map Diagnostic.subject) (log : DiagnosticLog) :
    (log.without hidden).reports d = log.reports d := by
  rw [Bool.eq_iff_iff]
  simp only [reports, without, KeySet.contains, List.contains_iff_mem, List.mem_filter]
  refine and_iff_left ?_
  simpa using hd

/-- A diagnostic about another subject than those of the hidden ones is taken in as if these were
not there. -/
theorem without_push (hd : d.subject ∉ hidden.map Diagnostic.subject) (log : DiagnosticLog) :
    (log.push d).without hidden = (log.without hidden).push d := by
  have hshown : d ∉ hidden := fun h => hd (List.mem_map_of_mem h)
  have hreports := reports_without hd log
  rw [push, push, hreports]
  cases hlog : log.reports d with
  | true => rfl
  | false =>
    rw [hlog] at hreports
    have hseen : log.seen.insert d.subject = ⟨d.subject :: log.seen.members⟩ :=
      if_neg (Bool.eq_false_iff.mp hlog)
    have hseen' : (log.without hidden).seen.insert d.subject =
        ⟨d.subject :: (log.without hidden).seen.members⟩ :=
      if_neg (Bool.eq_false_iff.mp hreports)
    rw [if_neg Bool.false_ne_true, if_neg Bool.false_ne_true, hseen, hseen']
    simp only [without, mk.injEq, KeySet.mk.injEq]
    exact ⟨by simp [hshown], List.filter_cons_of_pos (by simpa using hd)⟩

/-- Hidden diagnostics leave no trace. -/
theorem without_push_of_mem (hd : d ∈ hidden) (log : DiagnosticLog) :
    (log.push d).without hidden = log.without hidden := by
  have hsubject : d.subject ∈ hidden.map Diagnostic.subject := List.mem_map_of_mem hd
  rw [push]
  cases hlog : log.reports d with
  | true => rfl
  | false =>
    have hseen : log.seen.insert d.subject = ⟨d.subject :: log.seen.members⟩ :=
      if_neg (Bool.eq_false_iff.mp hlog)
    rw [if_neg Bool.false_ne_true, hseen]
    simp only [without, mk.injEq, KeySet.mk.injEq]
    exact ⟨by simp [hd], List.filter_cons_of_neg (by simpa using hsubject)⟩

end DiagnosticLog

namespace Run

/-- The run without its log. -/
def output (s : Run) : Run :=
  { s with notices := [] }

/-- The run without its log and without the hidden diagnostics. -/
def visible (hidden : List Diagnostic) (s : Run) : Run :=
  { s with notices := [], diagnostics := s.diagnostics.without hidden }

theorem visible_of_none_hidden (s : Run) : s.visible [] = s.output := by
  simp [visible, output, DiagnosticLog.without]

theorem output_setupBeside (s : Run) (symbol text rival : String) (warning : Notice) :
    (s.setupBeside symbol text rival warning).output = s.output.setup symbol text := by
  simp only [setupBeside]
  split <;> rfl

theorem output_enterProgram (s : Run) (key : String) :
    (s.enterProgram key).output = { s.output with entryPoints := s.output.entryPoints + 1 } := by
  simp only [enterProgram]
  split <;> rfl

theorem visible_eq (hidden : List Diagnostic) (s : Run) :
    s.visible hidden =
      { s.output with diagnostics := s.output.diagnostics.without hidden } := rfl

theorem visible_report {hidden : List Diagnostic} {d : Diagnostic}
    (hd : d.subject ∉ hidden.map Diagnostic.subject) (s : Run) :
    (s.report d).visible hidden = (s.visible hidden).report d := by
  simp only [visible, report, DiagnosticLog.without_push hd]

theorem visible_report_of_mem {hidden : List Diagnostic} {d : Diagnostic} (hd : d ∈ hidden)
    (s : Run) : (s.report d).visible hidden = s.visible hidden := by
  simp only [visible, report, DiagnosticLog.without_push_of_mem hd]

end Run

/-- Apart from blocks, a reply depends neither on the log nor on diagnostics about other
subjects. -/
theorem Request.respects_visible {P : Request → Prop} {hidden : List Diagnostic}
    (hP : ∀ d, P (.report d) → d.subject ∉ hidden.map Diagnostic.subject) :
    Respects P fun s s' => s.visible hidden = s'.output where
  notice _ _ _ _ hs := hs
  answer := by
    intro r hr hblock code code' s s' hs
    cases r with
    | generate i => exact absurd rfl (hblock i)
    | declare symbol text => exact ⟨(), _, _, rfl, rfl, congrArg (·.declare symbol text) hs⟩
    | setup symbol text => exact ⟨(), _, _, rfl, rfl, congrArg (·.setup symbol text) hs⟩
    | setupBeside symbol text rival warning =>
      refine ⟨(), _, _, rfl, rfl, ?_⟩
      rw [Run.visible_eq, Run.output_setupBeside, Run.output_setupBeside]
      exact congrArg (·.setup symbol text) hs
    | report d =>
      refine ⟨(), _, _, rfl, rfl, ?_⟩
      rw [Run.visible_report (hP d hr)]
      exact congrArg (·.report d) hs
    | notice n => exact ⟨(), _, _, rfl, rfl, hs⟩
    -- A reply that reads the run reads a part of it which is visible.
    | setupLines =>
      refine ⟨s.setups.flush, s, s', rfl, ?_, hs⟩
      have hlines : (s.visible hidden).setups.flush = s'.output.setups.flush :=
        congrArg (·.setups.flush) hs
      exact congrArg (fun lines => some (lines, s')) hlines.symm
    | beginPass =>
      refine ⟨!s.passMade, { s with passMade := true }, { s' with passMade := true }, rfl, ?_,
        congrArg (fun s => { s with passMade := true }) hs⟩
      have hmade : (!(s.visible hidden).passMade) = !s'.output.passMade :=
        congrArg (!·.passMade) hs
      exact congrArg (fun made => some (made, { s' with passMade := true })) hmade.symm
    | enterProgram key =>
      refine ⟨(), _, _, rfl, rfl, ?_⟩
      rw [Run.visible_eq, Run.output_enterProgram, Run.output_enterProgram]
      exact congrArg (fun s => { s with entryPoints := s.entryPoints + 1 }) hs

/-- Apart from blocks, a reply does not depend on the log. -/
theorem Request.respects_output (P : Request → Prop) :
    Respects P fun s s' => s.output = s'.output := by
  have hrespects : Respects P fun s s' => s.visible [] = s'.output :=
    respects_visible fun _ _ => List.not_mem_nil
  simpa only [Run.visible_of_none_hidden] using hrespects

end BlockCompiler
