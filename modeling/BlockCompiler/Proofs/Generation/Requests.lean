import BlockCompiler.Run
import Mathlib.Tactic.Common

/-!
# What a script asks for

A script is data, so what it may ask for can be said without running it: `Asks`
bounds the requests of a script whatever the replies are.  The bound has two parts,
for requests that are always in order and for those that are in order only once the
script has begun the pass over the always-emitted blocks, which it does at most
once.

A bound is turned into a statement about runs by looking at single requests: if
each of them keeps a property of the run, so does the script (`Asks.run`); if each
of them has a reply, the script has a result (`Asks.exists_run`).  For the code of
blocks, which scripts ask each other for, the same holds by induction on the depth
(`emit_keeps`).
-/

namespace BlockCompiler

/-! ## What the branching steps of a run leave alone -/

namespace Run

variable (s : Run) (symbol text rival key : String) (warning : Notice)

@[simp] theorem passMade_setupBeside :
    (s.setupBeside symbol text rival warning).passMade = s.passMade := by
  simp only [setupBeside]
  split <;> rfl

@[simp] theorem diagnostics_setupBeside :
    (s.setupBeside symbol text rival warning).diagnostics = s.diagnostics := by
  simp only [setupBeside]
  split <;> rfl

@[simp] theorem passMade_enterProgram : (s.enterProgram key).passMade = s.passMade := by
  simp only [enterProgram]
  split <;> rfl

@[simp] theorem diagnostics_enterProgram : (s.enterProgram key).diagnostics = s.diagnostics := by
  simp only [enterProgram]
  split <;> rfl

end Run

/-! ## Bounds on requests -/

/-- The reply says that the pass over the always-emitted blocks begins. -/
def Request.opens : (r : Request) → r.Reply → Bool
  | .beginPass, reply => reply
  | .generate _, _ | .declare .., _ | .setup .., _ | .setupBeside .., _ | .report _, _
  | .notice _, _ | .setupLines, _ | .enterProgram _, _ => false

namespace Script

variable {α β : Type} {P Q : Request → Prop} {opened : Bool}

/-- Every request satisfies `P`, or else `Q` if the script has begun the pass before it. -/
def Asks (P Q : Request → Prop) : (opened : Bool) → Script α → Prop
  | _, done _ => True
  | opened, ask r resume =>
    (P r ∨ (opened = true ∧ Q r)) ∧
      ∀ reply, (resume reply).Asks P Q (opened || r.opens reply)

namespace Asks

theorem done (a : α) : (Script.done a).Asks P Q opened := trivial

theorem pure (a : α) : (Pure.pure a : Script α).Asks P Q opened := trivial

theorem mono {P' Q' : Request → Prop} (hP : ∀ r, P r → P' r) (hQ : ∀ r, Q r → Q' r)
    {opened' : Bool} (hopened : opened = true → opened' = true) {script : Script α}
    (h : script.Asks P Q opened) : script.Asks P' Q' opened' := by
  induction script generalizing opened opened' with
  | done a => trivial
  | ask r resume ih =>
    refine ⟨?_, fun reply => ih reply ?_ (h.2 reply)⟩
    · rcases h.1 with hr | ⟨ho, hr⟩
      · exact Or.inl (hP r hr)
      · exact Or.inr ⟨hopened ho, hQ r hr⟩
    · intro ho
      rcases Bool.or_eq_true _ _ |>.mp ho with ho | ho
      · simp [hopened ho]
      · simp [ho]

theorem bind {script : Script α} {f : α → Script β} (h : script.Asks P Q opened)
    (hf : ∀ a, (f a).Asks P Q opened) : (script >>= f).Asks P Q opened := by
  induction script generalizing opened with
  | done a => exact hf a
  | ask r resume ih =>
    refine ⟨h.1, fun reply => ih reply (h.2 reply) fun a => ?_⟩
    exact (hf a).mono (fun _ => id) (fun _ => id) (fun ho => by simp [ho])

theorem mapM {γ : Type} {f : γ → Script β} {xs : List γ}
    (h : ∀ x ∈ xs, (f x).Asks P Q opened) : (xs.mapM f).Asks P Q opened := by
  induction xs with
  | nil => exact pure _
  | cons x rest ih =>
    rw [List.mapM_cons]
    refine bind (h x List.mem_cons_self) fun y => ?_
    refine bind (ih fun z hz => h z (List.mem_cons_of_mem _ hz)) fun ys => ?_
    exact pure _

theorem forM {γ : Type} {f : γ → Script PUnit} {xs : List γ}
    (h : ∀ x ∈ xs, (f x).Asks P Q opened) : (xs.forM f).Asks P Q opened := by
  induction xs with
  | nil => exact pure _
  | cons x rest ih =>
    refine bind (h x List.mem_cons_self) fun _ => ?_
    exact ih fun z hz => h z (List.mem_cons_of_mem _ hz)

theorem single {r : Request} {resume : r.Reply → Script α} (hr : P r)
    (h : ∀ reply, (resume reply).Asks P Q (opened || r.opens reply)) :
    (ask r resume).Asks P Q opened :=
  ⟨Or.inl hr, h⟩

/-- A script that never begins the pass asks for nothing that only the pass allows. -/
theorem closed {R : Request → Prop} (hP : ∀ r, P r → r ≠ .beginPass) {script : Script α}
    (h : script.Asks P Q false) : script.Asks P R false := by
  induction script with
  | done a => exact done a
  | ask r resume ih =>
    have hr : P r := h.1.resolve_right fun hopened => Bool.false_ne_true hopened.1
    refine single hr fun reply => ?_
    have hshut : r.opens reply = false := by
      cases r with
      | beginPass => exact absurd rfl (hP _ hr)
      | _ => rfl
    have hrest := h.2 reply
    rw [hshut] at hrest ⊢
    exact ih reply hrest

end Asks

/-! ## Runs -/

variable {code : NodeId → Run → Option (Code × Run)}

theorem run_bind (script : Script α) (f : α → Script β) (s : Run) :
    (script >>= f).run code s = (script.run code s).bind fun r => (f r.1).run code r.2 := by
  induction script generalizing s with
  | done a => rfl
  | ask r resume ih =>
    rw [ask_bind, run, run, Option.bind_assoc]
    congr 1
    funext reply
    exact ih reply.1 reply.2

/-- What every request that is in order keeps is kept by the script. -/
theorem Asks.run {I : Bool → Run → Prop}
    (hstep : ∀ opened r s reply s', (P r ∨ (opened = true ∧ Q r)) → I opened s →
      r.answer code s = some (reply, s') → I (opened || r.opens reply) s')
    {script : Script α} (h : script.Asks P Q opened) {s s' : Run} {a : α} (hs : I opened s)
    (hrun : script.run code s = some (a, s')) : ∃ opened', I opened' s' := by
  induction script generalizing opened s with
  | done b =>
    cases hrun
    exact ⟨opened, hs⟩
  | ask r resume ih =>
    obtain ⟨⟨reply, after⟩, hreply, hrest⟩ := Option.bind_eq_some_iff.mp hrun
    exact ih reply (h.2 reply) (hstep opened r s reply after h.1 hs hreply) hrest

/-- Played on `s`, the script makes a request on the run `s'`. -/
inductive Makes (code : NodeId → Run → Option (Code × Run)) :
    Script α → Run → Request → Run → Prop
  | here (r : Request) (resume : r.Reply → Script α) (s : Run) : Makes code (ask r resume) s r s
  | later {r q : Request} {resume : r.Reply → Script α} {s after s' : Run} {reply : r.Reply}
      (hreply : r.answer code s = some (reply, after))
      (hrest : Makes code (resume reply) after q s') : Makes code (ask r resume) s q s'

theorem Asks.of_makes {script : Script α} (h : script.Asks P Q opened) {s s' : Run} {r : Request}
    (hr : script.Makes code s r s') : P r ∨ Q r := by
  induction hr generalizing opened with
  | here r resume s => exact h.1.imp_right And.right
  | later _ _ ih => exact ih (h.2 _)

/-- If every request that is in order has a reply, the script has a result. -/
theorem Asks.exists_run {I : Bool → Run → Prop}
    (hstep : ∀ opened r s, (P r ∨ (opened = true ∧ Q r)) → I opened s →
      ∃ reply s', r.answer code s = some (reply, s') ∧ I (opened || r.opens reply) s')
    {script : Script α} (h : script.Asks P Q opened) {s : Run} (hs : I opened s) :
    ∃ a s' opened', script.run code s = some (a, s') ∧ I opened' s' := by
  induction script generalizing opened s with
  | done a => exact ⟨a, s, opened, rfl, hs⟩
  | ask r resume ih =>
    obtain ⟨reply, after, hreply, hafter⟩ := hstep opened r s h.1 hs
    obtain ⟨a, s', opened', hrun, hs'⟩ := ih reply (h.2 reply) hafter
    refine ⟨a, s', opened', ?_, hs'⟩
    rw [Script.run, hreply]
    exact hrun

/-- A result does not change when more code is to be had. -/
theorem run_mono {code' : NodeId → Run → Option (Code × Run)}
    (hcode : ∀ i s r, code i s = some r → code' i s = some r) {script : Script α} {s : Run}
    {r : α × Run} (h : script.run code s = some r) : script.run code' s = some r := by
  induction script generalizing s with
  | done a => exact h
  | ask q resume ih =>
    obtain ⟨⟨reply, after⟩, hreply, hrest⟩ := Option.bind_eq_some_iff.mp h
    have hreply' : q.answer code' s = some (reply, after) := by
      cases q with
      | generate i => exact hcode i s _ hreply
      | _ => exact hreply
    rw [run, hreply']
    exact ih reply hrest

end Script

/-! ## The code of blocks -/

variable {scripts : NodeId → Script Code}

/-- More depth does not change the code of a block. -/
theorem emit_succ {fuel : Nat} {i : NodeId} {s : Run} {r : Code × Run}
    (h : emit scripts fuel i s = some r) : emit scripts (fuel + 1) i s = some r := by
  induction fuel generalizing i s r with
  | zero => cases h
  | succ fuel ih => exact Script.run_mono (fun _ _ _ => ih) h

/-- The request concerns only blocks in `Safe`, and the reply to any other request keeps `I`. -/
def Request.Keeps (Safe : NodeId → Prop) (I : Run → Prop) : Request → Prop
  | .generate i => Safe i
  | r => ∀ code s reply s', I s → r.answer code s = some (reply, s') → I s'

/-- A property of runs that the scripts of safe blocks keep, asking only for safe blocks, is kept
by every script that does so. -/
theorem Script.run_keeps {α : Type} {Safe : NodeId → Prop} {I : Run → Prop}
    {code : NodeId → Run → Option (Code × Run)}
    (hcode : ∀ i, Safe i → ∀ s c s', I s → code i s = some (c, s') → I s')
    {script : Script α} {opened : Bool}
    (h : script.Asks (Request.Keeps Safe I) (Request.Keeps Safe I) opened) {s s' : Run} {a : α}
    (hs : I s) (hrun : script.run code s = some (a, s')) : I s' := by
  refine (h.run (I := fun _ s => I s) ?_ hs hrun).elim fun _ => id
  intro _ r s reply s' hr hs hreply
  have hr' : r.Keeps Safe I := hr.elim id And.right
  cases r with
  | generate i => exact hcode i hr' s reply s' hs hreply
  | _ => exact hr' code s reply s' hs hreply

theorem emit_keeps {Safe : NodeId → Prop} {I : Run → Prop}
    (hscripts : ∀ i, Safe i →
      (scripts i).Asks (Request.Keeps Safe I) (Request.Keeps Safe I) false)
    {fuel : Nat} {i : NodeId} (hi : Safe i) {s s' : Run} {c : Code} (hs : I s)
    (h : emit scripts fuel i s = some (c, s')) : I s' := by
  induction fuel generalizing i s s' c with
  | zero => cases h
  | succ fuel ih => exact Script.run_keeps (fun i hi s c s' hs => ih hi hs) (hscripts i hi) hs h

end BlockCompiler
