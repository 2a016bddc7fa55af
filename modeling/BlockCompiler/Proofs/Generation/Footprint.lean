import BlockCompiler.Proofs.Collector
import BlockCompiler.Proofs.Generation.Contract
import BlockCompiler.Proofs.Generation.Course

/-!
# What a script leaves behind

Most scripts look at nothing of the run they are played on.  Such a script has the same
result on every run, and makes the same offers to the two collectors in the same order:
its *footprint*.  Which of the offers are taken depends on the run, the offers do not.

`Job.Leaves` says this of a script, and is closed under the ways in which scripts are put
together.  A script leaves some footprint as soon as none of its requests looks at the
run, the blocks that it asks for included (`exists_leaves`).

A script that does look at the run marks it with some footprint all the same, so what the
collectors hold at one step they hold at all later ones (`Course.precedes_at`).
-/

namespace BlockCompiler

/-- Offers to the collectors of a run, in order. -/
structure Footprint where
  declarations : List (String × String) := []
  setups : List (String × String) := []

namespace Footprint

/-- One after the other. -/
def append (f g : Footprint) : Footprint where
  declarations := f.declarations ++ g.declarations
  setups := f.setups ++ g.setups

instance : Append Footprint := ⟨append⟩

@[simp] theorem declarations_append (f g : Footprint) :
    (f ++ g).declarations = f.declarations ++ g.declarations := rfl

@[simp] theorem setups_append (f g : Footprint) : (f ++ g).setups = f.setups ++ g.setups := rfl

/-- The collectors of `s'` are those of `s` after the offers were made. -/
structure Marks (f : Footprint) (s s' : Run) : Prop where
  declarations : s'.declarations = s.declarations.registerAll f.declarations
  setups : s'.setups = s.setups.registerAll f.setups

theorem marks_empty (s : Run) : Marks {} s s :=
  ⟨rfl, rfl⟩

theorem Marks.append {f g : Footprint} {s s₁ s₂ : Run} (hf : f.Marks s s₁) (hg : g.Marks s₁ s₂) :
    (f ++ g).Marks s s₂ where
  declarations := by
    rw [hg.declarations, hf.declarations]
    exact (Collector.registerAll_append _ _ _).symm
  setups := by
    rw [hg.setups, hf.setups]
    exact (Collector.registerAll_append _ _ _).symm

end Footprint

/-- The offer that a request makes. -/
def Request.footprint : Request → Footprint
  | declare symbol text => { declarations := [(symbol, text)] }
  | setup symbol text | setupBeside symbol text _ _ => { setups := [(symbol, text)] }
  | generate _ | report _ | notice _ | setupLines | beginPass | enterProgram _ => {}

/-- Apart from blocks, a request marks the run with its own offer. -/
theorem Request.marks_of_answer {code : NodeId → Run → Option (Code × Run)} {r : Request}
    (hr : ∀ i, r ≠ .generate i) {s s' : Run} {reply : r.Reply}
    (h : r.answer code s = some (reply, s')) : r.footprint.Marks s s' := by
  cases r with
  | generate i => exact absurd rfl (hr i)
  | setupBeside symbol text rival warning =>
    cases h
    exact ⟨by simp [footprint, Collector.registerAll], by simp [footprint, Collector.registerAll]⟩
  | enterProgram key =>
    cases h
    exact ⟨by simp [footprint, Collector.registerAll], by simp [footprint, Collector.registerAll]⟩
  | declare | setup | report | notice | setupLines | beginPass =>
    cases h
    exact ⟨rfl, rfl⟩

namespace Job

variable {j : Job} {α β γ : Type}

/-- On every run the script has the result `a` and leaves the footprint `f`. -/
def Leaves (j : Job) (script : Script α) (a : α) (f : Footprint) : Prop :=
  ∀ s, ∃ s', j.play? script s = some (a, s') ∧ f.Marks s s'

theorem leaves_pure (a : α) : j.Leaves (pure a) a {} :=
  fun s => ⟨s, rfl, Footprint.marks_empty s⟩

theorem Leaves.bind {script : Script α} {next : α → Script β} {a : α} {b : β} {f g : Footprint}
    (h : j.Leaves script a f) (hnext : j.Leaves (next a) b g) :
    j.Leaves (script >>= next) b (f ++ g) := by
  intro s
  obtain ⟨s₁, hscript, hf⟩ := h s
  obtain ⟨s₂, hrest, hg⟩ := hnext s₁
  refine ⟨s₂, ?_, hf.append hg⟩
  rw [play?_bind, hscript]
  exact hrest

/-- The result is made from that of a script before it. -/
theorem Leaves.result {script : Script α} {a : α} {f : Footprint} (h : j.Leaves script a f)
    (g : α → β) : j.Leaves (do return g (← script)) (g a) f := by
  intro s
  obtain ⟨s', hscript, hf⟩ := h s
  refine ⟨s', ?_, hf⟩
  rw [play?_bind, hscript]
  rfl

theorem leaves_notice (n : Notice) : j.Leaves (Script.notice n) () {} :=
  fun s => ⟨s.notice n, rfl, rfl, rfl⟩

theorem leaves_report (d : Diagnostic) : j.Leaves (Script.report d) () {} :=
  fun s => ⟨s.report d, rfl, rfl, rfl⟩

theorem leaves_declare (symbol text : String) :
    j.Leaves (Script.declare symbol text) () { declarations := [(symbol, text)] } :=
  fun s => ⟨s.declare symbol text, rfl, rfl, rfl⟩

theorem leaves_setup (symbol text : String) :
    j.Leaves (Script.setup symbol text) () { setups := [(symbol, text)] } :=
  fun s => ⟨s.setup symbol text, rfl, rfl, rfl⟩

theorem leaves_generate (h : j.graph.IsForest) {i : NodeId} {c : Code} {f : Footprint}
    (hi : j.Leaves (j.blockScript i) c f) : j.Leaves (Script.generate i) c f := by
  intro s
  rw [play?_generate h]
  exact hi s

/-- The reply to the request does not depend on the run. -/
def Blind (j : Job) : Request → Prop
  | .generate i => ∃ c f, j.Leaves (Script.generate i) c f
  | .setupLines | .beginPass => False
  | .declare .. | .setup .. | .setupBeside .. | .report _ | .notice _ | .enterProgram _ => True

/-- Apart from blocks, a request that does not look at the run has one reply only. -/
theorem Blind.exists_reply {r : Request} (hr : j.Blind r) (hblock : ∀ i, r ≠ .generate i) :
    ∃ reply : r.Reply, ∀ code s, ∃ s', r.answer code s = some (reply, s') := by
  cases r with
  | generate i => exact absurd rfl (hblock i)
  | setupLines | beginPass => exact hr.elim
  | declare | setup | setupBeside | report | notice | enterProgram =>
    exact ⟨(), fun _ _ => ⟨_, rfl⟩⟩

theorem Blind.opens_eq_false {r : Request} (hr : j.Blind r) (reply : r.Reply) :
    r.opens reply = false := by
  cases r with
  | beginPass => exact hr.elim
  | _ => rfl

/-- **A script that does not look at the run leaves a footprint.** -/
theorem exists_leaves {Q : Request → Prop} {script : Script α}
    (h : script.Asks j.Blind Q false) : ∃ a f, j.Leaves script a f := by
  induction script with
  | done a => exact ⟨a, {}, leaves_pure a⟩
  | ask r resume ih =>
    have hr : j.Blind r := h.1.elim id fun hopened => Bool.noConfusion hopened.1
    have hrest : ∀ reply, (resume reply).Asks j.Blind Q false := by
      intro reply
      have hreply := h.2 reply
      rwa [hr.opens_eq_false reply] at hreply
    by_cases hgen : ∃ i, r = .generate i
    · obtain ⟨i, rfl⟩ := hgen
      obtain ⟨c, f, hc⟩ := hr
      obtain ⟨a, g, ha⟩ := ih c (hrest c)
      exact ⟨a, f ++ g, hc.bind ha⟩
    · have hblock : ∀ i, r ≠ .generate i := fun i hi => hgen ⟨i, hi⟩
      obtain ⟨reply, hreply⟩ := hr.exists_reply hblock
      obtain ⟨a, g, ha⟩ := ih reply (hrest reply)
      refine ⟨a, r.footprint ++ g, fun s => ?_⟩
      obtain ⟨s₁, hanswer⟩ := hreply (emit j.blockScript j.depthBound) s
      obtain ⟨s₂, hplay, hg⟩ := ha s₁
      refine ⟨s₂, ?_, (Request.marks_of_answer hblock hanswer).append hg⟩
      rw [play?, Script.run, hanswer]
      exact hplay

end Job

/-! ## Along a run -/

/-- The collectors of `s'` are those of `s` after some offers were made. -/
def Run.Precedes (s s' : Run) : Prop :=
  ∃ f : Footprint, f.Marks s s'

namespace Run.Precedes

variable {s s₁ s' : Run}

theorem refl (s : Run) : s.Precedes s :=
  ⟨{}, Footprint.marks_empty s⟩

theorem trans (h : s.Precedes s₁) (h' : s₁.Precedes s') : s.Precedes s' := by
  obtain ⟨f, hf⟩ := h
  obtain ⟨g, hg⟩ := h'
  exact ⟨f ++ g, hf.append hg⟩

/-- A symbol of the setup stays registered. -/
theorem contains_setups (h : s.Precedes s') {symbol : String}
    (hs : s.setups.contains symbol = true) : s'.setups.contains symbol = true := by
  obtain ⟨f, hf⟩ := h
  rw [hf.setups, Collector.contains_registerAll]
  exact Or.inl hs

/-- A declared symbol stays declared. -/
theorem contains_declarations (h : s.Precedes s') {symbol : String}
    (hs : s.declarations.contains symbol = true) : s'.declarations.contains symbol = true := by
  obtain ⟨f, hf⟩ := h
  rw [hf.declarations, Collector.contains_registerAll]
  exact Or.inl hs

theorem inStep_setups (h : s.Precedes s') (hs : s.setups.InStep) : s'.setups.InStep := by
  obtain ⟨f, hf⟩ := h
  rw [hf.setups]
  exact hs.registerAll _

theorem inStep_declarations (h : s.Precedes s') (hs : s.declarations.InStep) :
    s'.declarations.InStep := by
  obtain ⟨f, hf⟩ := h
  rw [hf.declarations]
  exact hs.registerAll _

end Run.Precedes

/-- A request that is answered without blocks marks the run with its own offer. -/
theorem Request.marks_of_plain_answer {r : Request} {s s' : Run} {reply : r.Reply}
    (h : r.answer (fun _ _ => none) s = some (reply, s')) : r.footprint.Marks s s' := by
  refine marks_of_answer ?_ h
  rintro i rfl
  cases h

theorem Request.precedes_of_answer {r : Request} {s s' : Run} {reply : r.Reply}
    (h : r.answer (fun _ _ => none) s = some (reply, s')) : s.Precedes s' :=
  ⟨r.footprint, marks_of_plain_answer h⟩

namespace Job

variable {j : Job} {α : Type} {script : Script α} {s s' : Run} {steps : List Step} {a : α}

theorem Course.precedes (h : j.Course script s steps a s') : s.Precedes s' := by
  induction h with
  | done _ s => exact .refl s
  | block _ _ ihinside ihrest => exact ihinside.trans ihrest
  | plain hanswer _ ih => exact (Request.precedes_of_answer hanswer).trans ih

/-- What the collectors hold at first, they hold at every step. -/
theorem Course.precedes_at (h : j.Course script s steps a s') :
    ∀ step ∈ steps, s.Precedes step.run := by
  induction h with
  | done => exact fun _ hstep => nomatch hstep
  | block hinside _ ihinside ihrest =>
    refine List.forall_mem_cons.mpr ⟨.refl _, List.forall_mem_append.mpr ⟨ihinside, ?_⟩⟩
    exact fun step hstep => hinside.precedes.trans (ihrest step hstep)
  | plain hanswer _ ih =>
    refine List.forall_mem_cons.mpr ⟨.refl _, fun step hstep => ?_⟩
    exact (Request.precedes_of_answer hanswer).trans (ih step hstep)

theorem precedes_of_play? (h : j.play? script s = some (a, s')) : s.Precedes s' :=
  (course_of_play? h).precedes

end Job

end BlockCompiler
