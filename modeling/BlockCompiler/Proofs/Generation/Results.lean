import BlockCompiler.Proofs.Generation.Depth
import BlockCompiler.Proofs.Generation.Registry

/-!
# Results that do not depend on the run

Some scripts have the same result on every run, whatever they do to the run on the way.
`Yields` says so, and is closed under the ways in which scripts are put together; the
code of an expression block is of this kind, since nothing in it is read off the run.
-/

namespace BlockCompiler.Job

variable {j : Job} {α β γ : Type}

/-- On every run the script has the result `a`. -/
def Yields (j : Job) (script : Script α) (a : α) : Prop :=
  ∀ s, ∃ s', j.play? script s = some (a, s')

theorem yields_pure (a : α) : j.Yields (pure a) a :=
  fun s => ⟨s, rfl⟩

theorem Yields.bind {script : Script α} {f : α → Script β} {a : α} {b : β}
    (h : j.Yields script a) (hf : j.Yields (f a) b) : j.Yields (script >>= f) b := by
  intro s
  obtain ⟨s', hscript⟩ := h s
  obtain ⟨s'', hrest⟩ := hf s'
  refine ⟨s'', ?_⟩
  rw [play?_bind, hscript]
  exact hrest

theorem yields_notice (n : Notice) : j.Yields (Script.notice n) () :=
  fun s => ⟨s.notice n, rfl⟩

theorem yields_declare (key text : String) : j.Yields (Script.declare key text) () :=
  fun _ => ⟨_, rfl⟩

theorem Yields.mapM {f : γ → Script β} {g : γ → β} {xs : List γ}
    (h : ∀ x ∈ xs, j.Yields (f x) (g x)) : j.Yields (xs.mapM f) (xs.map g) := by
  induction xs with
  | nil => exact yields_pure _
  | cons x rest ih =>
    rw [List.mapM_cons]
    refine (h x List.mem_cons_self).bind ?_
    refine (ih fun y hy => h y (List.mem_cons_of_mem _ hy)).bind ?_
    exact yields_pure _

theorem yields_generate (h : j.graph.IsForest) {i : NodeId} {c : Code}
    (hi : j.Yields (j.blockScript i) c) : j.Yields (Script.generate i) c := by
  intro s
  rw [play?_generate h]
  exact hi s

theorem yields_generate_of_mem {g : Graph} (h : g.IsForest) {t : Target} {i : NodeId}
    {kind : BlockKind} (hkind : ((g.node i).type, kind) ∈ t.typeKinds) {c : Code}
    (hi : Yields ⟨g, t.backend⟩ (Generator.script ⟨t, kind⟩ ⟨g, t.backend⟩ i) c) :
    Yields ⟨g, t.backend⟩ (Script.generate i) c := by
  refine yields_generate h ?_
  rw [blockScript_of_mem hkind]
  exact hi

variable {n : Node} {slot fallback : String} {outer : Order}

theorem yields_valueCode_of_none (hslot : n.values.get? slot = none) :
    j.Yields (j.valueCode n slot outer fallback) fallback := by
  refine Yields.bind (a := none) ?_ (yields_pure _)
  rw [valueCode?, hslot]
  exact yields_pure _

theorem yields_valueCode_of_some {c : NodeId} {text : String} {inner : Order}
    (hslot : n.values.get? slot = some c)
    (hc : j.Yields (Script.generate c) (.expression text inner)) (hne : text.isEmpty = false) :
    j.Yields (j.valueCode n slot outer fallback) (parenthesize text inner outer) := by
  refine Yields.bind (a := some (parenthesize text inner outer)) ?_ (yields_pure _)
  rw [valueCode?, hslot]
  refine hc.bind ?_
  simp only [hne, Bool.false_eq_true, if_false]
  exact yields_pure _

end BlockCompiler.Job
