import BlockCompiler.Proofs.Generation.Blocks

/-!
# The depth of generation

Blocks are generated inside each other, and `play?` allows only so many levels of
that.  In a forest the levels never run out.  A block asks for blocks below it, so
heights decrease on the way down; the pass over the always-emitted blocks starts
again from anywhere in the graph, but it is made once, so a way down changes over to
it at most once.  Hence `depthNeeded`: the height of the block, and the size of the
graph on top while the pass is still to be made.

Since every script has a result (`exists_play?`), the bound can be forgotten: the
code of a block is the result of its script, where other blocks are asked for at the
same bound (`play?_generate`).
-/

namespace BlockCompiler

namespace Request

/-- The pass, once made, stays made. -/
theorem passMade_of_answer {code : NodeId → Run → Option (Code × Run)} {r : Request} {s s' : Run}
    {reply : r.Reply} (hr : ∀ i, r ≠ .generate i) (h : r.answer code s = some (reply, s')) :
    (s.passMade = true → s'.passMade = true) ∧
      (r.opens reply = true → s.passMade = false ∧ s'.passMade = true) := by
  cases r with
  | generate i => exact absurd rfl (hr i)
  | beginPass =>
    cases h
    exact ⟨fun _ => rfl, fun hopens => ⟨by simpa [opens] using hopens, rfl⟩⟩
  | setupBeside | enterProgram =>
    cases h
    exact ⟨fun hs => by simpa using hs, fun hopens => by simp [opens] at hopens⟩
  | declare | setup | report | notice | setupLines =>
    cases h
    exact ⟨id, fun hopens => by simp [opens] at hopens⟩

/-- Only the code of a block can fail to be had. -/
theorem exists_answer (code : NodeId → Run → Option (Code × Run)) {r : Request}
    (hr : ∀ i, r ≠ .generate i) (s : Run) : ∃ reply s', r.answer code s = some (reply, s') := by
  cases r with
  | generate i => exact absurd rfl (hr i)
  | _ => exact ⟨_, _, rfl⟩

end Request

namespace Job

variable {j : Job}

/-- The levels that generating a block on a run may take. -/
noncomputable def depthNeeded (j : Job) (i : NodeId) (s : Run) : Nat :=
  j.graph.height i + 1 + if s.passMade then 0 else j.graph.size

theorem depthNeeded_le_depthBound (j : Job) (i : NodeId) (s : Run) :
    j.depthNeeded i s ≤ j.depthBound := by
  have hheight := j.graph.height_le_size i
  unfold depthNeeded depthBound
  split <;> omega

/-- What holds of the run `s'` while the script of a block is played that began on `s`. -/
def PassKept (s : Run) (opened : Bool) (s' : Run) : Prop :=
  (s.passMade = true → s'.passMade = true) ∧
    (opened = true → s.passMade = false ∧ s'.passMade = true)

theorem passKept_refl (s : Run) : PassKept s false s :=
  ⟨id, fun hopened => absurd hopened Bool.false_ne_true⟩

/-- The pass stays made while another block is generated. -/
theorem PassKept.trans {s s' s'' : Run} {opened : Bool} (h : PassKept s opened s')
    (hkept : s'.passMade = true → s''.passMade = true) : PassKept s opened s'' :=
  ⟨fun hmade => hkept (h.1 hmade), fun hopened => ⟨(h.2 hopened).1, hkept (h.2 hopened).2⟩⟩

theorem PassKept.answer {code : NodeId → Run → Option (Code × Run)} {s s' s'' : Run}
    {opened : Bool} (h : PassKept s opened s') {r : Request} {reply : r.Reply}
    (hr : ∀ i, r ≠ .generate i) (hreply : r.answer code s' = some (reply, s'')) :
    PassKept s (opened || r.opens reply) s'' := by
  obtain ⟨hkept, hopens⟩ := Request.passMade_of_answer hr hreply
  refine ⟨fun hmade => hkept (h.1 hmade), fun hopened => ?_⟩
  rcases Bool.or_eq_true_iff.mp hopened with hbefore | hnow
  · exact ⟨(h.2 hbefore).1, hkept (h.2 hbefore).2⟩
  · obtain ⟨hmade', hmade''⟩ := hopens hnow
    -- The pass had not been made just before, so it had not at the beginning.
    refine ⟨?_, hmade''⟩
    by_contra hmade
    rw [h.1 (by simpa using hmade)] at hmade'
    cases hmade'

/-- The blocks that the script of a block asks for need fewer levels than it. -/
theorem depthNeeded_lt (h : j.graph.IsForest) {i c : NodeId} {s s' : Run} {opened : Bool}
    (hs : PassKept s opened s')
    (hc : j.Permits i (.generate c) ∨ (opened = true ∧ j.InPass (.generate c))) :
    j.depthNeeded c s' < j.depthNeeded i s := by
  unfold depthNeeded
  rcases hc with hc | ⟨ho, hc⟩
  · -- Down a slot the height decreases, and the pass can only have been made meanwhile.
    have hlt := h.height_lt (contains_of_permits hc).transGen
    by_cases hmade : s.passMade = true
    · simp [hmade, hs.1 hmade, hlt]
    · have hle : (if s'.passMade then 0 else j.graph.size) ≤ j.graph.size := by
        split <;> omega
      rw [if_neg hmade]
      omega
  · -- Into the pass: the size of the graph, counted until then, is above every height.
    obtain ⟨hmade, hmade'⟩ := hs.2 ho
    have hlt : j.graph.height c < j.graph.size :=
      h.height_lt_size (List.mem_range.mp (List.mem_filter.mp hc).1)
    simp only [hmade, hmade', Bool.false_eq_true, if_true, if_false]
    omega

theorem exists_emit_of_depthNeeded_le (h : j.graph.IsForest) {fuel : Nat} {i : NodeId} {s : Run}
    (hfuel : j.depthNeeded i s ≤ fuel) :
    ∃ c s', emit j.blockScript fuel i s = some (c, s') ∧
      (s.passMade = true → s'.passMade = true) := by
  induction fuel generalizing i s with
  | zero => simp [depthNeeded] at hfuel
  | succ fuel ih =>
    -- While the script is played, `PassKept s` relates each run to the one that it began on.
    have hstep : ∀ opened (r : Request) s',
        (j.Permits i r ∨ (opened = true ∧ j.InPass r)) → PassKept s opened s' →
          ∃ reply s'', r.answer (emit j.blockScript fuel) s' = some (reply, s'') ∧
            PassKept s (opened || r.opens reply) s'' := by
      intro opened r s' hr hs'
      by_cases hgen : ∃ c, r = .generate c
      · obtain ⟨c, rfl⟩ := hgen
        have hlt := depthNeeded_lt h hs' hr
        obtain ⟨code, s'', hcode, hkept⟩ := ih (Nat.le_of_lt_succ (Nat.lt_of_lt_of_le hlt hfuel))
        refine ⟨code, s'', hcode, ?_⟩
        show PassKept s (opened || false) s''
        rw [Bool.or_false]
        exact hs'.trans hkept
      · have hgen' : ∀ c, r ≠ .generate c := fun c hc => hgen ⟨c, hc⟩
        obtain ⟨reply, s'', hreply⟩ := r.exists_answer (emit j.blockScript fuel) hgen' s'
        exact ⟨reply, s'', hreply, hs'.answer hgen' hreply⟩
    obtain ⟨c, s', _, hrun, hkept, -⟩ :=
      (j.asks_blockScript i).exists_run hstep (passKept_refl s)
    exact ⟨c, s', hrun, hkept⟩

/-- **Every block has code**, on every run. -/
theorem exists_emit (h : j.graph.IsForest) (i : NodeId) (s : Run) :
    ∃ c s', emit j.blockScript j.depthBound i s = some (c, s') := by
  obtain ⟨c, s', hemit, -⟩ := exists_emit_of_depthNeeded_le h (j.depthNeeded_le_depthBound i s)
  exact ⟨c, s', hemit⟩

variable {α β : Type}

theorem exists_play? (h : j.graph.IsForest) (script : Script α) (s : Run) :
    ∃ a s', j.play? script s = some (a, s') := by
  induction script generalizing s with
  | done a => exact ⟨a, s, rfl⟩
  | ask r resume ih =>
    have hreply : ∃ reply after,
        r.answer (emit j.blockScript j.depthBound) s = some (reply, after) := by
      by_cases hgen : ∃ c, r = .generate c
      · obtain ⟨c, rfl⟩ := hgen
        exact exists_emit h c s
      · exact r.exists_answer _ (fun c hc => hgen ⟨c, hc⟩) s
    obtain ⟨reply, after, hreply⟩ := hreply
    obtain ⟨a, s', hrest⟩ := ih reply after
    refine ⟨a, s', ?_⟩
    rw [play?, Script.run, hreply]
    exact hrest

theorem play?_eq_some_play [Inhabited α] (h : j.graph.IsForest) (script : Script α) (s : Run) :
    j.play? script s = some (j.play script s) := by
  obtain ⟨a, s', hplay⟩ := exists_play? h script s
  rw [play, hplay]
  rfl

theorem play?_bind (script : Script α) (f : α → Script β) (s : Run) :
    j.play? (script >>= f) s = (j.play? script s).bind fun r => j.play? (f r.1) r.2 :=
  Script.run_bind script f s

/-- A compilation makes its product of what the script for the sections comes to. -/
theorem compileRun_eq (j : Job) (options : Options) :
    j.compileRun options = j.finish options (j.play (j.sections options) {}).1
      (j.play (j.sections options) {}).2 := by
  have hcode : (j.sections options).run (emit j.blockScript j.depthBound) {} =
      j.play? (j.sections options) {} := rfl
  rw [compileRun, compileBy, hcode, play]
  cases j.play? (j.sections options) {} <;> rfl

theorem compileRun_of_play? {options : Options} {sections : List (NodeId × String)} {s : Run}
    (h : j.play? (j.sections options) {} = some (sections, s)) :
    j.compileRun options = j.finish options sections s := by
  rw [compileRun_eq, play, h]
  rfl

/-- The code of a block is the result of its script. -/
theorem play?_generate (h : j.graph.IsForest) (i : NodeId) (s : Run) :
    j.play? (Script.generate i) s = j.play? (j.blockScript i) s := by
  obtain ⟨c, s', hemit⟩ := exists_emit h i s
  have hgenerate : j.play? (Script.generate i) s = some (c, s') := by
    show (emit j.blockScript j.depthBound i s).bind (fun r => some (r.1, r.2)) = _
    rw [hemit]
    rfl
  rw [hgenerate]
  exact (emit_succ hemit).symm

end Job

end BlockCompiler
