import BlockCompiler.Proofs.Generation.Course
import BlockCompiler.Proofs.Graph.Parents

/-!
# Generation comes to an end

A block asks for the code of others, and an entry point that makes the pass asks for
blocks anywhere in the graph: for those around it, and for itself if its own type is
always emitted.  `Job.Calls` relates each call to the one that it is made from, a call
being a block and the run that it is generated on.  There is no bound on levels in it.

A call down a slot lowers the height of the block, and a call out of the pass is made on a
run on which the pass has begun, which happens once.  So there is no infinite chain of calls
(`Job.wellFounded_calls`), every call takes finitely many steps to its result, and the levels
that generating is given are more than it needs (`Graph.Built.generation_ends`).
-/

namespace BlockCompiler

/-- Every walk over the graph comes to its own end: none is cut off by a bound on its steps. -/
structure Graph.WalksEnd (g : Graph) : Prop where
  chain : ∀ i < g.size, Traverses (fun k => (g.node k).next) i (g.chain i)
  ancestors : ∀ i < g.size, Traverses (fun k => (g.node k).parent) i (i :: g.ancestors i)
  descendants : ∀ i, g.Preorder (g.node i).slotTargets (g.descendants i)

theorem Graph.Built.walksEnd {g : Graph} (h : g.Built) : g.WalksEnd where
  chain _ hi := h.isForest.traverses_chain hi
  ancestors _ hi := h.traverses_ancestors hi
  descendants i := h.isForest.preorder_descendants i

/-- The code of a block is not had from the run alone. -/
theorem Request.ne_generate_of_answer {r : Request} {s s' : Run} {reply : r.Reply}
    (h : r.answer (fun _ _ => none) s = some (reply, s')) (i : NodeId) : r ≠ .generate i := by
  rintro rfl
  cases h

namespace Job

variable {j : Job} {α : Type}

/-- Played on `s`, the script gets to a request on the run `s'`.  The blocks that it asked for
before have taken their course. -/
inductive GetsTo (j : Job) {α : Type} : Script α → Run → Request → Run → Prop
  | here (r : Request) (resume : r.Reply → Script α) (s : Run) : GetsTo j (.ask r resume) s r s
  | block {i : NodeId} {resume : Code → Script α} {s s₁ s' : Run} {c : Code} {inside : List Step}
      {q : Request} (hinside : j.Course (j.blockScript i) s inside c s₁)
      (hrest : GetsTo j (resume c) s₁ q s') : GetsTo j (.ask (.generate i) resume) s q s'
  | plain {r : Request} {resume : r.Reply → Script α} {s s₁ s' : Run} {reply : r.Reply}
      {q : Request} (hanswer : r.answer (fun _ _ => none) s = some (reply, s₁))
      (hrest : GetsTo j (resume reply) s₁ q s') : GetsTo j (.ask r resume) s q s'

/-- Generating the second block on its run asks for the first one on its run. -/
def Calls (j : Job) (callee caller : NodeId × Run) : Prop :=
  j.GetsTo (j.blockScript caller.1) caller.2 (.generate callee.1) callee.2

/-- Along a course the pass, once made, stays made. -/
theorem Course.passMade {script : Script α} {s s' : Run} {steps : List Step} {a : α}
    (h : j.Course script s steps a s') (hmade : s.passMade = true) : s'.passMade = true := by
  induction h with
  | done => exact hmade
  | block _ _ ihinside ihrest => exact ihrest (ihinside hmade)
  | plain hanswer _ ih =>
    have hr := Request.ne_generate_of_answer hanswer
    exact ih ((Request.passMade_of_answer hr hanswer).1 hmade)

/-- A script that keeps to its bounds gets to requests within them, and if such a request is one of
the pass, then the pass has begun since `s₀`. -/
theorem GetsTo.permitted {P Q : Request → Prop} {script : Script α} {s₀ s s' : Run} {q : Request}
    (h : j.GetsTo script s q s') {opened : Bool} (hasks : script.Asks P Q opened)
    (hs : PassKept s₀ opened s) :
    ∃ opened', PassKept s₀ opened' s' ∧ (P q ∨ (opened' = true ∧ Q q)) := by
  induction h generalizing opened with
  | here r resume s => exact ⟨opened, hs, hasks.1⟩
  | block hinside _ ih =>
    refine ih (hasks.2 _) ?_
    show PassKept s₀ (opened || false) _
    rw [Bool.or_false]
    exact hs.trans hinside.passMade
  | plain hanswer _ ih =>
    exact ih (hasks.2 _) (hs.answer (Request.ne_generate_of_answer hanswer) hanswer)

/-- A call needs fewer levels than the one it is made from. -/
theorem Calls.depthNeeded_lt (hforest : j.graph.IsForest) {callee caller : NodeId × Run}
    (h : j.Calls callee caller) :
    j.depthNeeded callee.1 callee.2 < j.depthNeeded caller.1 caller.2 := by
  obtain ⟨opened, hkept, hpermitted⟩ :=
    h.permitted (j.asks_blockScript caller.1) (passKept_refl caller.2)
  exact Job.depthNeeded_lt hforest hkept hpermitted

/-- **There is no infinite chain of calls.** -/
theorem wellFounded_calls (h : j.graph.IsForest) : WellFounded j.Calls :=
  Subrelation.wf (fun hcall => Calls.depthNeeded_lt h hcall)
    (measure fun call : NodeId × Run => j.depthNeeded call.1 call.2).wf

/-- What a block comes to does not depend on the levels, if there are enough of them. -/
theorem emit_of_course (h : j.graph.IsForest) {i : NodeId} {s s' : Run} {steps : List Step}
    {c : Code} (hcourse : j.Course (j.blockScript i) s steps c s') {levels : Nat}
    (hlevels : j.depthNeeded i s ≤ levels) : emit j.blockScript levels i s = some (c, s') := by
  obtain ⟨c₁, s₁, hemit, -⟩ := exists_emit_of_depthNeeded_le h hlevels
  obtain ⟨-, rfl, rfl⟩ := hcourse.unique (course_of_emit hemit)
  exact hemit

end Job

/-- **Generation comes to an end**, whichever generators the types of a backend have and whichever
of its types are containers, entry points or always emitted.  There is no infinite chain of calls.
Every block, on every run, takes finitely many steps to its code; a number of levels that is bounded
by its height, and by the size of the graph while the pass is to be made, is enough for that, and
more levels change nothing.  Nor is any walk over the graph cut off on the way. -/
theorem Graph.Built.generation_ends {j : Job} (h : j.graph.Built) :
    WellFounded j.Calls ∧ j.graph.WalksEnd ∧
      ∀ (i : NodeId) (s : Run), ∃ steps c s',
        j.Course (j.blockScript i) s steps c s' ∧
        j.play? (Script.generate i) s = some (c, s') ∧
        ∀ levels, (j.graph.height i + 1 + if s.passMade then 0 else j.graph.size) ≤ levels →
          emit j.blockScript levels i s = some (c, s') := by
  refine ⟨Job.wellFounded_calls h.isForest, h.walksEnd, fun i s => ?_⟩
  obtain ⟨c, s', hplay⟩ := Job.exists_play? (j := j) h.isForest (j.blockScript i) s
  have hcourse := Job.course_of_play? hplay
  refine ⟨_, c, s', hcourse, ?_, fun levels hlevels => ?_⟩
  · rw [Job.play?_generate h.isForest]
    exact hplay
  · exact Job.emit_of_course h.isForest hcourse hlevels

/-- An entry point inside the loop of another one. -/
def entriesDraft : Draft :=
  [.node "outer" "arduino_entry", .node "inner" "arduino_entry", .setStatement 0 "LOOP" 1].foldl
    (fun d e => Draft.Edit.apply e d) {}

theorem entriesDraft_reachable : entriesDraft.Reachable :=
  Draft.reachable_of_edits rfl

/-- A backend that emits entry points always, and the graph of two of them. -/
def entriesJob : Job where
  graph := entriesDraft.toGraph
  backend := { Target.arduino.backend with alwaysEmitted := TypeSet.ofList ["arduino_entry"] }

/-- Generating the inner entry point makes the pass, in which the one around it is generated, and in
that one the inner one again; then the pass goes on to the inner one. -/
theorem Graph.Built.generation_ends_entries :
    entriesJob.graph.Built ∧ entriesJob.alwaysEmitted = [0, 1] ∧
      ∃ steps c s', entriesJob.Course (entriesJob.blockScript 1) {} steps c s' ∧
        Step.blocks steps = [0, 1, 1] ∧ emit entriesJob.blockScript 4 1 {} = some (c, s') := by
  have hbuilt : entriesJob.graph.Built := entriesDraft_reachable.built rfl
  obtain ⟨-, -, hends⟩ := Graph.Built.generation_ends (j := entriesJob) hbuilt
  obtain ⟨steps, c, s', hcourse, -, hlevels⟩ := hends 1 {}
  refine ⟨hbuilt, by decide, steps, c, s', hcourse, ?_, ?_⟩
  · obtain ⟨_, _, hplay⟩ := Job.exists_play? (j := entriesJob) hbuilt.isForest
      (entriesJob.blockScript 1) {}
    obtain ⟨rfl, -, -⟩ := hcourse.unique (Job.course_of_play? hplay)
    decide +kernel
  · have hheight : entriesJob.graph.height 1 < 2 := hbuilt.isForest.height_lt_size (by decide)
    refine hlevels 4 ?_
    show entriesJob.graph.height 1 + 1 + 2 ≤ 4
    omega

end BlockCompiler
