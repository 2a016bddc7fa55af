import BlockCompiler.Proofs.Generation.Results
import BlockCompiler.Proofs.Graph.Surroundings

/-!
# Loop exits

A loop exit goes up the nodes around it until it meets a loop, and gives up at the first
node that bounds a routine.  The nodes that such a walk passes before it gets to a node
are the ones in between: they lie inside that node, and the exit lies inside them
(`Graph.Built.mem_inner_iff`).  So what the walk finds on its way can be said without it:
some loop holds the exit, with no container in between
(`Graph.Built.isSome_enclosingWithin?_iff`).

From this follows when a loop exit turns into its statement; in any other place below a
container it turns into a comment (`Graph.Built.exit_in_loop`).
-/

namespace BlockCompiler

namespace Graph

variable {g : Graph} {types : List String} {bounds : TypeSet}

/-- Of some nodes, one of the types is found iff none that bounds a routine comes before it. -/
theorem isSome_firstWithin?_iff {nodes : List NodeId} :
    (g.firstWithin? types bounds nodes).isSome = true ↔
      ∃ inner l outer, nodes = inner ++ l :: outer ∧ (g.node l).type ∈ types ∧
        ∀ c ∈ inner, bounds.contains (g.node c).type = false := by
  induction nodes with
  | nil =>
    constructor
    · intro h
      cases h
    · rintro ⟨inner, l, outer, hsplit, -⟩
      simp at hsplit
  | cons a rest ih =>
    rw [firstWithin?]
    -- The types are looked at before the bounds, so a node that is both is found.
    by_cases htype : types.contains (g.node a).type = true
    · rw [if_pos htype]
      have hnone : ∀ c ∈ ([] : List NodeId), bounds.contains (g.node c).type = false := by simp
      exact iff_of_true rfl ⟨[], a, rest, rfl, List.contains_iff_mem.mp htype, hnone⟩
    · rw [if_neg htype]
      by_cases hbound : bounds.contains (g.node a).type = true
      · rw [if_pos hbound]
        refine iff_of_false Bool.false_ne_true ?_
        rintro ⟨inner, l, outer, hsplit, hl, hinner⟩
        cases inner with
        | nil =>
          obtain ⟨rfl, -⟩ := List.cons.inj hsplit
          exact htype (List.contains_iff_mem.mpr hl)
        | cons b inner =>
          obtain ⟨rfl, -⟩ := List.cons.inj hsplit
          rw [hinner a List.mem_cons_self] at hbound
          cases hbound
      · rw [if_neg hbound, ih]
        constructor
        · rintro ⟨inner, l, outer, rfl, hl, hinner⟩
          refine ⟨a :: inner, l, outer, rfl, hl, ?_⟩
          exact List.forall_mem_cons.mpr ⟨Bool.eq_false_iff.mpr hbound, hinner⟩
        · rintro ⟨inner, l, outer, hsplit, hl, hinner⟩
          cases inner with
          | nil =>
            obtain ⟨rfl, -⟩ := List.cons.inj hsplit
            exact absurd (List.contains_iff_mem.mpr hl) htype
          | cons b inner =>
            obtain ⟨rfl, rfl⟩ := List.cons.inj hsplit
            exact ⟨inner, l, outer, rfl, hl, (List.forall_mem_cons.mp hinner).2⟩

namespace Built

/-- What the way up passes before it gets to a node lies in between. -/
theorem mem_inner_iff (h : g.Built) {m l c : NodeId} {inner outer : List NodeId}
    (hsplit : g.ancestors m = inner ++ l :: outer) :
    c ∈ inner ↔ c ∈ g.descendants l ∧ m ∈ g.descendants c := by
  have hafter : g.ancestors l = outer := h.ancestors_of_split hsplit
  constructor
  · intro hc
    obtain ⟨before, after, rfl⟩ := List.append_of_mem hc
    rw [List.append_assoc, List.cons_append] at hsplit
    have haround : g.ancestors c = after ++ l :: outer := h.ancestors_of_split hsplit
    rw [h.mem_descendants_iff_mem_ancestors, h.mem_descendants_iff_mem_ancestors, haround, hsplit]
    exact ⟨by simp, by simp⟩
  · rintro ⟨hlc, hcm⟩
    rw [h.mem_descendants_iff_mem_ancestors, hsplit] at hcm
    rcases List.mem_append.mp hcm with hinner | houter
    · exact hinner
    · -- The node itself and the nodes around it are not inside it.
      rcases List.mem_cons.mp houter with rfl | houter
      · exact absurd hlc (h.not_mem_descendants_of_mem hlc)
      · rw [← hafter, ← h.mem_descendants_iff_mem_ancestors] at houter
        exact absurd houter (h.not_mem_descendants_of_mem hlc)

/-- **A walk up within the routine finds a node iff there is one with no bound in between.** -/
theorem isSome_enclosingWithin?_iff (h : g.Built) {m : NodeId} :
    (g.enclosingWithin? types bounds m).isSome = true ↔
      ∃ l, (g.node l).type ∈ types ∧ m ∈ g.descendants l ∧
        ¬ ∃ c, bounds.contains (g.node c).type = true ∧ c ∈ g.descendants l ∧
          m ∈ g.descendants c := by
  rw [enclosingWithin?, isSome_firstWithin?_iff]
  constructor
  · rintro ⟨inner, l, outer, hsplit, hl, hinner⟩
    refine ⟨l, hl, ?_, ?_⟩
    · rw [h.mem_descendants_iff_mem_ancestors, hsplit]
      simp
    · rintro ⟨c, hbound, hbetween⟩
      rw [hinner c ((h.mem_inner_iff hsplit).mpr hbetween)] at hbound
      cases hbound
  · rintro ⟨l, hl, hm, hnone⟩
    obtain ⟨inner, outer, hsplit⟩ :=
      List.append_of_mem (h.mem_descendants_iff_mem_ancestors.mp hm)
    refine ⟨inner, l, outer, hsplit, hl, fun c hc => ?_⟩
    by_contra hbound
    exact hnone ⟨c, Bool.eq_true_of_not_eq_false hbound, (h.mem_inner_iff hsplit).mp hc⟩

end Built

end Graph

/-! ## The code of a loop exit -/

/-- The text has lines, and each of them is a comment. -/
def Formatting.IsComment (f : Formatting) (text : String) : Prop :=
  Text.lines text ≠ [] ∧ ∀ line ∈ Text.lines text, f.commentMark.toList <+: line.toList

/-- The word for what a loop exit does. -/
def Blocks.exitWord (n : Node) : String :=
  if n.fieldOr "FLOW" "BREAK" = "CONTINUE" then "continue" else "break"

namespace Job

variable {g : Graph} {t : Target} {i : NodeId}

theorem yields_loopExit (n : Node) :
    Yields ⟨g, t.backend⟩ (Blocks.loopExit ⟨g, t.backend⟩ i n)
      (.statement (if standsInLoop ⟨g, t.backend⟩ i then t.formatting.line (Blocks.exitWord n)
        else t.formatting.comment (Blocks.exitWord n ++ " outside of a loop"))) := by
  unfold Blocks.loopExit
  cases standsInLoop ⟨g, t.backend⟩ i with
  | true => exact yields_pure _
  | false => exact (yields_notice _).bind (yields_pure _)

theorem yields_guarded {script : Script Code} {c : Code} {j : Job}
    (hinside : j.graph.isInside j.backend.containers i = true) (h : j.Yields script c) :
    j.Yields (j.guarded i script) c := by
  unfold guarded standsInContainer
  rw [hinside]
  exact h

end Job

namespace Graph

variable {g : Graph}

/-- The comment that takes the place of a loop exit is no statement. -/
theorem isComment_exit (t : Target) (n : Node) :
    t.formatting.comment (Blocks.exitWord n ++ " outside of a loop") ≠
        t.formatting.line (Blocks.exitWord n) ∧
      t.formatting.IsComment
        (t.formatting.comment (Blocks.exitWord n ++ " outside of a loop")) := by
  unfold Blocks.exitWord Formatting.IsComment
  split <;> cases t <;> decide

/-- **A loop is left only from inside.**  A loop exit below a container turns into its statement
iff some loop holds it with no container in between.  Otherwise it turns into a comment. -/
theorem Built.exit_in_loop (h : g.Built) (t : Target) {i : NodeId}
    (htype : (g.node i).type = "controls_flow_statements")
    (hinside : ∃ c, t.backend.containers.contains (g.node c).type = true ∧
      i ∈ g.descendants c) :
    ∃ text, Job.Yields ⟨g, t.backend⟩ (Script.generate i) (.statement text) ∧
      (text = t.formatting.line (Blocks.exitWord (g.node i)) ↔
        ∃ l, (g.node l).type ∈ loopTypes ∧ i ∈ g.descendants l ∧
          ¬ ∃ c, t.backend.containers.contains (g.node c).type = true ∧ c ∈ g.descendants l ∧
            i ∈ g.descendants c) ∧
      (text ≠ t.formatting.line (Blocks.exitWord (g.node i)) → t.formatting.IsComment text) := by
  have hkind : ((g.node i).type, BlockKind.loopExit) ∈ t.typeKinds := by
    rw [htype]
    cases t <;> decide
  obtain ⟨hne, hcomment⟩ := isComment_exit t (g.node i)
  refine ⟨_, Job.yields_generate_of_mem h.isForest hkind
    (Job.yields_guarded (h.isInside_iff_exists.mpr hinside) (Job.yields_loopExit _)), ?_⟩
  rw [← h.isSome_enclosingWithin?_iff]
  show (_ ↔ Job.standsInLoop ⟨g, t.backend⟩ i = true) ∧ _
  by_cases hloop : Job.standsInLoop ⟨g, t.backend⟩ i = true
  · rw [if_pos hloop]
    exact ⟨iff_of_true rfl hloop, fun hnot => absurd rfl hnot⟩
  · rw [if_neg hloop]
    exact ⟨iff_of_false hne hloop, fun _ => hcomment⟩

/-- A loop that holds a procedure and, after it, a conditional.  There is a loop exit in each of
them. -/
def exitsDraft : Draft :=
  [.node "main" "arduino_entry", .node "round" "controls_repeat_ext",
    .node "helper" "procedures_defnoreturn", .node "early" "controls_flow_statements",
    .node "test" "controls_if", .node "next" "controls_flow_statements",
    .setStatement 0 "LOOP" 1, .setBody 1 "DO" [2, 4], .setStatement 2 "STACK" 3,
    .setStatement 4 "DO0" 5, .setField 5 "FLOW" "CONTINUE"].foldl
    (fun d e => Draft.Edit.apply e d) {}

theorem exitsDraft_reachable : exitsDraft.Reachable :=
  Draft.reachable_of_edits rfl

/-- The exit in the procedure is no exit of the loop around the procedure; the one in the
conditional is. -/
theorem Built.exit_in_loop_exits :
    exitsDraft.toGraph.Built ∧
      (∃ text, Job.Yields ⟨exitsDraft.toGraph, Target.arduino.backend⟩ (Script.generate 3)
        (.statement text) ∧ Target.arduino.formatting.IsComment text) ∧
      Job.Yields ⟨exitsDraft.toGraph, Target.arduino.backend⟩ (Script.generate 5)
        (.statement "continue;\n") := by
  have hbuilt := exitsDraft_reachable.built (g := exitsDraft.toGraph) rfl
  refine ⟨hbuilt, ?_, ?_⟩
  · obtain ⟨text, hyields, hloop, hcomment⟩ :=
      hbuilt.exit_in_loop .arduino (i := 3) rfl ⟨2, by decide, by decide⟩
    refine ⟨text, hyields, hcomment fun heq => ?_⟩
    -- The one loop around the exit has the procedure in between.
    obtain ⟨l, htype, hl, hnone⟩ := hloop.mp heq
    have honly : ∀ l ∈ [0, 1, 2], (exitsDraft.toGraph.node l).type ∈ loopTypes → l = 1 := by
      decide
    have haround : l ∈ exitsDraft.toGraph.ancestors 3 :=
      hbuilt.mem_descendants_iff_mem_ancestors.mp hl
    have hlisted : ∀ l ∈ exitsDraft.toGraph.ancestors 3, l ∈ [0, 1, 2] := by
      decide
    obtain rfl := honly l (hlisted l haround) htype
    exact hnone ⟨2, by decide, by decide, by decide⟩
  · obtain ⟨text, hyields, hloop, -⟩ :=
      hbuilt.exit_in_loop .arduino (i := 5) rfl ⟨0, by decide, by decide⟩
    have hnone : ¬ ∃ c, Target.arduino.backend.containers.contains
        (exitsDraft.toGraph.node c).type = true ∧ c ∈ exitsDraft.toGraph.descendants 1 ∧
          5 ∈ exitsDraft.toGraph.descendants c := by
      rintro ⟨c, hcontainer, hc, hinside⟩
      have hbetween : ∀ c ∈ exitsDraft.toGraph.descendants 1,
          5 ∈ exitsDraft.toGraph.descendants c →
            Target.arduino.backend.containers.contains
              (exitsDraft.toGraph.node c).type = false := by
        decide
      rw [hbetween c hc hinside] at hcontainer
      cases hcontainer
    rw [hloop.mpr ⟨1, by decide, by decide, hnone⟩] at hyields
    exact hyields

end Graph

end BlockCompiler
