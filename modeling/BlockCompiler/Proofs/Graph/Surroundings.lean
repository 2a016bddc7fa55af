import BlockCompiler.Proofs.Graph.Parents

/-!
# What is around a node and what is inside it

The nodes inside a node are found by a walk down its slots, the nodes around a node by
following the parents that building has filled in.  The two are inverse to each other:
a node is listed inside another one iff that one is listed around it
(`Built.mem_descendants_iff_mem_ancestors`).

Hence a node stands inside a container of given types iff it is among the nodes inside
some node of these types.  Of several such nodes each is inside the next one, and the
one that is found as the enclosing container is the innermost of them
(`Built.enclosing?_eq_some_iff`).
-/

namespace BlockCompiler

open Relation

namespace Graph

variable {g : Graph}

namespace Built

/-- **Down and up are inverse.** -/
theorem mem_descendants_iff_mem_ancestors (h : g.Built) {a m : NodeId} :
    m ∈ g.descendants a ↔ a ∈ g.ancestors m := by
  have hparent : StepsTo (fun k => (g.node k).parent) = g.Contains := by
    funext o m
    exact propext h.parent_eq_some_iff
  rw [h.isForest.mem_descendants_iff, ancestors, ancestorsFrom_eq_ascend,
    mem_ascend_iff h.within_parent h.acyclic_parent, hparent]

theorem not_mem_descendants_of_mem (h : g.Built) {a m : NodeId} (hm : m ∈ g.descendants a) :
    a ∉ g.descendants m := by
  intro ha
  rw [h.isForest.mem_descendants_iff] at hm ha
  refine h.isForest.acyclic a ?_
  have hcircle : TransGen g.Contains a a := hm.trans ha
  rw [transGen_contains_iff] at hcircle
  obtain ⟨t, ht, hreach⟩ := hcircle
  obtain ⟨p, -, hp⟩ := Node.mem_slotTargets_iff.mp ht
  exact TransGen.head' ⟨p, hp⟩ hreach

/-- What is listed after a node around another one is what is around that node. -/
theorem ancestors_of_split (h : g.Built) {m c : NodeId} {inner outer : List NodeId}
    (hsplit : g.ancestors m = inner ++ c :: outer) : g.ancestors c = outer := by
  induction inner generalizing m with
  | nil =>
    cases hp : (g.node m).parent with
    | none =>
      rw [ancestors_eq_nil hp] at hsplit
      cases hsplit
    | some p =>
      rw [h.ancestors_eq_cons hp] at hsplit
      obtain ⟨rfl, hrest⟩ := List.cons.inj hsplit
      exact hrest
  | cons i inner ih =>
    cases hp : (g.node m).parent with
    | none =>
      rw [ancestors_eq_nil hp] at hsplit
      cases hsplit
    | some p =>
      rw [h.ancestors_eq_cons hp] at hsplit
      exact ih (List.cons.inj hsplit).2

theorem isInside_iff_exists (h : g.Built) {allowed : TypeSet} {m : NodeId} :
    g.isInside allowed m = true ↔
      ∃ c, allowed.contains (g.node c).type = true ∧ m ∈ g.descendants c := by
  rw [isInside, enclosing?, List.find?_isSome]
  simp only [h.mem_descendants_iff_mem_ancestors]
  exact exists_congr fun c => and_comm

/-- The enclosing container is around the node, and every other node of the types that is around the
node is around that container. -/
theorem outer_of_enclosing? (h : g.Built) {allowed : TypeSet} {m c : NodeId}
    (hfind : g.enclosing? allowed m = some c) :
    (allowed.contains (g.node c).type = true ∧ m ∈ g.descendants c) ∧
      ∀ c', allowed.contains (g.node c').type = true → m ∈ g.descendants c' →
        c' = c ∨ c ∈ g.descendants c' := by
  obtain ⟨hallowed, inner, outer, hsplit, hinner⟩ := List.find?_eq_some_iff_append.mp hfind
  have hmem : c ∈ g.ancestors m := by
    rw [hsplit]
    exact List.mem_append_right _ List.mem_cons_self
  refine ⟨⟨hallowed, h.mem_descendants_iff_mem_ancestors.mpr hmem⟩, fun c' hallowed' hm => ?_⟩
  rw [h.mem_descendants_iff_mem_ancestors, hsplit] at hm
  rcases List.mem_append.mp hm with hin | hout
  · have hnot := hinner c' hin
    rw [hallowed'] at hnot
    cases hnot
  · rcases List.mem_cons.mp hout with heq | hout
    · exact Or.inl heq
    · rw [← h.ancestors_of_split hsplit] at hout
      exact Or.inr (h.mem_descendants_iff_mem_ancestors.mpr hout)

/-- **The enclosing container is the innermost one.** -/
theorem enclosing?_eq_some_iff (h : g.Built) {allowed : TypeSet} {m c : NodeId} :
    g.enclosing? allowed m = some c ↔
      (allowed.contains (g.node c).type = true ∧ m ∈ g.descendants c) ∧
        ∀ c', allowed.contains (g.node c').type = true → m ∈ g.descendants c' →
          c' ∉ g.descendants c := by
  constructor
  · intro hfind
    obtain ⟨hc, houter⟩ := h.outer_of_enclosing? hfind
    refine ⟨hc, fun c' hallowed hm => ?_⟩
    rcases houter c' hallowed hm with rfl | hinside
    · exact fun hself => h.not_mem_descendants_of_mem hself hself
    · exact h.not_mem_descendants_of_mem hinside
  · rintro ⟨⟨hallowed, hm⟩, hinnermost⟩
    have hinside := h.isInside_iff_exists.mpr ⟨c, hallowed, hm⟩
    obtain ⟨found, hfind⟩ := Option.isSome_iff_exists.mp hinside
    obtain ⟨⟨hallowed', hm'⟩, houter⟩ := h.outer_of_enclosing? hfind
    rcases houter c hallowed hm with rfl | hbelow
    · exact hfind
    · exact absurd hbelow (hinnermost found hallowed' hm')

/-- **Inside and around.**  The nodes inside a node are listed once each, in the order of the
recursive listing of its slots, and they are the nodes that it is around.  So a node stands inside a
container of given types iff some node of these types has it among the nodes inside, and the
enclosing container is the one such node that has no other such node inside. -/
theorem inside_around (h : g.Built) :
    (∀ a, (g.descendants a).Nodup ∧
      (∀ listed, g.Preorder (g.node a).slotTargets listed ↔ listed = g.descendants a) ∧
      ∀ m, m ∈ g.descendants a ↔ a ∈ g.ancestors m) ∧
    ∀ (allowed : TypeSet) (m : NodeId),
      (g.isInside allowed m = true ↔
        ∃ c, allowed.contains (g.node c).type = true ∧ m ∈ g.descendants c) ∧
      ∀ c, g.enclosing? allowed m = some c ↔
        (allowed.contains (g.node c).type = true ∧ m ∈ g.descendants c) ∧
          ∀ c', allowed.contains (g.node c').type = true → m ∈ g.descendants c' →
            c' ∉ g.descendants c := by
  refine ⟨fun a => ⟨h.isForest.nodup_descendants a, fun listed => ⟨fun hlisted => ?_, ?_⟩,
    fun m => h.mem_descendants_iff_mem_ancestors⟩,
    fun allowed m => ⟨h.isInside_iff_exists, fun c => h.enclosing?_eq_some_iff⟩⟩
  · exact hlisted.unique (h.isForest.preorder_descendants a)
  · rintro rfl
    exact h.isForest.preorder_descendants a

/-- A loop inside a loop inside an entry point, with a block after the inner loop. -/
def loopsDraft : Draft :=
  [.root "A" "arduino_entry", .node "B" "controls_repeat_ext", .node "C" "controls_repeat_ext",
    .node "D" "math_number", .node "E" "time_delay", .setStatement 0 "LOOP" 1,
    .setStatement 1 "DO" 2, .setValue 2 "TIMES" 3, .setNext 2 4].foldl
      (fun d e => Draft.Edit.apply e d) {}

theorem loopsDraft_reachable : loopsDraft.Reachable :=
  Draft.reachable_of_edits rfl

/-- The outer loop lists the inner one, what is in it and what comes after it; the number in the
inner loop has that one as the nearest loop around it. -/
theorem inside_around_loops :
    loopsDraft.toGraph.Built ∧
      loopsDraft.toGraph.Preorder [2] [2, 3, 4] ∧
      loopsDraft.toGraph.enclosing? (.ofList ["controls_repeat_ext"]) 3 = some 2 := by
  have hbuilt := loopsDraft_reachable.built (g := loopsDraft.toGraph) rfl
  have hwalks := inside_around hbuilt
  refine ⟨hbuilt, ((hwalks.1 1).2.1 [2, 3, 4]).mpr rfl, ((hwalks.2 _ 3).2 2).mpr ?_⟩
  refine ⟨by decide, fun c' _ hm hinner => ?_⟩
  obtain rfl : c' = 3 := List.mem_singleton.mp hinner
  exact absurd hm (by decide)

end Built

end Graph

end BlockCompiler
