import BlockCompiler.Proofs.Graph.Descent

/-!
# The assignment of parents

When a graph is built, every slot is followed along the sequence in it, and each node
met on the way is assigned the owner of the slot.  The assignments are collected in a
list (`Draft.containment`) and then made one after the other.

In a forest no node is met twice, so no assignment meets an entry that is filled
already, and their order does not matter.  A node is met iff its sequence begins in a
slot and not at a root.  Both the way along a sequence and the way up the parents come
to an end on their own (`Traverses`), before the bound on their steps is reached.
-/

namespace BlockCompiler

open Relation

namespace Draft

variable {d : Draft}

theorem targets_containment (d : Draft) :
    d.containment.map (·.target) =
      d.ids.flatMap fun i => (d.node i).slotTargets.flatMap d.toGraph.chain := by
  simp [containment, List.map_flatMap, Function.comp_def, Graph.chainFrom_draft]

theorem contains_of_mem_slotChain {o m : NodeId}
    (h : m ∈ (d.node o).slotTargets.flatMap d.toGraph.chain) : d.toGraph.Contains o m := by
  obtain ⟨head, hhead, hm⟩ := List.mem_flatMap.mp h
  obtain ⟨p, hp, hslot⟩ := Node.mem_slotTargets_iff.mp hhead
  rw [← d.target?_toGraph] at hslot
  exact Graph.contains_of_mem_chain hp hslot hm

/-- The sequences in two slots of a node have no node in common. -/
theorem disjoint_slotChains (h : d.toGraph.IsForest) {o head head' : NodeId}
    (hhead : head ∈ (d.node o).slotTargets) (hhead' : head' ∈ (d.node o).slotTargets)
    (hne : head ≠ head') : List.Disjoint (d.toGraph.chain head) (d.toGraph.chain head') := by
  intro m hm hm'
  obtain ⟨p, hp, hslot⟩ := Node.mem_slotTargets_iff.mp hhead
  obtain ⟨p', hp', hslot'⟩ := Node.mem_slotTargets_iff.mp hhead'
  rw [← d.target?_toGraph] at hslot hslot'
  obtain ⟨-, rfl⟩ := h.slot_unique hp hp' hslot hslot' (Graph.reflTransGen_of_mem_chain hm)
    (Graph.reflTransGen_of_mem_chain hm')
  exact hne (Option.some.inj (hslot.symm.trans hslot'))

/-- **No node is assigned a parent twice.** -/
theorem nodup_targets_containment (h : d.toGraph.IsForest) :
    (d.containment.map (·.target)).Nodup := by
  rw [targets_containment]
  refine List.nodup_flatMap.mpr ⟨fun i _ => ?_, List.nodup_range.imp ?_⟩
  · refine List.nodup_flatMap.mpr ⟨fun head _ => h.nodup_chain head, ?_⟩
    have hsep := h.separate_slotTargets i
    have hslots : (d.toGraph.node i).slotTargets = (d.node i).slotTargets := by
      rw [d.node_toGraph]
      rfl
    rw [hslots] at hsep
    refine hsep.apart.imp_of_mem fun hhead hhead' hapart => disjoint_slotChains h hhead hhead' ?_
    rintro rfl
    exact hapart.1 .refl
  · intro i k hne m hm hm'
    exact hne (h.contains_unique (contains_of_mem_slotChain hm) (contains_of_mem_slotChain hm'))

/-- An assignment is made where none was made before. -/
theorem ownerIn_before_eq_none (h : d.toGraph.IsForest) {before after : List Link} {l : Link}
    (hsplit : d.containment = before ++ l :: after) :
    ownerIn (ownerTable d.size before) l.target = none := by
  have hcontains : d.toGraph.Contains l.owner l.target := by
    refine (Graph.mem_containment_iff h).mp ?_
    rw [hsplit]
    exact List.mem_append_right _ List.mem_cons_self
  have hlt : l.target < d.size := d.size_toGraph ▸ (h.lt_size_of_contains hcontains).2
  have hnodup := nodup_targets_containment h
  rw [hsplit, List.map_append, List.map_cons] at hnodup
  refine (ownerIn_ownerTable_eq_none_iff hlt).mpr fun l' hl' heq => ?_
  exact (List.disjoint_of_nodup_append hnodup) (List.mem_map_of_mem hl')
    (heq ▸ List.mem_cons_self)

end Draft

namespace Graph

variable {g : Graph}

/-- A sequence is followed to its end. -/
theorem IsForest.traverses_chain (h : g.IsForest) {head : NodeId} (hhead : head < g.size) :
    Traverses (fun k => (g.node k).next) head (g.chain head) := by
  have hno := (acyclic_iff_not_mem_ascend h.within_next).mp h.acyclic_next
  rw [chain, h.chainFrom_eq_cons hhead (Nat.le_refl _)]
  exact traverses_of_length_lt (length_ascend_lt h.within_next hno hhead)

namespace Built

theorem not_mem_ascend_parent (h : g.Built) (i : NodeId) :
    i ∉ ascend (fun k => (g.node k).parent) g.size i :=
  (acyclic_iff_not_mem_ascend h.within_parent).mp h.acyclic_parent i

theorem length_ancestors_lt (h : g.Built) {i : NodeId} (hi : i < g.size) :
    (g.ancestors i).length < g.size := by
  rw [ancestors, ancestorsFrom_eq_ascend]
  exact length_ascend_lt h.within_parent h.not_mem_ascend_parent hi

/-- The way up the parents comes to an end. -/
theorem traverses_ancestors (h : g.Built) {i : NodeId} (hi : i < g.size) :
    Traverses (fun k => (g.node k).parent) i (i :: g.ancestors i) := by
  have hlen := h.length_ancestors_lt hi
  rw [ancestors, ancestorsFrom_eq_ascend] at hlen ⊢
  exact traverses_of_length_lt hlen

theorem nodup_cons_ancestors (h : g.Built) (i : NodeId) : (i :: g.ancestors i).Nodup := by
  rw [ancestors, ancestorsFrom_eq_ascend]
  exact nodup_cons_ascend h.not_mem_ascend_parent (Nat.le_refl _) i

/-- Exactly the nodes of sequences that begin at a root have no parent. -/
theorem parent_eq_none_iff (h : g.Built) {i : NodeId} (hi : i < g.size) :
    (g.node i).parent = none ↔ ∃ r ∈ g.roots, ReflTransGen (Next g.node) r i := by
  rw [Option.eq_none_iff_forall_ne_some]
  simp only [ne_eq, h.parent_eq_some_iff]
  constructor
  · exact h.isForest.exists_root_of_not_contains hi
  · rintro ⟨r, hr, hchain⟩ o
    exact h.isForest.not_contains_of_root hr hchain

end Built

end Graph

namespace Draft

variable {d : Draft}

/-- **The parents of a built graph.**  The parent of a node is the one node with a slot whose
sequence the node belongs to, and it has none iff it belongs to the sequence of a root.  The
assignments that fill in the parents never meet an entry that is filled already, and give the same
parents in every order.  Following a sequence from a slot comes to an end, and so does going up the
parents from any node: no node is met twice, and fewer steps are made than there are nodes. -/
theorem build_parents (hc : d.Closed) {g : Graph} (hb : d.build = .ok g) :
    (∀ n o, (g.node n).parent = some o ↔ g.Contains o n) ∧
    (∀ n, n < g.size →
      ((g.node n).parent = none ↔ ∃ r ∈ g.roots, ReflTransGen (Next g.node) r n)) ∧
    (∀ n o o', g.Contains o n → g.Contains o' n → o = o') ∧
    (∀ before l after, d.containment = before ++ l :: after →
      ownerIn (ownerTable d.size before) l.target = none) ∧
    (∀ links, links.Perm d.containment →
      ∀ n, ownerIn (ownerTable d.size links) n = (g.node n).parent) ∧
    (∀ o, ∀ head ∈ (d.node o).slotTargets,
      Traverses (fun k => (d.node k).next) head (Graph.chainFrom d.node d.size head)) ∧
    ∀ n, n < g.size →
      Traverses (fun k => (g.node k).parent) n (n :: g.ancestors n) ∧
        (n :: g.ancestors n).Nodup ∧ (g.ancestors n).length < g.size := by
  have hbuilt : g.Built := ⟨d, hc, hb⟩
  have hf := hbuilt.isForest
  obtain rfl := eq_toGraph_of_build hb
  refine ⟨fun n o => hbuilt.parent_eq_some_iff, fun n hn => hbuilt.parent_eq_none_iff hn,
    fun n o o' => hf.contains_unique, fun before l after => ownerIn_before_eq_none hf, ?_, ?_, ?_⟩
  · intro links hperm n
    refine Option.ext fun o => ?_
    rw [Graph.ownerIn_ownerTable_iff_contains hf fun _ => hperm.mem_iff, hbuilt.parent_eq_some_iff]
  · intro o head hhead
    obtain ⟨p, -, hslot⟩ := Node.mem_slotTargets_iff.mp hhead
    rw [← d.target?_toGraph] at hslot
    have htraverses := hf.traverses_chain (hf.within o p head hslot).2
    simpa only [Graph.chainFrom_draft, Graph.next_toGraph] using htraverses
  · intro n hn
    exact ⟨hbuilt.traverses_ancestors hn, hbuilt.nodup_cons_ancestors n,
      hbuilt.length_ancestors_lt hn⟩

/-- An entry point whose loop holds a block with a value, after which another node follows. -/
def valueChain : Draft :=
  [.root "A" "arduino_entry", .node "B" "time_delay", .node "C" "math_number",
    .node "D" "math_number", .setStatement 0 "LOOP" 1, .setValue 1 "DELAY_TIME" 2,
    .setNext 2 3].foldl (fun d e => Edit.apply e d) {}

theorem valueChain_reachable : valueChain.Reachable :=
  Draft.reachable_of_edits rfl

/-- What follows the value has the owner of the value slot as its parent. -/
theorem build_parents_valueChain :
    valueChain.Closed ∧ valueChain.build = .ok valueChain.toGraph ∧
      (valueChain.toGraph.node 3).parent = some 1 ∧
      Traverses (fun k => (valueChain.toGraph.node k).parent) 3 [3, 1, 0] := by
  have hclosed := valueChain_reachable.closed
  have hparents := build_parents hclosed (g := valueChain.toGraph) rfl
  refine ⟨hclosed, rfl, (hparents.1 3 1).mpr ?_, (hparents.2.2.2.2.2.2 3 (by decide)).1⟩
  exact ⟨.value "DELAY_TIME", 2, by decide, rfl, .single rfl⟩

end Draft

end BlockCompiler
