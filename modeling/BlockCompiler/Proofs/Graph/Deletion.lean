import BlockCompiler.Proofs.Graph.Likeness

/-!
# Deleting a node

A node is deleted from a draft by joining what led to it to the node after it.  The
nodes behind it move up by one position, and all links move along.  For a graph the
same is done to it as a draft, and the parents are filled in anew (`Graph.delete`).

A node without slots that is not alone in its statement slot can be deleted from a
built graph without a trace in the rest of it (`Graph.Detachable`): what is left is
built (`Detachable.built_delete`), sequences are the same but for the node (`chain_delete`), and
every other node is contained by the same nodes as before (`contains_delete`).
-/

namespace BlockCompiler

open Relation

/-! ## Positions -/

namespace NodeId

/-- The position that a node had before the one at `m` was deleted. -/
def former (m i : Nat) : NodeId :=
  if i < m then i else i + 1

/-- The position that a node has once the one at `m` is deleted. -/
def moved (m i : Nat) : NodeId :=
  if i < m then i else i - 1

/-- No node that is left was the deleted one. -/
theorem former_ne (m i : Nat) : former m i ≠ m := by
  grind [former]

/-- Moving up undoes going back to the former position. -/
theorem moved_former (m i : Nat) : moved m (former m i) = i := by
  grind [former, moved]

theorem former_moved {m i : Nat} (h : i ≠ m) : former m (moved m i) = i := by
  grind [former, moved]

theorem former_injective (m : Nat) : Function.Injective (former m) :=
  Function.LeftInverse.injective (moved_former m)

/-- Nodes keep their order. -/
theorem former_lt_former {m i k : Nat} (h : i < k) : former m i < former m k := by
  grind [former]

theorem former_lt_iff {m i n : Nat} (hm : m < n) : former m i < n ↔ i < n - 1 := by
  grind [former]

/-- Every node but the deleted one is left. -/
theorem exists_former {m i : Nat} (h : i ≠ m) : ∃ i', former m i' = i :=
  ⟨moved m i, former_moved h⟩

/-- The positions that are left, in order. -/
theorem map_former_range {m n : Nat} (hm : m < n) :
    (List.range (n - 1)).map (former m) = (List.range n).filter (· != m) := by
  -- Both lists are increasing, so it is enough that they have the same members.
  refine List.Perm.eq_of_pairwise (fun a b _ _ hab hba => absurd hba (Nat.lt_asymm hab))
    (List.pairwise_map.mpr (List.pairwise_lt_range.imp former_lt_former))
    (List.pairwise_lt_range.filter _)
    ((List.perm_ext_iff_of_nodup (List.nodup_range.map (former_injective m))
      (List.nodup_range.filter _)).mpr fun i => ?_)
  simp only [List.mem_map, List.mem_range, List.mem_filter, bne_iff_ne]
  constructor
  · rintro ⟨i', hi', rfl⟩
    exact ⟨(former_lt_iff hm).mpr hi', former_ne m i'⟩
  · rintro ⟨hi, hne⟩
    obtain ⟨i', rfl⟩ := exists_former hne
    exact ⟨i', (former_lt_iff hm).mp hi, rfl⟩

end NodeId

/-! ## Drafts -/

/-- The values that `f` keeps, changed as it says. -/
def Dict.filterMap {α β : Type} (f : α → Option β) (d : Dict α) : Dict β where
  entries := d.entries.filterMap fun e => (f e.2).map (e.1, ·)
  sorted := by
    refine List.Pairwise.filterMap _ ?_ d.sorted
    intro a b hab x hx y hy
    obtain ⟨-, -, rfl⟩ := Option.map_eq_some_iff.mp hx
    obtain ⟨-, -, rfl⟩ := Option.map_eq_some_iff.mp hy
    exact hab

/-- What a name stands for is looked up first and changed then. -/
theorem Dict.get?_filterMap {α β : Type} (f : α → Option β) (d : Dict α) (name : String) :
    (d.filterMap f).get? name = (d.get? name).bind f := by
  refine Option.ext fun value => ?_
  rw [← mem_entries_iff, Option.bind_eq_some_iff, filterMap, List.mem_filterMap]
  constructor
  · rintro ⟨⟨name, before⟩, he, hf⟩
    obtain ⟨after, hafter, heq⟩ := Option.map_eq_some_iff.mp hf
    cases heq
    exact ⟨before, mem_entries_iff.mp he, hafter⟩
  · rintro ⟨before, hbefore, hf⟩
    exact ⟨(name, before), mem_entries_iff.mpr hbefore, by simp [hf]⟩

/-- The node with its links led elsewhere, or cut. -/
def Node.redirect (link : NodeId → Option NodeId) (n : Node) : Node :=
  { n with
    values := n.values.filterMap link
    statements := n.statements.filterMap link
    next := n.next.bind link }

/-- A link leads where it is redirected to. -/
theorem Node.target?_redirect (link : NodeId → Option NodeId) (n : Node) (p : Place) :
    (n.redirect link).target? p = (n.target? p).bind link := by
  cases p with
  | value slot => exact Dict.get?_filterMap link n.values slot
  | statement slot => exact Dict.get?_filterMap link n.statements slot
  | next => rfl

namespace Draft

/-- Where a link to `t` leads once the node at `m` is deleted: what led to that one leads to the
node after it. -/
def rejoin (d : Draft) (m t : NodeId) : Option NodeId :=
  (if t = m then (d.node m).next else some t).map (NodeId.moved m)

/-- The draft without the node at `m`. -/
def delete (d : Draft) (m : NodeId) : Draft where
  nodes := ((d.nodes.toList.eraseIdx m).map (Node.redirect (d.rejoin m))).toArray
  roots := d.roots.filterMap (d.rejoin m)

variable {d : Draft} {m : NodeId}

theorem size_delete (hm : m < d.size) : (d.delete m).size = d.size - 1 := by
  rw [size, delete, List.size_toArray, List.length_map, List.length_eraseIdx_of_lt hm]
  rfl

/-- A node that is left has its former fields, and links that were led past the deleted one. -/
theorem node_delete (d : Draft) (m i : NodeId) :
    (d.delete m).node i = (d.node (NodeId.former m i)).redirect (d.rejoin m) := by
  simp only [node, delete, Array.getD_eq_getD_getElem?, List.getElem?_toArray, List.getElem?_map,
    List.getElem?_eraseIdx, NodeId.former, Array.getElem?_toList]
  split
  · cases d.nodes[i]? <;> rfl
  · cases d.nodes[i + 1]? <;> rfl

theorem target?_delete (d : Draft) (m i : NodeId) (p : Place) :
    ((d.delete m).node i).target? p =
      ((d.node (NodeId.former m i)).target? p).bind (d.rejoin m) := by
  rw [node_delete, Node.target?_redirect]

/-- A link leads to a node now if it did before, or if it led to the deleted node and that was
followed by this one. -/
theorem rejoin_eq_some_iff (hself : (d.node m).next ≠ some m) {t t' : NodeId} :
    d.rejoin m t = some t' ↔
      t = NodeId.former m t' ∨ (t = m ∧ (d.node m).next = some (NodeId.former m t')) := by
  have hmoved : ∀ {k : NodeId}, k ≠ m → (NodeId.moved m k = t' ↔ k = NodeId.former m t') := by
    intro k hk
    constructor
    · rintro rfl
      exact (NodeId.former_moved hk).symm
    · rintro rfl
      exact NodeId.moved_former m t'
  unfold rejoin
  by_cases ht : t = m
  · subst ht
    rw [if_pos rfl, Option.map_eq_some_iff]
    constructor
    · rintro ⟨k, hk, hkt⟩
      have hkm : k ≠ t := fun heq => hself (heq ▸ hk)
      exact Or.inr ⟨rfl, ((hmoved hkm).mp hkt) ▸ hk⟩
    · rintro (heq | ⟨-, hnext⟩)
      · exact absurd heq.symm (NodeId.former_ne t t')
      · exact ⟨_, hnext, NodeId.moved_former t t'⟩
  · simp [ht, hmoved ht]

/-- A closed draft that violates none of the conditions is built. -/
theorem build_eq_ok (hc : d.Closed)
    (h : d.DistinctKeys ∧ SingleOwner d.node ∧ d.FreeRoots ∧ Acyclic d.node ∧
      (d.roots ≠ [] → d.Rooted)) : d.build = .ok d.toGraph := by
  have hfound := found_defect? hc
  unfold build
  cases hdefect : d.defect? with
  | none => rfl
  | some e =>
    rw [hdefect] at hfound
    obtain ⟨hmem, hviolated⟩ := FirstViolated.violates hfound
    exact absurd hviolated (violates_none_iff.mpr h _ hmem)

end Draft

/-! ## Graphs -/

namespace Graph

variable {g : Graph} {m : NodeId}

namespace IsForest

/-- A sequence goes on with that of the next node. -/
theorem chain_of_next (h : g.IsForest) {i k : NodeId} (hk : (g.node i).next = some k) :
    g.chain i = i :: g.chain k := by
  obtain ⟨hi, hlt⟩ := h.within i .next k hk
  rw [chain, chain, h.chainFrom_eq_cons hi (Nat.le_refl _), h.chainFrom_eq_cons hlt (Nat.le_refl _),
    ascend_eq_cons h.within_next h.acyclic_next hk]

/-- A node without a next one is a sequence of its own. -/
theorem chain_of_last (h : g.IsForest) {i : NodeId} (hi : i < g.size)
    (hnext : (g.node i).next = none) : g.chain i = [i] := by
  rw [chain, h.chainFrom_eq_cons hi (Nat.le_refl _), ascend_of_none hnext]

end IsForest

/-- The graph as a draft. -/
def draft (g : Graph) : Draft where
  nodes := g.nodes
  roots := g.roots

/-- The graph without the node at `m`, with the parents that building fills in. -/
def delete (g : Graph) (m : NodeId) : Graph :=
  (g.draft.delete m).toGraph

theorem key_delete (g : Graph) (m i : NodeId) :
    ((g.delete m).node i).key = (g.node (NodeId.former m i)).key := by
  rw [delete, Draft.node_toGraph, Draft.node_delete]
  rfl

theorem type_delete (g : Graph) (m i : NodeId) :
    ((g.delete m).node i).type = (g.node (NodeId.former m i)).type := by
  rw [delete, Draft.node_toGraph, Draft.node_delete]
  rfl

theorem fields_delete (g : Graph) (m i : NodeId) :
    ((g.delete m).node i).fields = (g.node (NodeId.former m i)).fields := by
  rw [delete, Draft.node_toGraph, Draft.node_delete]
  rfl

theorem target?_delete (g : Graph) (m i : NodeId) (p : Place) :
    ((g.delete m).node i).target? p =
      ((g.node (NodeId.former m i)).target? p).bind (g.draft.rejoin m) := by
  rw [delete, Draft.target?_toGraph, Draft.target?_delete]
  rfl

/-- A node that is left stays at the head of a sequence. -/
theorem filter_former_cons (i : NodeId) (rest : List NodeId) :
    (NodeId.former m i :: rest).filter (· != m) = NodeId.former m i :: rest.filter (· != m) :=
  List.filter_cons_of_pos (bne_iff_ne.mpr (NodeId.former_ne m i))

namespace IsForest

variable (h : g.IsForest)

include h

/-- For a forest, in which no node follows itself, the same holds of the graph as a draft. -/
theorem rejoin_eq_some_iff {t t' : NodeId} :
    g.draft.rejoin m t = some t' ↔ t = NodeId.former m t' ∨
      (t = m ∧ (g.node m).next = some (NodeId.former m t')) := by
  have hself : (g.draft.node m).next ≠ some m := fun hself =>
    h.acyclic m (.single ⟨.next, hself⟩)
  exact Draft.rejoin_eq_some_iff hself

/-- A place leads to a node as before, or it led to the deleted node, which that one follows. -/
theorem target?_draft_eq_some_iff {i t : NodeId} {p : Place} :
    ((g.draft.delete m).node i).target? p = some t ↔
      (g.node (NodeId.former m i)).target? p = some (NodeId.former m t) ∨
        ((g.node (NodeId.former m i)).target? p = some m ∧
          (g.node m).next = some (NodeId.former m t)) := by
  rw [Draft.target?_delete, Option.bind_eq_some_iff]
  simp only [h.rejoin_eq_some_iff]
  constructor
  · rintro ⟨k, hk, rfl | ⟨rfl, hnext⟩⟩
    · exact Or.inl hk
    · exact Or.inr ⟨hk, hnext⟩
  · rintro (hk | ⟨hk, hnext⟩)
    · exact ⟨_, hk, Or.inl rfl⟩
    · exact ⟨_, hk, Or.inr ⟨rfl, hnext⟩⟩

/-- Each new link stands for one or two former ones. -/
theorem transGen_of_leads_draft {i t : NodeId} (hit : Leads (g.draft.delete m).node i t) :
    TransGen (Leads g.node) (NodeId.former m i) (NodeId.former m t) := by
  obtain ⟨p, hp⟩ := hit
  rcases h.target?_draft_eq_some_iff.mp hp with hk | ⟨hk, hnext⟩
  · exact .single ⟨p, hk⟩
  · exact .tail (.single ⟨p, hk⟩) ⟨.next, hnext⟩

/-- Two links to one node would have led to it, or to the deleted node, before. -/
theorem singleOwner_draft : SingleOwner (g.draft.delete m).node := by
  intro a p b q t hp hq
  have hinj := @NodeId.former_injective m
  rcases h.target?_draft_eq_some_iff.mp hp with hp | ⟨hp, hpnext⟩
  · rcases h.target?_draft_eq_some_iff.mp hq with hq | ⟨-, hqnext⟩
    · obtain ⟨hab, hpq⟩ := h.singleOwner _ p _ q _ hp hq
      exact ⟨hinj hab, hpq⟩
    · exact absurd (h.singleOwner _ p m .next _ hp hqnext).1 (NodeId.former_ne m a)
  · rcases h.target?_draft_eq_some_iff.mp hq with hq | ⟨hq, -⟩
    · exact absurd (h.singleOwner _ q m .next _ hq hpnext).1 (NodeId.former_ne m b)
    · obtain ⟨hab, hpq⟩ := h.singleOwner _ p _ q _ hp hq
      exact ⟨hinj hab, hpq⟩

/-- A circle that is left would have been one before. -/
theorem acyclic_draft : Acyclic (g.draft.delete m).node := by
  intro i hcircle
  refine h.acyclic (NodeId.former m i) ?_
  exact TransGen.lift' (NodeId.former m) (fun _ _ hab => h.transGen_of_leads_draft hab) i i
    hcircle

/-- Links after the deletion, in terms of those before. -/
theorem target?_delete_eq_some_iff {i t : NodeId} {p : Place} :
    ((g.delete m).node i).target? p = some t ↔
      (g.node (NodeId.former m i)).target? p = some (NodeId.former m t) ∨
        ((g.node (NodeId.former m i)).target? p = some m ∧
          (g.node m).next = some (NodeId.former m t)) := by
  rw [delete, Draft.target?_toGraph, h.target?_draft_eq_some_iff]

/-- A sequence, without the deleted node, goes on with the node that is next now. -/
theorem filter_chain_of_next {i k : NodeId} (hk : ((g.delete m).node i).next = some k) :
    (g.chain (NodeId.former m i)).filter (· != m) =
      NodeId.former m i :: (g.chain (NodeId.former m k)).filter (· != m) := by
  rcases (h.target?_delete_eq_some_iff (p := .next)).mp hk with hnext | ⟨hnext, hafter⟩
  · rw [h.chain_of_next hnext, filter_former_cons]
  · rw [h.chain_of_next hnext, h.chain_of_next hafter, filter_former_cons,
      List.filter_cons_of_neg (by simp)]

end IsForest

/-! ## Detachable nodes -/

/-- The node has no slots, and it stands in a statement slot that holds at least one other node. -/
structure Detachable (g : Graph) (m : NodeId) : Prop where
  bare : (g.node m).slotTargets = []
  among : ∃ o slot head, (g.node o).statements.get? slot = some head ∧ m ∈ g.chain head ∧
    2 ≤ (g.chain head).length

namespace Detachable

section

variable (hm : g.Detachable m)

include hm

/-- From a node without slots there is only the link to the next node. -/
theorem eq_next_of_target? {p : Place} {t : NodeId} (ht : (g.node m).target? p = some t) :
    p = .next := by
  by_contra hp
  have hmem := Node.mem_slotTargets_iff.mpr ⟨p, hp, ht⟩
  rw [hm.bare] at hmem
  cases hmem

theorem not_contains (k : NodeId) : ¬ g.Contains m k := by
  rintro ⟨p, head, hp, hslot, -⟩
  exact hp (hm.eq_next_of_target? hslot)

/-- A detachable node stands in a slot of some node. -/
theorem exists_contains : ∃ o, g.Contains o m := by
  obtain ⟨o, slot, head, hslot, hchain, -⟩ := hm.among
  exact ⟨o, contains_of_mem_chain (p := .statement slot) Place.noConfusion hslot hchain⟩

theorem exists_owner : ∃ a, Leads g.node a m := by
  obtain ⟨o, ho⟩ := hm.exists_contains
  obtain ⟨a, -, ha⟩ := TransGen.tail'_iff.mp ho.transGen
  exact ⟨a, ha⟩

variable (h : g.IsForest)

include h

theorem lt_size : m < g.size := by
  obtain ⟨o, ho⟩ := hm.exists_contains
  exact (h.lt_size_of_contains ho).2

/-- Roots have no owner, and a detachable node has one. -/
theorem not_mem_roots : m ∉ g.roots := by
  intro hroot
  obtain ⟨a, ha⟩ := hm.exists_owner
  exact ((h.mem_roots m).mp hroot).2 a ha

/-- A slot that begins with the node is a statement slot, and another node follows in it. -/
theorem of_slot {a : NodeId} {p : Place} (hp : p ≠ .next)
    (ht : (g.node a).target? p = some m) :
    (∃ slot, p = .statement slot) ∧ ∃ k, (g.node m).next = some k := by
  obtain ⟨o, slot, head, hslot, hchain, hlen⟩ := hm.among
  have hslot' : (g.node o).target? (.statement slot) = some head := hslot
  obtain ⟨rfl, rfl⟩ := h.slot_unique hp Place.noConfusion ht hslot' .refl
    (reflTransGen_of_mem_chain hchain)
  obtain rfl : m = head := Option.some.inj (ht.symm.trans hslot')
  refine ⟨⟨slot, rfl⟩, ?_⟩
  cases hnext : (g.node m).next with
  | some k => exact ⟨k, rfl⟩
  | none =>
    rw [h.chain_of_last (hm.lt_size h) hnext] at hlen
    simp at hlen

end

/-! ### What is left is built -/

section

variable (hm : g.Detachable m) (h : g.IsForest)

include hm h

/-- The roots stay what they are, at their new positions. -/
theorem map_former_roots : (g.draft.delete m).roots.map (NodeId.former m) = g.roots := by
  have hstays : ∀ r ∈ g.roots, (g.draft.rejoin m r).map (NodeId.former m) = some r := by
    intro r hr
    have hne : r ≠ m := fun heq => hm.not_mem_roots h (heq ▸ hr)
    rw [Draft.rejoin, if_neg hne, Option.map_some, Option.map_some, NodeId.former_moved hne]
  calc (g.draft.delete m).roots.map (NodeId.former m)
      = g.roots.filterMap fun r => (g.draft.rejoin m r).map (NodeId.former m) :=
        List.map_filterMap
    _ = g.roots.filterMap some := List.filterMap_congr hstays
    _ = g.roots := List.filterMap_some

theorem mem_roots_draft {r : NodeId} :
    r ∈ (g.draft.delete m).roots ↔ NodeId.former m r ∈ g.roots := by
  rw [← hm.map_former_roots h, List.mem_map_of_injective (NodeId.former_injective m)]

/-- A root that is owned now would have been owned before. -/
theorem freeRoots_draft : (g.draft.delete m).FreeRoots := by
  constructor
  · refine List.Nodup.of_map (NodeId.former m) ?_
    rw [hm.map_former_roots h]
    exact h.nodup_roots
  · intro r hr a ha
    obtain ⟨b, -, hb⟩ := TransGen.tail'_iff.mp (h.transGen_of_leads_draft ha)
    exact ((h.mem_roots _).mp ((hm.mem_roots_draft h).mp hr)).2 b hb

/-- Links lead to nodes that are left. -/
theorem closed_draft : (g.draft.delete m).Closed where
  target_lt i p t ht := by
    rw [Draft.size_delete (hm.lt_size h)]
    obtain ⟨b, -, hb⟩ := TransGen.tail'_iff.mp (h.transGen_of_leads_draft ⟨p, ht⟩)
    exact (NodeId.former_lt_iff (hm.lt_size h)).mp (h.leads_within hb).2
  root_lt r hr := by
    rw [Draft.size_delete (hm.lt_size h)]
    exact (NodeId.former_lt_iff (hm.lt_size h)).mp
      ((h.mem_roots _).mp ((hm.mem_roots_draft h).mp hr)).1

/-- Keys are those from before. -/
theorem distinctKeys_draft : (g.draft.delete m).DistinctKeys := by
  intro i k hi hk hkey
  rw [Draft.size_delete (hm.lt_size h)] at hi hk
  rw [Draft.key, Draft.key, Draft.node_delete, Draft.node_delete]
    at hkey
  exact NodeId.former_injective m (h.keys _ _ ((NodeId.former_lt_iff (hm.lt_size h)).mpr hi)
    ((NodeId.former_lt_iff (hm.lt_size h)).mpr hk) hkey)

/-- The owner of a node, or else the owner of the deleted one, leads to it in what is left. -/
theorem exists_leads_draft {a i : NodeId} (ha : Leads g.node a (NodeId.former m i)) :
    ∃ b, TransGen (Leads g.node) (NodeId.former m b) (NodeId.former m i) ∧
      Leads (g.draft.delete m).node b i := by
  obtain ⟨p, hp⟩ := ha
  by_cases ham : a = m
  · subst ham
    obtain rfl := hm.eq_next_of_target? hp
    obtain ⟨c, q, hq⟩ := hm.exists_owner
    have hc : c ≠ a := by
      rintro rfl
      exact h.acyclic c (.single ⟨q, hq⟩)
    obtain ⟨b, rfl⟩ := NodeId.exists_former hc
    exact ⟨b, .tail (.single ⟨q, hq⟩) ⟨.next, hp⟩,
      q, h.target?_draft_eq_some_iff.mpr (Or.inr ⟨hq, hp⟩)⟩
  · obtain ⟨b, rfl⟩ := NodeId.exists_former ham
    exact ⟨b, .single ⟨p, hp⟩, p, h.target?_draft_eq_some_iff.mpr (Or.inl hp)⟩

/-- Whatever hung from a root still does. -/
theorem rooted_draft : (g.draft.delete m).Rooted := by
  intro i hi
  rw [Draft.size_delete (hm.lt_size h)] at hi
  have hlt := (NodeId.former_lt_iff (hm.lt_size h)).mpr hi
  clear hi
  induction hk : NodeId.former m i using h.ancestor_induction generalizing i with
  | step k ih =>
    subst hk
    by_cases howned : ∃ a, Leads g.node a (NodeId.former m i)
    · obtain ⟨a, ha⟩ := howned
      obtain ⟨b, habove, hlead⟩ := hm.exists_leads_draft h ha
      obtain ⟨c, hc, -⟩ := TransGen.head'_iff.mp habove
      obtain ⟨r, hr, hreach⟩ := ih _ habove b (h.leads_within hc).1 rfl
      exact ⟨r, hr, hreach.tail hlead⟩
    · refine ⟨i, (hm.mem_roots_draft h).mpr ((h.mem_roots _).mpr ⟨hlt, ?_⟩), .refl⟩
      exact fun a ha => howned ⟨a, ha⟩

/-- **A graph stays built without a detachable node.** -/
theorem build_delete : (g.draft.delete m).build = .ok (g.delete m) :=
  Draft.build_eq_ok (hm.closed_draft h) ⟨hm.distinctKeys_draft h, h.singleOwner_draft,
    hm.freeRoots_draft h, h.acyclic_draft, fun _ => hm.rooted_draft h⟩

/-- **What is left is built.** -/
theorem built_delete : (g.delete m).Built :=
  ⟨g.draft.delete m, hm.closed_draft h, hm.build_delete h⟩

/-! ### What is left is as before -/

theorem size_delete : (g.delete m).size = g.size - 1 := by
  rw [delete, Draft.size_toGraph, Draft.size_delete (hm.lt_size h)]
  rfl

/-- The nodes are those from before, but for the deleted one. -/
theorem map_former_ids : (g.delete m).ids.map (NodeId.former m) = g.ids.filter (· != m) := by
  rw [ids, ids, hm.size_delete h, NodeId.map_former_range (hm.lt_size h)]

theorem map_former_roots_delete : (g.delete m).roots.map (NodeId.former m) = g.roots := by
  have hroots : (g.draft.delete m).roots ≠ [] := by
    obtain ⟨r, hr, -⟩ := h.exists_way (hm.lt_size h)
    intro hnil
    rw [← hm.map_former_roots h, hnil] at hr
    cases hr
  rw [← hm.map_former_roots h, ← Draft.rootList_of_ne_nil hroots]
  rfl

/-- No slot is left empty. -/
theorem exists_rejoin {o t : NodeId} {p : Place} (hp : p ≠ .next)
    (ht : (g.node o).target? p = some t) : ∃ t', g.draft.rejoin m t = some t' := by
  by_cases htm : t = m
  · subst htm
    obtain ⟨-, k, hk⟩ := hm.of_slot h hp ht
    have hk' : (g.draft.node t).next = some k := hk
    exact ⟨_, by rw [Draft.rejoin, if_pos rfl, hk', Option.map_some]⟩
  · exact ⟨_, by rw [Draft.rejoin, if_neg htm, Option.map_some]⟩

/-- A node that is last now was last before, or stood right before the deleted one. -/
theorem filter_chain_of_last {i : NodeId} (hi : i < (g.delete m).size)
    (hlast : ((g.delete m).node i).next = none) :
    (g.chain (NodeId.former m i)).filter (· != m) = [NodeId.former m i] := by
  rw [hm.size_delete h, ← NodeId.former_lt_iff (hm.lt_size h)] at hi
  have hbind := g.target?_delete m i .next
  simp only [Node.target?, hlast] at hbind
  cases hnext : (g.node (NodeId.former m i)).next with
  | none =>
    rw [h.chain_of_last hi hnext, filter_former_cons, List.filter_nil]
  | some t =>
    -- Only the deleted node, at the end of its sequence, leads on to nothing.
    rw [hnext, Option.bind_some, eq_comm, Draft.rejoin, Option.map_eq_none_iff] at hbind
    split at hbind
    next ht =>
      subst ht
      rw [h.chain_of_next hnext, h.chain_of_last (hm.lt_size h) hbind, filter_former_cons]
      simp
    next => cases hbind

/-- **A sequence is the same but for the deleted node.** -/
theorem chain_delete {i : NodeId} (hi : i < (g.delete m).size) :
    ((g.delete m).chain i).map (NodeId.former m) =
      (g.chain (NodeId.former m i)).filter (· != m) := by
  have h' := (hm.built_delete h).isForest
  induction hn : (g.delete m).height i using Nat.strongRecOn generalizing i with
  | ind n ih =>
    subst hn
    cases hnext : ((g.delete m).node i).next with
    | none => rw [hm.filter_chain_of_last h hi hnext, h'.chain_of_last hi hnext, List.map_singleton]
    | some k =>
      have hk : (g.delete m).height k < (g.delete m).height i :=
        h'.height_lt (.single ⟨.next, hnext⟩)
      rw [h.filter_chain_of_next hnext, h'.chain_of_next hnext, List.map_cons,
        ih _ hk (h'.within i .next k hnext).2 rfl]

/-- What a slot holds is the same but for the deleted node. -/
theorem chain_rejoin {o p head head'} (hslot : (g.node o).target? p = some head)
    (hrejoin : g.draft.rejoin m head = some head') :
    ((g.delete m).chain head').map (NodeId.former m) = (g.chain head).filter (· != m) := by
  have hlt : head' < (g.delete m).size := by
    rw [hm.size_delete h, ← NodeId.former_lt_iff (hm.lt_size h)]
    rcases h.rejoin_eq_some_iff.mp hrejoin with rfl | ⟨-, hnext⟩
    · exact (h.within o p _ hslot).2
    · exact (h.within m .next _ hnext).2
  rw [hm.chain_delete h hlt]
  rcases h.rejoin_eq_some_iff.mp hrejoin with rfl | ⟨rfl, hnext⟩
  · rfl
  · rw [h.chain_of_next hnext, List.filter_cons_of_neg (by simp)]

/-- **What is left is contained as before.** -/
theorem contains_delete {o i : NodeId} :
    (g.delete m).Contains o i ↔ g.Contains (NodeId.former m o) (NodeId.former m i) := by
  have h' := (hm.built_delete h).isForest
  constructor
  · rintro ⟨p, head', hp, hslot', hreach⟩
    have hmem := (h'.mem_chain_iff (h'.within o p head' hslot').2).mpr hreach
    rw [target?_delete, Option.bind_eq_some_iff] at hslot'
    obtain ⟨head, hslot, hrejoin⟩ := hslot'
    have hmem' := List.mem_map_of_mem (f := NodeId.former m) hmem
    rw [hm.chain_rejoin h hslot hrejoin, List.mem_filter] at hmem'
    exact contains_of_mem_chain hp hslot hmem'.1
  · rintro ⟨p, head, hp, hslot, hreach⟩
    have hmem := (h.mem_chain_iff (h.within _ p head hslot).2).mpr hreach
    obtain ⟨head', hrejoin⟩ := hm.exists_rejoin h hp hslot
    have hslot' : ((g.delete m).node o).target? p = some head' := by
      rw [target?_delete, hslot, Option.bind_some, hrejoin]
    have hmem' : NodeId.former m i ∈ (g.chain head).filter (· != m) :=
      List.mem_filter.mpr ⟨hmem, bne_iff_ne.mpr (NodeId.former_ne m i)⟩
    rw [← hm.chain_rejoin h hslot hrejoin,
      List.mem_map_of_injective (NodeId.former_injective m)] at hmem'
    exact contains_of_mem_chain hp hslot' hmem'

/-- A node is below another one if it was before. -/
theorem mem_descendants_delete {i k : NodeId} :
    k ∈ (g.delete m).descendants i ↔ NodeId.former m k ∈ g.descendants (NodeId.former m i) := by
  rw [(hm.built_delete h).isForest.mem_descendants_iff, h.mem_descendants_iff]
  constructor
  · intro hik
    exact TransGen.lift (NodeId.former m) (fun _ _ hab => (hm.contains_delete h).mp hab) i k hik
  · intro hik
    -- The deleted node contains nothing, so no way down leads through it.
    generalize hx : NodeId.former m k = x at hik
    induction hik generalizing k with
    | single hcontains =>
      subst hx
      exact .single ((hm.contains_delete h).mpr hcontains)
    | @tail b _ _ hcontains ih =>
      subst hx
      have hb : b ≠ m := by
        rintro rfl
        exact hm.not_contains _ hcontains
      obtain ⟨b, rfl⟩ := NodeId.exists_former hb
      exact (ih rfl).tail ((hm.contains_delete h).mpr hcontains)

end

end Detachable

end Graph

end BlockCompiler
