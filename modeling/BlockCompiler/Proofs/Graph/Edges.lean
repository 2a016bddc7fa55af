import BlockCompiler.Proofs.Dictionary
import BlockCompiler.Proofs.Graph.Ascent

/-!
# Edges

A link starts at a place of its owner: a value slot, a statement slot or the link
to the next node.  An `Edge` is a link together with that place, so that two links
from one node to another are two edges.  This is the structure that graphs are
judged by; the lists of the library (`Node.targets`, `Draft.links`) are listings of
it, in which every edge occurs exactly once (`Draft.nodup_edges`).
-/

namespace BlockCompiler

/-- Where a link starts. -/
inductive Place where
  | value (slot : String)
  | statement (slot : String)
  | next
deriving DecidableEq, Repr

namespace Node

/-- The node that a place of this one leads to. -/
def target? (n : Node) : Place → Option NodeId
  | .value slot => n.values.get? slot
  | .statement slot => n.statements.get? slot
  | .next => n.next

/-- The places of a node that are filled, with what they lead to. -/
def exits (n : Node) : List (Place × NodeId) :=
  n.values.entries.map (fun e => (.value e.1, e.2)) ++
    n.statements.entries.map (fun e => (.statement e.1, e.2)) ++ n.next.toList.map (.next, ·)

theorem mem_exits_iff {n : Node} {p : Place} {t : NodeId} :
    (p, t) ∈ n.exits ↔ n.target? p = some t := by
  cases p with
  | value slot => simp [exits, target?, ← Dict.mem_entries_iff]
  | statement slot => simp [exits, target?, ← Dict.mem_entries_iff]
  | next => simp [exits, target?, eq_comm]

theorem targets_eq_map_exits (n : Node) : n.targets = n.exits.map (·.2) := by
  simp [targets, slotTargets, exits, Dict.values, Function.comp_def]

theorem nodup_exits (n : Node) : n.exits.Nodup := by
  have hvalues : (n.values.entries.map fun e => (Place.value e.1, e.2)).Nodup :=
    (List.Nodup.of_map _ n.values.nodup_names).map (by rintro ⟨a, x⟩ ⟨b, y⟩ h; simpa using h)
  have hstatements : (n.statements.entries.map fun e => (Place.statement e.1, e.2)).Nodup :=
    (List.Nodup.of_map _ n.statements.nodup_names).map (by rintro ⟨a, x⟩ ⟨b, y⟩ h; simpa using h)
  have hnext : (n.next.toList.map fun t => (Place.next, t)).Nodup := by
    cases n.next <;> simp
  -- The three kinds of places differ, so the three lists have nothing in common.
  refine (List.Nodup.append hvalues hstatements ?_).append hnext ?_
  · intro e hv hs
    obtain ⟨v, -, rfl⟩ := List.mem_map.mp hv
    obtain ⟨s, -, hs⟩ := List.mem_map.mp hs
    cases hs
  · intro e hslot hn
    obtain ⟨t, -, rfl⟩ := List.mem_map.mp hn
    rcases List.mem_append.mp hslot with h | h
    · obtain ⟨v, -, h⟩ := List.mem_map.mp h
      cases h
    · obtain ⟨s, -, h⟩ := List.mem_map.mp h
      cases h

@[simp] theorem target?_default (p : Place) : (default : Node).target? p = none := by
  cases p <;> rfl

end Node

/-- Some place of the node at `a` leads to `b`. -/
def Leads (node : NodeId → Node) (a b : NodeId) : Prop :=
  ∃ p, (node a).target? p = some b

/-- A link with the place it starts from. -/
structure Edge where
  owner : NodeId
  place : Place
  target : NodeId
deriving DecidableEq, Repr

/-- The nodes in the slots are those that a value or statement slot leads to. -/
theorem Node.mem_slotTargets_iff {n : Node} {t : NodeId} :
    t ∈ n.slotTargets ↔ ∃ p, p ≠ .next ∧ n.target? p = some t := by
  rw [slotTargets, List.mem_append, Dict.mem_values_iff, Dict.mem_values_iff]
  constructor
  · rintro (⟨slot, h⟩ | ⟨slot, h⟩)
    · exact ⟨.value slot, Place.noConfusion, h⟩
    · exact ⟨.statement slot, Place.noConfusion, h⟩
  · rintro ⟨p, hp, h⟩
    cases p with
    | value slot => exact Or.inl ⟨slot, h⟩
    | statement slot => exact Or.inr ⟨slot, h⟩
    | next => exact absurd rfl hp

theorem Graph.node_of_size_le (g : Graph) {i : NodeId} (h : g.size ≤ i) : g.node i = default := by
  have hnone : g.nodes[i]? = none := by simpa [size] using h
  simp [node, Array.getD_eq_getD_getElem?, hnone]

namespace Draft

variable (d : Draft)

theorem node_of_size_le {i : NodeId} (h : d.size ≤ i) : d.node i = default := by
  have hnone : d.nodes[i]? = none := by simpa [size] using h
  simp [node, Array.getD_eq_getD_getElem?, hnone]

/-- Only nodes of the draft have places that lead somewhere. -/
theorem lt_size_of_target? {i : NodeId} {p : Place} {t : NodeId}
    (h : (d.node i).target? p = some t) : i < d.size := by
  refine Nat.lt_of_not_le fun hle => ?_
  rw [d.node_of_size_le hle, Node.target?_default] at h
  cases h

theorem lt_size_of_leads {i t : NodeId} (h : Leads d.node i t) : i < d.size :=
  h.elim fun _ hp => d.lt_size_of_target? hp

/-- All edges, by the position of their owner. -/
def edges : List Edge :=
  d.ids.flatMap fun i => (d.node i).exits.map fun e => { owner := i, place := e.1, target := e.2 }

theorem mem_edges_iff {e : Edge} : e ∈ d.edges ↔ (d.node e.owner).target? e.place = some e.target := by
  constructor
  · intro h
    obtain ⟨i, -, hi⟩ := List.mem_flatMap.mp h
    obtain ⟨⟨p, t⟩, hexit, rfl⟩ := List.mem_map.mp hi
    exact Node.mem_exits_iff.mp hexit
  · intro h
    refine List.mem_flatMap.mpr ⟨e.owner, List.mem_range.mpr (d.lt_size_of_target? h), ?_⟩
    exact List.mem_map.mpr ⟨(e.place, e.target), Node.mem_exits_iff.mpr h, rfl⟩

theorem nodup_edges : d.edges.Nodup := by
  refine List.nodup_flatMap.mpr ⟨fun i _ => ?_, ?_⟩
  · refine (d.node i).nodup_exits.map ?_
    rintro ⟨p, t⟩ ⟨q, u⟩ h
    simpa using h
  · refine List.nodup_range.imp ?_
    intro i k hik e hi hk
    obtain ⟨x, -, rfl⟩ := List.mem_map.mp hi
    obtain ⟨y, -, hy⟩ := List.mem_map.mp hk
    exact hik (congrArg Edge.owner hy).symm

theorem links_eq_map_edges :
    d.links = d.edges.map fun e => { owner := e.owner, target := e.target } := by
  simp [links, edges, List.map_flatMap, Node.targets_eq_map_exits, Function.comp_def]

theorem mem_links_iff {l : Link} : l ∈ d.links ↔ Leads d.node l.owner l.target := by
  rw [links_eq_map_edges, List.mem_map]
  constructor
  · rintro ⟨e, he, rfl⟩
    exact ⟨e.place, d.mem_edges_iff.mp he⟩
  · rintro ⟨p, h⟩
    exact ⟨⟨l.owner, p, l.target⟩, d.mem_edges_iff.mpr h, rfl⟩

end Draft

end BlockCompiler
