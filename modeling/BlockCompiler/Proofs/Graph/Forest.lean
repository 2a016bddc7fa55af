import BlockCompiler.Proofs.Graph.Validation
import Mathlib.Data.Finset.Card

/-!
# The forest of a graph

The edges of a built graph form a forest that hangs from its roots.  `IsForest`
collects what the checks of a draft leave behind, for marked and for found roots
alike: in both cases the roots are exactly the nodes without an edge into them.

A way through a graph is a start and the list of places that are followed from
there.  Every node is reached from exactly one root on exactly one way
(`Built.forest`).  Nothing checks this where roots were found and not marked.  It
holds because going from a node to its owner again and again must end, and can only
end at a node without an owner: the number of nodes below (`Graph.height`) grows at
each step.
-/

namespace BlockCompiler

open Relation

/-! ## What building leaves of a draft -/

namespace Draft

@[simp] theorem size_toGraph (d : Draft) : d.toGraph.size = d.size := by
  simp [toGraph, Graph.size, size]

theorem node_toGraph (d : Draft) (i : NodeId) :
    d.toGraph.node i =
      { d.node i with parent := (ownerIn (ownerTable d.size d.containment) i) } := by
  by_cases hi : i < d.nodes.size
  · simp [toGraph, Graph.node, node, hi]
  · -- Outside the draft both sides are the default node, which has no parent.
    have hnone : ownerIn (ownerTable d.size d.containment) i = none := by
      have hi' : ¬ i < d.size := hi
      simp [ownerIn_ownerTable, hi']
    rw [hnone]
    simp [toGraph, Graph.node, node, hi]
    rfl

@[simp] theorem target?_toGraph (d : Draft) (i : NodeId) (p : Place) :
    (d.toGraph.node i).target? p = (d.node i).target? p := by
  rw [node_toGraph]
  cases p <;> rfl

theorem leads_toGraph (d : Draft) : Leads d.toGraph.node = Leads d.node := by
  funext a b
  simp [Leads]

theorem eq_toGraph_of_build {d : Draft} {g : Graph} (h : d.build = .ok g) : g = d.toGraph := by
  unfold build at h
  split at h
  · cases h
  · cases h
    rfl

/-- Marked or not, the roots of a graph are the nodes that are the target of no edge. -/
theorem mem_rootList_iff {d : Draft} (hc : d.Closed) (hfree : d.FreeRoots)
    (hrooted : d.roots ≠ [] → d.Rooted) {i : NodeId} :
    i ∈ d.rootList ↔ i < d.size ∧ ∀ a, ¬ Leads d.node a i := by
  by_cases hnil : d.roots = []
  · rw [rootList_of_eq_nil hnil, List.mem_filter, ids, List.mem_range]
    refine and_congr_right fun hi => ?_
    rw [Option.isNone_iff_eq_none, d.ownerIn_owners_eq_none_iff hi]
  · rw [rootList_of_ne_nil hnil]
    constructor
    · intro hi
      exact ⟨hc.root_lt i hi, hfree.2 i hi⟩
    · rintro ⟨hi, hnone⟩
      obtain ⟨r, hr, hreach⟩ := hrooted hnil i hi
      rcases hreach.cases_tail with rfl | ⟨a, -, ha⟩
      · exact hr
      · exact absurd ha (hnone a)

theorem nodup_rootList {d : Draft} (hfree : d.FreeRoots) : d.rootList.Nodup := by
  by_cases hnil : d.roots = []
  · rw [rootList_of_eq_nil hnil]
    exact List.nodup_range.filter _
  · rw [rootList_of_ne_nil hnil]
    exact hfree.1

end Draft

namespace Graph

/-- The edges of a graph form a forest that hangs from its roots, and its keys are distinct. -/
structure IsForest (g : Graph) : Prop where
  within : ∀ i p t, (g.node i).target? p = some t → i < g.size ∧ t < g.size
  keys : ∀ i k, i < g.size → k < g.size → (g.node i).key = (g.node k).key → i = k
  singleOwner : SingleOwner g.node
  acyclic : Acyclic g.node
  nodup_roots : g.roots.Nodup
  mem_roots : ∀ i, i ∈ g.roots ↔ i < g.size ∧ ∀ a, ¬ Leads g.node a i

theorem Built.isForest {g : Graph} (h : g.Built) : g.IsForest := by
  obtain ⟨d, hc, hb⟩ := h
  obtain ⟨hkeys, hs, hfree, ha, hrooted⟩ := Draft.violates_none_iff.mp (Draft.build_ok_conditions hc hb)
  obtain rfl := Draft.eq_toGraph_of_build hb
  constructor
  · intro i p t ht
    rw [Draft.target?_toGraph] at ht
    rw [Draft.size_toGraph]
    exact ⟨d.lt_size_of_target? ht, hc.target_lt i p t ht⟩
  · intro i k hi hk heq
    rw [Draft.size_toGraph] at hi hk
    rw [Draft.node_toGraph, Draft.node_toGraph] at heq
    exact hkeys i k hi hk heq
  · intro a p b q t hp hq
    rw [Draft.target?_toGraph] at hp hq
    exact hs a p b q t hp hq
  · rw [Acyclic, Draft.leads_toGraph]
    exact ha
  · exact Draft.nodup_rootList hfree
  · intro i
    rw [Draft.size_toGraph, Draft.leads_toGraph]
    exact Draft.mem_rootList_iff hc hfree hrooted

/-! ## Height -/

open Classical in
/-- The number of nodes that lie below a node. -/
noncomputable def height (g : Graph) (i : NodeId) : Nat :=
  ((Finset.range g.size).filter fun k => TransGen (Leads g.node) i k).card

theorem height_le_size (g : Graph) (i : NodeId) : g.height i ≤ g.size := by
  classical
  calc g.height i ≤ (Finset.range g.size).card := Finset.card_filter_le _ _
    _ = g.size := Finset.card_range _

variable {g : Graph}

namespace IsForest

theorem leads_within (h : g.IsForest) {a b : NodeId} (hab : Leads g.node a b) :
    a < g.size ∧ b < g.size :=
  hab.elim fun p hp => h.within a p b hp

theorem lt_size_of_transGen (h : g.IsForest) {a b : NodeId} (hab : TransGen (Leads g.node) a b) :
    b < g.size := by
  cases hab with
  | single hlast => exact (h.leads_within hlast).2
  | tail _ hlast => exact (h.leads_within hlast).2

/-- A node has more nodes below it than any of these has. -/
theorem height_lt (h : g.IsForest) {a b : NodeId} (hab : TransGen (Leads g.node) a b) :
    g.height b < g.height a := by
  classical
  refine Finset.card_lt_card (Finset.ssubset_iff_subset_ne.mpr ⟨?_, ?_⟩)
  · intro k hk
    rw [Finset.mem_filter] at hk ⊢
    exact ⟨hk.1, hab.trans hk.2⟩
  · intro heq
    have hmem : b ∈ (Finset.range g.size).filter fun k => TransGen (Leads g.node) a k :=
      Finset.mem_filter.mpr ⟨Finset.mem_range.mpr (h.lt_size_of_transGen hab), hab⟩
    rw [← heq, Finset.mem_filter] at hmem
    exact h.acyclic b hmem.2

/-- No node has all nodes below it, since it is not below itself. -/
theorem height_lt_size (h : g.IsForest) {i : NodeId} (hi : i < g.size) : g.height i < g.size := by
  classical
  have hsub : (Finset.range g.size).filter (fun k => TransGen (Leads g.node) i k) ⊂
      Finset.range g.size := by
    refine Finset.filter_ssubset.mpr ⟨i, Finset.mem_range.mpr hi, h.acyclic i⟩
  calc g.height i < (Finset.range g.size).card := Finset.card_lt_card hsub
    _ = g.size := Finset.card_range _

/-- Induction from all nodes above a node to the node. -/
theorem ancestor_induction (h : g.IsForest) {motive : NodeId → Prop}
    (step : ∀ i, (∀ a, TransGen (Leads g.node) a i → motive a) → motive i) (i : NodeId) :
    motive i := by
  -- Going up, heights grow, and no height is above the number of nodes.
  induction hn : g.size - g.height i using Nat.strongRecOn generalizing i with
  | ind n ih =>
    refine step i fun a ha => ih (g.size - g.height a) ?_ a rfl
    have hlt := h.height_lt ha
    have hle := g.height_le_size a
    omega

/-- Induction from owners to what they own. -/
theorem owner_induction (h : g.IsForest) {motive : NodeId → Prop}
    (step : ∀ i, (∀ a, Leads g.node a i → motive a) → motive i) (i : NodeId) : motive i :=
  h.ancestor_induction (fun i ih => step i fun a ha => ih a (TransGen.single ha)) i

end IsForest

/-! ## Ways -/

/-- The node at the end of a way: the places are followed one after the other. -/
def follow (g : Graph) : NodeId → List Place → Option NodeId
  | i, [] => some i
  | i, p :: rest => ((g.node i).target? p).bind fun k => g.follow k rest

theorem follow_append (g : Graph) (i : NodeId) (way rest : List Place) :
    g.follow i (way ++ rest) = (g.follow i way).bind fun k => g.follow k rest := by
  induction way generalizing i with
  | nil => rfl
  | cons p way ih =>
    simp only [List.cons_append, follow, Option.bind_assoc]
    congr 1
    funext k
    exact ih k

theorem follow_concat_eq_some_iff {i k : NodeId} {way : List Place} {p : Place} :
    g.follow i (way ++ [p]) = some k ↔
      ∃ a, g.follow i way = some a ∧ (g.node a).target? p = some k := by
  simp [follow_append, Option.bind_eq_some_iff, follow]

namespace IsForest

/-- Every node lies on a way from a root. -/
theorem exists_way (h : g.IsForest) {i : NodeId} (hi : i < g.size) :
    ∃ r ∈ g.roots, ∃ way, g.follow r way = some i := by
  induction i using h.owner_induction with
  | step i ih =>
    by_cases howned : ∃ a, Leads g.node a i
    · obtain ⟨a, p, hp⟩ := howned
      obtain ⟨r, hr, way, hway⟩ := ih a ⟨p, hp⟩ (h.within a p i hp).1
      exact ⟨r, hr, way ++ [p], follow_concat_eq_some_iff.mpr ⟨a, hway, hp⟩⟩
    · have hroot : i ∈ g.roots := (h.mem_roots i).mpr ⟨hi, fun a ha => howned ⟨a, ha⟩⟩
      exact ⟨i, hroot, [], rfl⟩

/-- No way that has an edge ends at a root. -/
theorem follow_concat_ne_root (h : g.IsForest) {r i : NodeId} (hi : i ∈ g.roots) (way : List Place)
    (p : Place) : g.follow r (way ++ [p]) ≠ some i := by
  intro hfollow
  obtain ⟨a, -, ha⟩ := follow_concat_eq_some_iff.mp hfollow
  exact ((h.mem_roots i).mp hi).2 a ⟨p, ha⟩

/-- Two ways from roots to one node are the same: both end with the one edge into the node, or
neither has an edge. -/
theorem way_unique (h : g.IsForest) {r r' : NodeId} (hr : r ∈ g.roots) (hr' : r' ∈ g.roots)
    {way way' : List Place} {i : NodeId} (hway : g.follow r way = some i)
    (hway' : g.follow r' way' = some i) : r = r' ∧ way = way' := by
  -- From the end of the ways back: it is the edge into a node that is unique.
  induction way using List.reverseRecOn generalizing i way' with
  | nil =>
    obtain rfl : r = i := by simpa [follow] using hway
    rcases List.eq_nil_or_concat' way' with rfl | ⟨before, p, rfl⟩
    · exact ⟨by simpa [follow] using hway'.symm, rfl⟩
    · exact absurd hway' (h.follow_concat_ne_root hr before p)
  | append_singleton way p ih =>
    rcases List.eq_nil_or_concat' way' with rfl | ⟨way', q, rfl⟩
    · obtain rfl : r' = i := by simpa [follow] using hway'
      exact absurd hway (h.follow_concat_ne_root hr' way p)
    · obtain ⟨a, ha, hp⟩ := follow_concat_eq_some_iff.mp hway
      obtain ⟨b, hb, hq⟩ := follow_concat_eq_some_iff.mp hway'
      obtain ⟨rfl, rfl⟩ := h.singleOwner a p b q i hp hq
      obtain ⟨rfl, rfl⟩ := ih ha hb
      exact ⟨rfl, rfl⟩

end IsForest

/-- **The forest of a built graph.**  The roots are listed once each and are exactly the nodes
without an edge into them, and every node is reached from exactly one root on exactly one way. -/
theorem Built.forest (h : g.Built) :
    g.roots.Nodup ∧ (∀ i, i ∈ g.roots ↔ i < g.size ∧ ∀ a, ¬ Leads g.node a i) ∧
      ∀ i, i < g.size →
        ∃! way : NodeId × List Place, way.1 ∈ g.roots ∧ g.follow way.1 way.2 = some i := by
  have hf := h.isForest
  refine ⟨hf.nodup_roots, hf.mem_roots, fun i hi => ?_⟩
  obtain ⟨r, hr, way, hway⟩ := hf.exists_way hi
  refine ⟨(r, way), ⟨hr, hway⟩, ?_⟩
  rintro ⟨r', way'⟩ ⟨hr', hway'⟩
  obtain ⟨rfl, rfl⟩ := hf.way_unique hr' hr hway' hway
  rfl

/-- An entry point whose loop holds two blocks in sequence, the first with a value; no root is
marked. -/
def sampleDraft : Draft :=
  [.node "A" "arduino_entry", .node "B" "time_delay", .node "C" "math_number",
    .node "D" "time_delay", .setBody 0 "LOOP" [1, 3], .setValue 1 "DELAY_TIME" 2].foldl
      (fun d e => Draft.Edit.apply e d) {}

theorem sampleDraft_reachable : sampleDraft.Reachable :=
  Draft.reachable_of_edits rfl

theorem sampleDraft_built : sampleDraft.toGraph.Built :=
  sampleDraft_reachable.built rfl

/-- The last block of the loop hangs from the entry point, which was found to be the root. -/
theorem Built.forest_sample :
    sampleDraft.toGraph.Built ∧ ∃! way : NodeId × List Place,
      way.1 ∈ sampleDraft.toGraph.roots ∧ sampleDraft.toGraph.follow way.1 way.2 = some 3 :=
  ⟨sampleDraft_built, (Built.forest sampleDraft_built).2.2 3 (by decide)⟩

end Graph

end BlockCompiler
