import BlockCompiler.Proofs.Graph.Forest

/-!
# Containment

A slot holds a whole sequence: the node it leads to and all that follow.  The owner
of the slot contains every node of the sequence, and a node is contained by at most
one other, since going back along its sequence can only end at one slot.  The
parents that building fills in are exactly these owners
(`Built.parent_eq_some_iff`), so the walk over the parents of a node never ends
early (`Built.ancestors_eq_cons`), and a node stands inside a container iff its
parent is one or stands inside one (`Built.isInside_iff`).
-/

namespace BlockCompiler

open Relation

/-- The node at `b` comes right after the one at `a` in its sequence. -/
def Next (node : NodeId → Node) (a b : NodeId) : Prop :=
  (node a).next = some b

/-- The link to the next node is an edge. -/
theorem Next.leads {node : NodeId → Node} {a b : NodeId} (h : Next node a b) : Leads node a b :=
  ⟨.next, h⟩

theorem stepsTo_next (node : NodeId → Node) :
    StepsTo (fun k => (node k).next) = Function.swap (Next node) := rfl

theorem Graph.chainFrom_congr {node node' : NodeId → Node}
    (h : ∀ i, (node i).next = (node' i).next) (steps : Nat) (i : NodeId) :
    Graph.chainFrom node steps i = Graph.chainFrom node' steps i := by
  induction steps generalizing i with
  | zero => rfl
  | succ steps ih =>
    simp only [Graph.chainFrom, h]
    cases (node' i).next with
    | none => rfl
    | some k => simp only [ih]

/-! ## Graphs with the same links -/

/-- The key, the type and the fields of a node with the links of another. -/
@[reducible] def Node.relink (n m : Node) : Node :=
  { m with key := n.key, type := n.type, fields := n.fields }

/-- The nodes of the second graph have the links of those of the first. -/
structure Graph.SameLinks (g g' : Graph) : Prop where
  size : g'.size = g.size
  node : ∀ i, g'.node i = (g'.node i).relink (g.node i)

namespace Graph.SameLinks

variable {g g' : Graph} (h : g.SameLinks g')

include h

/-- Sequences are followed along links only. -/
theorem chain_eq : g'.chain = g.chain := by
  funext head
  rw [chain, chain, h.size]
  exact chainFrom_congr (fun i => by rw [h.node i]) g.size head

theorem ancestors_eq : g'.ancestors = g.ancestors := by
  have hparent : ∀ k, (g'.node k).parent = (g.node k).parent := fun k => by rw [h.node k]
  funext i
  simp only [ancestors, ancestorsFrom_eq_ascend, h.size, hparent]

theorem descendants_eq : g'.descendants = g.descendants := by
  have hwalk : ∀ fuel pending, g'.walk fuel pending = g.walk fuel pending := by
    intro fuel
    induction fuel with
    | zero => exact fun _ => rfl
    | succ fuel ih =>
      intro pending
      cases pending with
      | nil => rfl
      | cons i pending =>
        have htargets : (g'.node i).targets = (g.node i).targets := by
          rw [h.node i]
          rfl
        rw [walk, walk, htargets, ih]
  funext i
  have hslots : (g'.node i).slotTargets = (g.node i).slotTargets := by
    rw [h.node i]
    rfl
  rw [descendants, descendants, h.size, hslots, hwalk]

end Graph.SameLinks

namespace Graph

variable {g : Graph}

/-- A slot of the node at `o` holds a sequence that the node at `m` belongs to. -/
def Contains (g : Graph) (o m : NodeId) : Prop :=
  ∃ p head, p ≠ .next ∧ (g.node o).target? p = some head ∧ ReflTransGen (Next g.node) head m

/-! ## Sequences -/

/-- The nodes of a sequence come after its head. -/
theorem reflTransGen_of_mem_chain {head m : NodeId} (h : m ∈ g.chain head) :
    ReflTransGen (Next g.node) head m := by
  rw [chain] at h
  cases hsize : g.size with
  | zero => simp [hsize, chainFrom] at h
  | succ steps =>
    rw [hsize, chainFrom_succ_eq_cons] at h
    rcases List.mem_cons.mp h with rfl | h
    · exact .refl
    · have hafter := transGen_of_mem_ascend h
      rw [stepsTo_next, transGen_swap] at hafter
      exact hafter.to_reflTransGen

/-- All nodes of the sequence in a slot are contained by the node with the slot. -/
theorem contains_of_mem_chain {o head m : NodeId} {p : Place} (hp : p ≠ .next)
    (hslot : (g.node o).target? p = some head) (hm : m ∈ g.chain head) : g.Contains o m :=
  ⟨p, head, hp, hslot, reflTransGen_of_mem_chain hm⟩

namespace IsForest

theorem within_next (h : g.IsForest) : Within (fun k => (g.node k).next) g.size := by
  intro i k hk
  exact h.within i .next k hk

theorem acyclic_next (h : g.IsForest) (i : NodeId) :
    ¬ TransGen (StepsTo fun k => (g.node k).next) i i := by
  intro hcircle
  rw [stepsTo_next, transGen_swap] at hcircle
  exact h.acyclic i (TransGen.mono (fun _ _ hnext => hnext.leads) _ _ hcircle)

/-- With enough steps a sequence is listed to its end. -/
theorem chainFrom_eq_cons (h : g.IsForest) {head : NodeId} (hhead : head < g.size) {steps : Nat}
    (hle : g.size ≤ steps) :
    chainFrom g.node steps head = head :: ascend (fun k => (g.node k).next) g.size head := by
  obtain ⟨steps, rfl⟩ := Nat.exists_eq_add_of_lt (Nat.lt_of_lt_of_le (Nat.zero_lt_of_lt hhead) hle)
  rw [Nat.zero_add] at hle ⊢
  have hno := (acyclic_iff_not_mem_ascend h.within_next).mp h.acyclic_next
  -- One step of the bound goes to the first node, and the others never need all of it.
  have hlen := length_ascend_lt h.within_next hno hhead
  rw [chainFrom_succ_eq_cons]
  congr 1
  rcases Nat.le_total g.size steps with hmore | hless
  · exact ascend_eq_ascend_size h.within_next hno hmore head
  · exact ascend_eq_of_length_le hless (by omega)

/-- A sequence has come to its end after as many steps as there are nodes. -/
theorem chain_eq_chainFrom (h : g.IsForest) {head : NodeId} (hhead : head < g.size) {steps : Nat}
    (hle : g.size ≤ steps) : g.chain head = chainFrom g.node steps head := by
  rw [chain, h.chainFrom_eq_cons hhead (Nat.le_refl _), h.chainFrom_eq_cons hhead hle]

/-- A sequence lists its first node and all that come after it. -/
theorem mem_chain_iff (h : g.IsForest) {head m : NodeId} (hhead : head < g.size) :
    m ∈ g.chain head ↔ ReflTransGen (Next g.node) head m := by
  rw [chain, h.chainFrom_eq_cons hhead (Nat.le_refl _), List.mem_cons,
    mem_ascend_iff h.within_next h.acyclic_next, stepsTo_next, transGen_swap,
    reflTransGen_iff_eq_or_transGen]

/-- A sequence does not come back to a node. -/
theorem nodup_chain (h : g.IsForest) (head : NodeId) : (g.chain head).Nodup := by
  have hno := (acyclic_iff_not_mem_ascend h.within_next).mp h.acyclic_next
  rw [chain]
  cases hsize : g.size with
  | zero => exact List.nodup_nil
  | succ steps =>
    rw [chainFrom_succ_eq_cons]
    exact nodup_cons_ascend hno (by omega) head

end IsForest

/-! ## Containers are unique -/

/-- A node that contains another one is above it. -/
theorem Contains.transGen {o m : NodeId} (h : g.Contains o m) : TransGen (Leads g.node) o m := by
  obtain ⟨p, head, -, hslot, hchain⟩ := h
  exact TransGen.head' ⟨p, hslot⟩ (ReflTransGen.mono (fun _ _ hnext => hnext.leads) _ _ hchain)

/-- Going back along a sequence ends at the one slot that holds it. -/
theorem IsForest.slot_unique (h : g.IsForest) {o o' head head' m : NodeId} {p p' : Place}
    (hp : p ≠ .next) (hp' : p' ≠ .next) (hslot : (g.node o).target? p = some head)
    (hslot' : (g.node o').target? p' = some head') (hchain : ReflTransGen (Next g.node) head m)
    (hchain' : ReflTransGen (Next g.node) head' m) : o = o' ∧ p = p' := by
  -- The edge into the node comes from a slot for both owners, or from the node before it for both.
  induction hchain with
  | refl =>
    rcases hchain'.cases_tail with rfl | ⟨b, -, hb⟩
    · exact h.singleOwner o p o' p' _ hslot hslot'
    · exact absurd (h.singleOwner o p b .next _ hslot hb).2 hp
  | tail _ hnext ih =>
    rcases hchain'.cases_tail with rfl | ⟨b, hb, hb'⟩
    · exact absurd (h.singleOwner o' p' _ .next _ hslot' hnext).2 hp'
    · obtain ⟨rfl, -⟩ := h.singleOwner _ .next b .next _ hnext hb'
      exact ih hb

/-- A node is contained by one node at most. -/
theorem IsForest.contains_unique (h : g.IsForest) {o o' m : NodeId} (ho : g.Contains o m)
    (ho' : g.Contains o' m) : o = o' := by
  obtain ⟨p, head, hp, hslot, hchain⟩ := ho
  obtain ⟨p', head', hp', hslot', hchain'⟩ := ho'
  exact (h.slot_unique hp hp' hslot hslot' hchain hchain').1

/-! ## Sequences at top level -/

namespace IsForest

/-- A sequence that begins at a root belongs to that root alone. -/
theorem root_unique (h : g.IsForest) {r r' m : NodeId} (hr : r ∈ g.roots) (hr' : r' ∈ g.roots)
    (hm : ReflTransGen (Next g.node) r m) (hm' : ReflTransGen (Next g.node) r' m) : r = r' := by
  have hfree : ∀ {root b}, root ∈ g.roots → ¬ Next g.node b root := fun hroot hb =>
    ((h.mem_roots _).mp hroot).2 _ hb.leads
  induction hm with
  | refl =>
    rcases hm'.cases_tail with heq | ⟨b, -, hb⟩
    · exact heq
    · exact absurd hb (hfree hr)
  | tail _ hnext ih =>
    rcases hm'.cases_tail with rfl | ⟨b, hb, hb'⟩
    · exact absurd hnext (hfree hr')
    · obtain ⟨rfl, -⟩ := h.singleOwner _ .next b .next _ hnext hb'
      exact ih hb

/-- No slot holds a block of a sequence that begins at a root. -/
theorem not_contains_of_root (h : g.IsForest) {r o m : NodeId} (hr : r ∈ g.roots)
    (hm : ReflTransGen (Next g.node) r m) : ¬ g.Contains o m := by
  induction hm with
  | refl =>
    intro ho
    obtain ⟨b, -, hb⟩ := TransGen.tail'_iff.mp ho.transGen
    exact ((h.mem_roots _).mp hr).2 b hb
  | tail _ hnext ih =>
    rintro ⟨p, head, hp, hslot, hreach⟩
    rcases hreach.cases_tail with rfl | ⟨b, hb, hb'⟩
    · exact hp (h.singleOwner o p _ .next _ hslot hnext).2
    · obtain ⟨rfl, -⟩ := h.singleOwner _ .next b .next _ hnext hb'
      exact ih ⟨p, head, hp, hslot, hb⟩

/-- A node that no slot holds belongs to the sequence of a root. -/
theorem exists_root_of_not_contains (h : g.IsForest) {m : NodeId} (hm : m < g.size)
    (hnot : ∀ o, ¬ g.Contains o m) : ∃ r ∈ g.roots, ReflTransGen (Next g.node) r m := by
  induction m using h.owner_induction with
  | step m ih =>
    by_cases howned : ∃ a, Leads g.node a m
    · obtain ⟨a, p, hp⟩ := howned
      by_cases hnext : p = .next
      · -- The node before it is not held by a slot either, since a slot holds whole sequences.
        subst hnext
        have hbefore : ∀ o, ¬ g.Contains o a := by
          rintro o ⟨q, head, hq, hslot, hchain⟩
          exact hnot o ⟨q, head, hq, hslot, hchain.tail hp⟩
        obtain ⟨r, hr, hchain⟩ := ih a ⟨.next, hp⟩ (h.within a .next m hp).1 hbefore
        exact ⟨r, hr, hchain.tail hp⟩
      · exact absurd ⟨p, m, hnext, hp, .refl⟩ (hnot a)
    · exact ⟨m, (h.mem_roots m).mpr ⟨hm, fun a ha => howned ⟨a, ha⟩⟩, .refl⟩

end IsForest

/-! ## Parents -/

theorem next_toGraph (d : Draft) (i : NodeId) : (d.toGraph.node i).next = (d.node i).next :=
  d.target?_toGraph i .next

theorem chainFrom_draft (d : Draft) (head : NodeId) :
    chainFrom d.node d.size head = d.toGraph.chain head := by
  rw [chain, Draft.size_toGraph]
  exact chainFrom_congr (fun i => (next_toGraph d i).symm) d.size head

/-- The table that parents are filled in from lists what contains what. -/
theorem mem_containment_iff {d : Draft} (h : d.toGraph.IsForest) {o m : NodeId} :
    { owner := o, target := m } ∈ d.containment ↔ d.toGraph.Contains o m := by
  simp only [Draft.containment, List.mem_flatMap, List.mem_map, Draft.ids, List.mem_range,
    chainFrom_draft]
  constructor
  · rintro ⟨i, -, head, hhead, k, hk, heq⟩
    cases heq
    obtain ⟨p, hp, hslot⟩ := Node.mem_slotTargets_iff.mp hhead
    rw [← d.target?_toGraph] at hslot
    exact contains_of_mem_chain hp hslot hk
  · rintro ⟨p, head, hp, hslot, hreach⟩
    obtain ⟨ho, hhead⟩ := h.within o p head hslot
    rw [Draft.size_toGraph] at ho
    refine ⟨o, ho, head, ?_, m, (h.mem_chain_iff hhead).mpr hreach, rfl⟩
    rw [d.target?_toGraph] at hslot
    exact Node.mem_slotTargets_iff.mpr ⟨p, hp, hslot⟩

theorem IsForest.lt_size_of_contains (h : g.IsForest) {o m : NodeId} (hom : g.Contains o m) :
    o < g.size ∧ m < g.size := by
  refine ⟨?_, h.lt_size_of_transGen hom.transGen⟩
  obtain ⟨p, head, -, hslot, -⟩ := hom
  exact (h.within o p head hslot).1

/-- A table made of the assignments of parents shows the container of a node, in whatever order and
however often the assignments are made. -/
theorem ownerIn_ownerTable_iff_contains {d : Draft} (h : d.toGraph.IsForest) {links : List Link}
    (hlinks : ∀ l, l ∈ links ↔ l ∈ d.containment) {o m : NodeId} :
    Draft.ownerIn (Draft.ownerTable d.size links) m = some o ↔ d.toGraph.Contains o m := by
  constructor
  · intro howner
    exact (mem_containment_iff h).mp ((hlinks _).mp (Draft.exists_link_of_ownerIn howner).2)
  · intro hcontains
    refine Draft.ownerIn_ownerTable_eq_some ?_
      ((hlinks _).mpr ((mem_containment_iff h).mpr hcontains)) ?_
    · rw [← d.size_toGraph]
      exact (h.lt_size_of_contains hcontains).2
    · intro a ha
      exact h.contains_unique ((mem_containment_iff h).mp ((hlinks _).mp ha)) hcontains

/-- **The parent of a node is the one node that contains it.** -/
theorem Built.parent_eq_some_iff (h : g.Built) {o m : NodeId} :
    (g.node m).parent = some o ↔ g.Contains o m := by
  have hf := h.isForest
  obtain ⟨d, -, hb⟩ := h
  obtain rfl := Draft.eq_toGraph_of_build hb
  rw [d.node_toGraph]
  exact ownerIn_ownerTable_iff_contains hf fun _ => Iff.rfl

namespace Built

/-- Parents are above their children. -/
theorem transGen_of_parent (h : g.Built) {o m : NodeId}
    (hom : TransGen (StepsTo fun k => (g.node k).parent) o m) : TransGen (Leads g.node) o m := by
  induction hom with
  | single hparent => exact (h.parent_eq_some_iff.mp hparent).transGen
  | tail _ hparent ih => exact ih.trans (h.parent_eq_some_iff.mp hparent).transGen

theorem within_parent (h : g.Built) : Within (fun k => (g.node k).parent) g.size := by
  intro i k hk
  exact (h.isForest.lt_size_of_contains (h.parent_eq_some_iff.mp hk)).symm

/-- No node is an ancestor of itself. -/
theorem acyclic_parent (h : g.Built) (i : NodeId) :
    ¬ TransGen (StepsTo fun k => (g.node k).parent) i i :=
  fun hcircle => h.isForest.acyclic i (h.transGen_of_parent hcircle)

/-- The nodes around a node are its parent and the nodes around that one. -/
theorem ancestors_eq_cons (h : g.Built) {i p : NodeId} (hp : (g.node i).parent = some p) :
    g.ancestors i = p :: g.ancestors p := by
  simp only [ancestors, ancestorsFrom_eq_ascend]
  exact BlockCompiler.ascend_eq_cons h.within_parent h.acyclic_parent hp

theorem ancestors_eq_nil {i : NodeId} (hp : (g.node i).parent = none) : g.ancestors i = [] := by
  rw [ancestors, ancestorsFrom_eq_ascend]
  exact ascend_of_none hp g.size

/-- A node is inside of what its parent is, or is inside of. -/
theorem isInside_iff (h : g.Built) (allowed : TypeSet) {i p : NodeId}
    (hp : (g.node i).parent = some p) :
    g.isInside allowed i = true ↔
      allowed.contains (g.node p).type = true ∨ g.isInside allowed p = true := by
  rw [isInside, isInside, enclosing?, enclosing?, h.ancestors_eq_cons hp, List.find?_cons]
  cases allowed.contains (g.node p).type <;> simp

end Built

end Graph

end BlockCompiler
