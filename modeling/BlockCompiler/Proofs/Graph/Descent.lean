import BlockCompiler.Proofs.Graph.Containment

/-!
# The nodes inside a node

`Graph.descendants` walks down from the slots of a node with a list of nodes that are
still to be visited, for as many steps as there are nodes.  In a forest that is enough:
the pending nodes lie apart from each other, so no node is visited twice, and each step
takes one node off those that are left.  So the walk gives the listing that recursion
over the slots and sequences gives (`preorder_descendants`), which holds exactly what a
node contains, directly or inside of what it contains (`mem_descendants_iff`).
-/

namespace BlockCompiler

open Relation

namespace Graph

variable {g : Graph}

/-- The node at `b` is the one at `a` or lies below it. -/
def Reaches (g : Graph) : NodeId → NodeId → Prop :=
  ReflTransGen (Leads g.node)

/-- Neither of the nodes lies below the other. -/
def Apart (g : Graph) (a b : NodeId) : Prop :=
  ¬ g.Reaches a b ∧ ¬ g.Reaches b a

namespace IsForest

/-- Whatever leads to a node that another one leads to goes through that one. -/
theorem reaches_owner (h : g.IsForest) {a o t : NodeId} (hot : Leads g.node o t)
    (hat : g.Reaches a t) : a = t ∨ g.Reaches a o := by
  rcases hat.cases_tail with heq | ⟨b, hab, hbt⟩
  · exact Or.inl heq.symm
  · obtain ⟨p, hp⟩ := hot
    obtain ⟨q, hq⟩ := hbt
    obtain ⟨rfl, -⟩ := h.singleOwner o p b q t hp hq
    exact Or.inr hab

theorem not_reaches_owner (h : g.IsForest) {o t : NodeId} (hot : Leads g.node o t) :
    ¬ g.Reaches t o :=
  fun hto => h.acyclic o (TransGen.head' hot hto)

theorem pairwise_apart_targets (h : g.IsForest) (i : NodeId) :
    (g.node i).targets.Pairwise g.Apart := by
  -- Two places lead to different nodes, and a way from one of these to the other would have to
  -- come back to the owner.
  have hno : ∀ {e e' : Place × NodeId}, e ∈ (g.node i).exits → e' ∈ (g.node i).exits → e ≠ e' →
      ¬ g.Reaches e.2 e'.2 := by
    intro e e' he he' hne hreach
    have hp := Node.mem_exits_iff.mp he
    have hp' := Node.mem_exits_iff.mp he'
    rcases h.reaches_owner ⟨e'.1, hp'⟩ hreach with heq | hback
    · rw [heq] at hp
      exact hne (Prod.ext (h.singleOwner i e.1 i e'.1 e'.2 hp hp').2 heq)
    · exact h.not_reaches_owner ⟨e.1, hp⟩ hback
  rw [Node.targets_eq_map_exits, List.pairwise_map]
  refine (g.node i).nodup_exits.imp_of_mem ?_
  intro e e' he he' hne
  exact ⟨hno he he' hne, hno he' he hne.symm⟩

/-- What was pending besides a node lies apart from what the node leads to. -/
theorem apart_of_leads (h : g.IsForest) {i t r : NodeId} (hit : Leads g.node i t)
    (hir : g.Apart i r) : g.Apart t r := by
  constructor
  · intro htr
    exact hir.1 (ReflTransGen.head hit htr)
  · intro hrt
    rcases h.reaches_owner hit hrt with rfl | hri
    · exact hir.1 (ReflTransGen.single hit)
    · exact hir.2 hri

end IsForest

open Classical in
/-- The nodes that are left to be visited. -/
noncomputable def left (g : Graph) (pending : List NodeId) : Finset NodeId :=
  (Finset.range g.size).filter fun k => ∃ p ∈ pending, g.Reaches p k

theorem mem_left {pending : List NodeId} {k : NodeId} :
    k ∈ g.left pending ↔ k < g.size ∧ ∃ p ∈ pending, g.Reaches p k := by
  classical
  rw [left, Finset.mem_filter, Finset.mem_range]

theorem card_left_le (g : Graph) (pending : List NodeId) : (g.left pending).card ≤ g.size := by
  classical
  calc (g.left pending).card ≤ (Finset.range g.size).card := Finset.card_filter_le _ _
    _ = g.size := Finset.card_range _

/-- Below a node and others lies the node itself, and what lies below its targets and the others. -/
theorem exists_reaches_cons_iff {i m : NodeId} {pending : List NodeId} :
    (∃ p ∈ i :: pending, g.Reaches p m) ↔
      m = i ∨ ∃ p ∈ (g.node i).targets ++ pending, g.Reaches p m := by
  constructor
  · rintro ⟨p, hp, hreach⟩
    rcases List.mem_cons.mp hp with rfl | hp
    · rcases hreach.cases_head with rfl | ⟨t, hlead, hreach⟩
      · exact Or.inl rfl
      · exact Or.inr ⟨t, List.mem_append_left _ (Node.mem_targets_iff.mpr hlead), hreach⟩
    · exact Or.inr ⟨p, List.mem_append_right _ hp, hreach⟩
  · rintro (rfl | ⟨p, hp, hreach⟩)
    · exact ⟨m, List.mem_cons_self, .refl⟩
    · rcases List.mem_append.mp hp with hp | hp
      · exact ⟨i, List.mem_cons_self, ReflTransGen.head (Node.mem_targets_iff.mp hp) hreach⟩
      · exact ⟨p, List.mem_cons_of_mem _ hp, hreach⟩

/-- The pending nodes are nodes of the graph that lie apart from each other. -/
structure Separate (g : Graph) (pending : List NodeId) : Prop where
  lt_size : ∀ p ∈ pending, p < g.size
  apart : pending.Pairwise g.Apart

/-- Nothing that is pending after a step of the walk leads back to the visited node. -/
theorem IsForest.not_reaches_of_separate (h : g.IsForest) {i p : NodeId} {pending : List NodeId}
    (hsep : g.Separate (i :: pending)) (hp : p ∈ (g.node i).targets ++ pending) :
    ¬ g.Reaches p i := by
  rcases List.mem_append.mp hp with hp | hp
  · exact h.not_reaches_owner (Node.mem_targets_iff.mp hp)
  · exact ((List.pairwise_cons.mp hsep.apart).1 p hp).2

/-- A step of the walk takes the visited node off, and nothing is added. -/
theorem IsForest.card_left_lt (h : g.IsForest) {i : NodeId} {pending : List NodeId}
    (hsep : g.Separate (i :: pending)) :
    (g.left ((g.node i).targets ++ pending)).card < (g.left (i :: pending)).card := by
  refine Finset.card_lt_card (Finset.ssubset_iff_of_subset ?_ |>.mpr ⟨i, ?_, ?_⟩)
  · intro k hk
    obtain ⟨hlt, hreach⟩ := mem_left.mp hk
    exact mem_left.mpr ⟨hlt, exists_reaches_cons_iff.mpr (Or.inr hreach)⟩
  · exact mem_left.mpr ⟨hsep.lt_size i List.mem_cons_self, i, List.mem_cons_self, .refl⟩
  · intro hk
    obtain ⟨-, p, hp, hreach⟩ := mem_left.mp hk
    exact h.not_reaches_of_separate hsep hp hreach

/-- A step of the walk keeps the pending nodes separate. -/
theorem IsForest.separate_step (h : g.IsForest) {i : NodeId} {pending : List NodeId}
    (hsep : g.Separate (i :: pending)) : g.Separate ((g.node i).targets ++ pending) := by
  obtain ⟨-, hpending⟩ := List.forall_mem_cons.mp hsep.lt_size
  obtain ⟨hapart_i, hapart_pending⟩ := List.pairwise_cons.mp hsep.apart
  constructor
  · exact List.forall_mem_append.mpr
      ⟨fun t ht => (h.leads_within (Node.mem_targets_iff.mp ht)).2, hpending⟩
  · exact List.pairwise_append.mpr ⟨h.pairwise_apart_targets i, hapart_pending, fun t ht r hr =>
      h.apart_of_leads (Node.mem_targets_iff.mp ht) (hapart_i r hr)⟩

theorem IsForest.separate_slotTargets (h : g.IsForest) (i : NodeId) :
    g.Separate (g.node i).slotTargets := by
  have htargets := h.pairwise_apart_targets i
  rw [Node.targets] at htargets
  refine ⟨fun t ht => ?_, (List.pairwise_append.mp htargets).1⟩
  obtain ⟨p, -, hp⟩ := Node.mem_slotTargets_iff.mp ht
  exact (h.within i p t hp).2

/-! ## The listing by recursion -/

/-- The nodes below a list of nodes as they are listed by recursion: each node of the list is
followed by the listings of its value slots by name, of its statement slots by name and of the node
after it in its sequence. -/
inductive Preorder (g : Graph) : List NodeId → List NodeId → Prop where
  | nil : Preorder g [] []
  | cons {i : NodeId} {rest values statements next after : List NodeId} :
      Preorder g (g.node i).values.values values →
      Preorder g (g.node i).statements.values statements →
      Preorder g (g.node i).next.toList next → Preorder g rest after →
      Preorder g (i :: rest) (i :: (values ++ statements ++ next ++ after))

namespace Preorder

/-- A list of nodes has one listing. -/
theorem unique {nodes listed listed' : List NodeId} (h : g.Preorder nodes listed)
    (h' : g.Preorder nodes listed') : listed = listed' := by
  induction h generalizing listed' with
  | nil =>
    cases h'
    rfl
  | cons _ _ _ _ ihvalues ihstatements ihnext ihrest =>
    cases h' with
    | cons hvalues hstatements hnext hrest =>
      rw [ihvalues hvalues, ihstatements hstatements, ihnext hnext, ihrest hrest]

/-- Nodes that stand one after the other are listed one after the other. -/
theorem exists_append {nodes nodes' listed : List NodeId} (h : g.Preorder (nodes ++ nodes') listed) :
    ∃ front back, g.Preorder nodes front ∧ g.Preorder nodes' back ∧ listed = front ++ back := by
  induction nodes generalizing listed with
  | nil => exact ⟨[], listed, .nil, h, rfl⟩
  | cons i nodes ih =>
    cases h with
    | cons hvalues hstatements hnext hrest =>
      obtain ⟨front, back, hfront, hback, rfl⟩ := ih hrest
      exact ⟨_, back, .cons hvalues hstatements hnext hfront, hback, by simp⟩

/-- A listing has the nodes that are listed and all that lies below them. -/
theorem mem_iff {nodes listed : List NodeId} (h : g.Preorder nodes listed) {m : NodeId} :
    m ∈ listed ↔ ∃ p ∈ nodes, g.Reaches p m := by
  induction h with
  | nil => simp
  | cons _ _ _ _ ihvalues ihstatements ihnext ihrest =>
    rw [exists_reaches_cons_iff, List.mem_cons, List.mem_append, List.mem_append, List.mem_append,
      ihvalues, ihstatements, ihnext, ihrest, Node.targets, Node.slotTargets]
    simp only [List.mem_append, or_and_right, exists_or]

/-- The listing after a step of the walk is the rest of the listing before it. -/
theorem of_step {i : NodeId} {pending visited : List NodeId}
    (h : g.Preorder ((g.node i).targets ++ pending) visited) :
    g.Preorder (i :: pending) (i :: visited) := by
  obtain ⟨below, after, hbelow, hafter, rfl⟩ := h.exists_append
  obtain ⟨slots, next, hslots, hnext, rfl⟩ := hbelow.exists_append
  obtain ⟨values, statements, hvalues, hstatements, rfl⟩ := hslots.exists_append
  exact .cons hvalues hstatements hnext hafter

end Preorder

/-- **The walk lists the nodes below the pending ones as recursion does**, if these lie apart. -/
theorem IsForest.preorder_walk (h : g.IsForest) {fuel : Nat} {pending : List NodeId}
    (hsep : g.Separate pending) (hfuel : (g.left pending).card ≤ fuel) :
    g.Preorder pending (g.walk fuel pending) := by
  induction fuel generalizing pending with
  | zero =>
    -- Nothing is left, so nothing is pending.
    have hnil : pending = [] := by
      refine List.eq_nil_iff_forall_not_mem.mpr fun p hp => ?_
      have hmem : p ∈ g.left pending := mem_left.mpr ⟨hsep.lt_size p hp, p, hp, .refl⟩
      rw [Finset.card_eq_zero.mp (Nat.le_zero.mp hfuel)] at hmem
      exact absurd hmem (Finset.notMem_empty p)
    rw [hnil, walk]
    exact .nil
  | succ fuel ih =>
    cases pending with
    | nil => exact .nil
    | cons i pending =>
      have hcard := h.card_left_lt hsep
      exact (ih (h.separate_step hsep) (by omega)).of_step

theorem IsForest.nodup_walk (h : g.IsForest) {fuel : Nat} {pending : List NodeId}
    (hsep : g.Separate pending) (hfuel : (g.left pending).card ≤ fuel) :
    (g.walk fuel pending).Nodup := by
  induction fuel generalizing pending with
  | zero => exact List.nodup_nil
  | succ fuel ih =>
    cases pending with
    | nil => exact List.nodup_nil
    | cons i pending =>
      have hcard := h.card_left_lt hsep
      have hsep' := h.separate_step hsep
      have hfuel' : (g.left ((g.node i).targets ++ pending)).card ≤ fuel := by omega
      refine List.nodup_cons.mpr ⟨fun hmem => ?_, ih hsep' hfuel'⟩
      obtain ⟨p, hp, hreach⟩ := (h.preorder_walk hsep' hfuel').mem_iff.mp hmem
      exact h.not_reaches_of_separate hsep hp hreach

theorem IsForest.preorder_descendants (h : g.IsForest) (i : NodeId) :
    g.Preorder (g.node i).slotTargets (g.descendants i) :=
  h.preorder_walk (h.separate_slotTargets i) (g.card_left_le _)

theorem IsForest.nodup_descendants (h : g.IsForest) (i : NodeId) : (g.descendants i).Nodup :=
  h.nodup_walk (h.separate_slotTargets i) (g.card_left_le _)

/-! ## Containment at any depth -/

/-- What a node contains leads on to what the node contains, directly or not. -/
theorem transGen_contains_of_leads {i b c : NodeId} (hb : TransGen g.Contains i b)
    (hbc : Leads g.node b c) : TransGen g.Contains i c := by
  obtain ⟨p, hp⟩ := hbc
  by_cases hnext : p = .next
  · -- Along the sequence the container stays the same.
    subst hnext
    have hextend : ∀ {o}, g.Contains o b → g.Contains o c := fun ⟨q, head, hq, hslot, hchain⟩ =>
      ⟨q, head, hq, hslot, hchain.tail hp⟩
    rcases TransGen.tail'_iff.mp hb with ⟨o, hio, hob⟩
    exact TransGen.tail' hio (hextend hob)
  · exact hb.tail ⟨p, c, hnext, hp, .refl⟩

theorem transGen_contains_iff {i m : NodeId} :
    TransGen g.Contains i m ↔ ∃ t ∈ (g.node i).slotTargets, g.Reaches t m := by
  constructor
  · intro h
    induction h with
    | single hcontains =>
      obtain ⟨p, head, hp, hslot, hchain⟩ := hcontains
      exact ⟨head, Node.mem_slotTargets_iff.mpr ⟨p, hp, hslot⟩,
        ReflTransGen.mono (fun _ _ hnext => hnext.leads) _ _ hchain⟩
    | tail _ hcontains ih =>
      obtain ⟨t, ht, hreach⟩ := ih
      exact ⟨t, ht, ReflTransGen.trans hreach hcontains.transGen.to_reflTransGen⟩
  · rintro ⟨t, ht, hreach⟩
    obtain ⟨p, hp, hslot⟩ := Node.mem_slotTargets_iff.mp ht
    induction hreach with
    | refl => exact TransGen.single ⟨p, t, hp, hslot, .refl⟩
    | tail _ hlead ih => exact transGen_contains_of_leads ih hlead

/-- **The nodes that are listed inside a node** are those that it contains at any depth. -/
theorem IsForest.mem_descendants_iff (h : g.IsForest) {i m : NodeId} :
    m ∈ g.descendants i ↔ TransGen g.Contains i m := by
  rw [(h.preorder_descendants i).mem_iff, transGen_contains_iff]

end Graph

end BlockCompiler
