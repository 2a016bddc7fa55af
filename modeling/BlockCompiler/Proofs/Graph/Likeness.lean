import BlockCompiler.Proofs.Graph.Descent
import Mathlib.Data.List.Forall2

/-!
# Graphs that look alike in part

Positions say nothing about a program; keys do.  The portrait of a node is the node
with its links given by the keys of the nodes they lead to.  If two graphs have the same
portraits for some of their nodes, a pairing relates these nodes by their portraits
(`pairing_of_portraits`).  The part of a graph that is paired is closed under
containment, both ways: a node of it takes with it the node that contains it and
everything that it contains.

In a pairing all walks agree: sequences (`Pairing.chain`), the nodes around a node
(`Pairing.ancestors`) and those inside of it (`Pairing.descendants`).
-/

namespace BlockCompiler

open Relation

/-! ## Portraits -/

/-- A node with its links given by keys. -/
structure Portrait where
  key : String
  type : String
  fields : Dict String
  values : Dict String
  statements : Dict String
  next : Option String

namespace Portrait

/-- The key that a place leads to. -/
def target? (n : Portrait) : Place → Option String
  | .value slot => n.values.get? slot
  | .statement slot => n.statements.get? slot
  | .next => n.next

end Portrait

namespace Graph

/-- The key of the node at a position. -/
def keyOf (g : Graph) (i : NodeId) : String :=
  (g.node i).key

/-- The node at a position with its links given by keys. -/
def portrait (g : Graph) (i : NodeId) : Portrait where
  key := (g.node i).key
  type := (g.node i).type
  fields := (g.node i).fields
  values := (g.node i).values.map g.keyOf
  statements := (g.node i).statements.map g.keyOf
  next := (g.node i).next.map g.keyOf

theorem target?_portrait (g : Graph) (i : NodeId) (p : Place) :
    (g.portrait i).target? p = ((g.node i).target? p).map g.keyOf := by
  cases p with
  | value slot => exact Dict.get?_map _ _ _
  | statement slot => exact Dict.get?_map _ _ _
  | next => rfl

variable {g g' : Graph}

/-- Some slot holds the node. -/
def IsContained (g : Graph) (i : NodeId) : Prop :=
  ∃ o, g.Contains o i

theorem contains_of_target? {o t : NodeId} {p : Place} (hp : p ≠ .next)
    (h : (g.node o).target? p = some t) : g.Contains o t :=
  ⟨p, t, hp, h, .refl⟩

theorem Contains.next {o b c : NodeId} (h : g.Contains o b) (hnext : Next g.node b c) :
    g.Contains o c := by
  obtain ⟨p, head, hp, hslot, hchain⟩ := h
  exact ⟨p, head, hp, hslot, hchain.tail hnext⟩

/-- Sequences of two graphs match node by node if the links to the next node keep the match. -/
theorem forall₂_chain {T : NodeId → NodeId → Prop}
    (hnext : ∀ i i', T i i' → Option.Rel T (g.node i).next (g'.node i').next)
    (hg : g.IsForest) (hg' : g'.IsForest) {i i' : NodeId} (hi : i < g.size) (hi' : i' < g'.size)
    (hT : T i i') : List.Forall₂ T (g.chain i) (g'.chain i') := by
  -- The two sizes may differ; both sequences are listed with the greater one as the bound.
  rw [hg.chain_eq_chainFrom hi (Nat.le_max_left _ g'.size),
    hg'.chain_eq_chainFrom hi' (Nat.le_max_right g.size _)]
  clear hi hi'
  induction max g.size g'.size generalizing i i' with
  | zero => exact .nil
  | succ steps ih =>
    have hrel := hnext i i' hT
    rw [chainFrom, chainFrom]
    refine .cons hT ?_
    generalize (g.node i).next = t, (g'.node i').next = t' at hrel ⊢
    cases hrel with
    | none => exact .nil
    | some ht => exact ih ht

/-! ## Nodes around matching nodes -/

section Around

variable {S : NodeId → NodeId → Prop}

/-- The nodes around two nodes match one by one if the nodes that contain matching nodes do. -/
theorem forall₂_ancestors (hg : g.Built) (hg' : g'.Built)
    (howner : ∀ i i' o, S i i' → g.Contains o i → ∃ o', S o o' ∧ g'.Contains o' i')
    (howner' : ∀ i i' o', S i i' → g'.Contains o' i' → ∃ o, S o o' ∧ g.Contains o i)
    {i i' : NodeId} (hS : S i i') : List.Forall₂ S (g.ancestors i) (g'.ancestors i') := by
  induction i using hg.isForest.ancestor_induction generalizing i' with
  | step i ih =>
    cases hp : (g.node i).parent with
    | none =>
      have hp' : (g'.node i').parent = none := by
        refine Option.eq_none_iff_forall_ne_some.mpr fun o' ho' => ?_
        obtain ⟨o, -, ho⟩ := howner' i i' o' hS (hg'.parent_eq_some_iff.mp ho')
        rw [hg.parent_eq_some_iff.mpr ho] at hp
        cases hp
      rw [Built.ancestors_eq_nil hp, Built.ancestors_eq_nil hp']
      exact .nil
    | some o =>
      have ho := hg.parent_eq_some_iff.mp hp
      obtain ⟨o', hSo, ho'⟩ := howner i i' o hS ho
      rw [hg.ancestors_eq_cons hp, hg'.ancestors_eq_cons (hg'.parent_eq_some_iff.mpr ho')]
      exact .cons hSo (ih o ho.transGen hSo)

variable (htype : ∀ i i', S i i' → (g'.node i').type = (g.node i).type) {i i' : NodeId}
  (hancestors : List.Forall₂ S (g.ancestors i) (g'.ancestors i'))

include htype hancestors

theorem isInside_of_forall₂ (allowed : TypeSet) :
    g'.isInside allowed i' = g.isInside allowed i := by
  simp only [Graph.isInside, enclosing?]
  generalize g.ancestors i = above, g'.ancestors i' = above' at hancestors ⊢
  induction hancestors with
  | nil => rfl
  | @cons a a' _ _ ha _ ih =>
    rw [List.find?_cons, List.find?_cons, htype a a' ha]
    cases allowed.contains (g.node a).type with
    | true => rfl
    | false => exact ih

theorem enclosingWithin_of_forall₂ (types : List String) (bounds : TypeSet) :
    (g'.enclosingWithin? types bounds i').isSome = (g.enclosingWithin? types bounds i).isSome := by
  simp only [enclosingWithin?]
  generalize g.ancestors i = above, g'.ancestors i' = above' at hancestors ⊢
  induction hancestors with
  | nil => rfl
  | @cons a a' _ _ ha _ ih =>
    rw [firstWithin?, firstWithin?, htype a a' ha]
    split
    · rfl
    · split
      · rfl
      · exact ih

end Around

/-! ## Pairings -/

variable {S : NodeId → NodeId → Prop}

/-- Places of related nodes lead to related nodes.  The links to the next node are left out where
nodes stand at top level. -/
def KeepsTargets (g g' : Graph) (S : NodeId → NodeId → Prop) : Prop :=
  ∀ i i' p, S i i' → p ≠ .next ∨ g.IsContained i →
    Option.Rel S ((g.node i).target? p) ((g'.node i').target? p)

/-- A place that leads somewhere leads to the counterpart in the other graph. -/
theorem KeepsTargets.exists_target (h : KeepsTargets g g' S) {i i' t : NodeId} {p : Place} (hS : S i i')
    (hp : p ≠ .next ∨ g.IsContained i) (ht : (g.node i).target? p = some t) :
    ∃ t', (g'.node i').target? p = some t' ∧ S t t' := by
  have hrel := h i i' p hS hp
  rw [ht] at hrel
  generalize (g'.node i').target? p = o' at hrel ⊢
  cases hrel with
  | some hS' => exact ⟨_, rfl, hS'⟩

/-- What a node contains has its counterpart, along whole sequences. -/
theorem KeepsTargets.exists_contains (h : KeepsTargets g g' S) {o o' m : NodeId} (hS : S o o')
    (hm : g.Contains o m) : ∃ m', S m m' ∧ g'.Contains o' m' := by
  obtain ⟨p, head, hp, hslot, hchain⟩ := hm
  induction hchain with
  | refl =>
    obtain ⟨head', hslot', hS'⟩ := h.exists_target hS (Or.inl hp) hslot
    exact ⟨head', hS', contains_of_target? hp hslot'⟩
  | @tail b c hb hnext ih =>
    obtain ⟨b', hSb, hb'⟩ := ih
    obtain ⟨c', hnext', hSc⟩ := h.exists_target (p := .next) hSb
      (Or.inr ⟨o, p, head, hp, hslot, hb⟩) hnext
    exact ⟨c', hSc, hb'.next hnext'⟩

/-- The relation pairs nodes that agree up to their links, and it is closed under containment. -/
structure Pairing (g g' : Graph) (S : NodeId → NodeId → Prop) : Prop where
  key : ∀ i i', S i i' → (g'.node i').key = (g.node i).key
  type : ∀ i i', S i i' → (g'.node i').type = (g.node i).type
  fields : ∀ i i', S i i' → (g'.node i').fields = (g.node i).fields
  valueNames : ∀ i i', S i i' → (g'.node i').values.names = (g.node i).values.names
  statementNames : ∀ i i', S i i' → (g'.node i').statements.names = (g.node i).statements.names
  target : KeepsTargets g g' S
  owner : ∀ i i' o, S i i' → g.Contains o i → ∃ o', S o o' ∧ g'.Contains o' i'
  owner' : ∀ i i' o', S i i' → g'.Contains o' i' → ∃ o, S o o' ∧ g.Contains o i

namespace Pairing

theorem symm (h : Pairing g g' S) : Pairing g' g fun i' i => S i i' where
  key i' i hS := (h.key i i' hS).symm
  type i' i hS := (h.type i i' hS).symm
  fields i' i hS := (h.fields i i' hS).symm
  valueNames i' i hS := (h.valueNames i i' hS).symm
  statementNames i' i hS := (h.statementNames i i' hS).symm
  target i' i p hS hp := by
    have hrel := h.target i i' p hS (hp.imp_right fun ⟨o', ho'⟩ => by
      obtain ⟨o, -, ho⟩ := h.owner' i i' o' hS ho'
      exact ⟨o, ho⟩)
    generalize (g.node i).target? p = t, (g'.node i').target? p = t' at hrel ⊢
    cases hrel with
    | none => exact .none
    | some ht => exact .some ht
  owner i' i o' hS ho' := h.owner' i i' o' hS ho'
  owner' i' i o hS ho := h.owner i i' o hS ho

theorem isContained_iff (h : Pairing g g' S) {i i' : NodeId} (hS : S i i') :
    g.IsContained i ↔ g'.IsContained i' := by
  constructor
  · rintro ⟨o, ho⟩
    obtain ⟨o', -, ho'⟩ := h.owner i i' o hS ho
    exact ⟨o', ho'⟩
  · rintro ⟨o', ho'⟩
    obtain ⟨o, -, ho⟩ := h.owner' i i' o' hS ho'
    exact ⟨o, ho⟩

/-! ### Walks -/

/-- Sequences inside of nodes agree. -/
theorem chain (h : Pairing g g' S) (hg : g.IsForest) (hg' : g'.IsForest) {i i' : NodeId}
    (hS : S i i') (hi : g.IsContained i) : List.Forall₂ S (g.chain i) (g'.chain i') := by
  obtain ⟨o', ho'⟩ := (h.isContained_iff hS).mp hi
  have hlt : i < g.size := hi.elim fun o ho => (hg.lt_size_of_contains ho).2
  refine (forall₂_chain (T := fun i i' => S i i' ∧ g.IsContained i) ?_ hg hg' hlt
    (hg'.lt_size_of_contains ho').2 ⟨hS, hi⟩).imp fun _ _ hT => hT.1
  rintro i i' ⟨hS, hi⟩
  cases hk : (g.node i).next with
  | none =>
    have hnext := h.target i i' .next hS (Or.inr hi)
    simp only [Node.target?, hk] at hnext
    generalize (g'.node i').next = t' at hnext ⊢
    cases hnext
    exact .none
  | some k =>
    obtain ⟨k', hk', hSk⟩ := h.target.exists_target (p := .next) hS (Or.inr hi) hk
    have hk'' : (g'.node i').next = some k' := hk'
    rw [hk'']
    exact .some ⟨hSk, hi.imp fun o ho => ho.next hk⟩

/-- The nodes around paired nodes agree. -/
theorem ancestors (h : Pairing g g' S) (hg : g.Built) (hg' : g'.Built) {i i' : NodeId}
    (hS : S i i') : List.Forall₂ S (g.ancestors i) (g'.ancestors i') :=
  forall₂_ancestors hg hg' h.owner h.owner' hS

/-- What lies inside of a node has its counterpart inside of the paired node. -/
theorem exists_descendant (h : Pairing g g' S) (hg : g.IsForest) (hg' : g'.IsForest)
    {i i' m : NodeId} (hS : S i i') (hm : m ∈ g.descendants i) :
    ∃ m' ∈ g'.descendants i', S m m' := by
  rw [hg.mem_descendants_iff] at hm
  simp only [hg'.mem_descendants_iff]
  induction hm with
  | single hcontains =>
    obtain ⟨m', hSm, hm'⟩ := h.target.exists_contains hS hcontains
    exact ⟨m', .single hm', hSm⟩
  | tail _ hcontains ih =>
    obtain ⟨b', hb', hSb⟩ := ih
    obtain ⟨m', hSm, hm'⟩ := h.target.exists_contains hSb hcontains
    exact ⟨m', hb'.tail hm', hSm⟩

theorem slotCount (h : Pairing g g' S) {i i' : NodeId} (hS : S i i') (starts : List String) :
    (g'.node i').slotCount starts = (g.node i).slotCount starts := by
  rw [Node.slotCount, Node.slotCount, h.valueNames i i' hS, h.statementNames i i' hS]

end Pairing

/-! ## Pairings from portraits -/

/-- The nodes are among the chosen ones of their graphs and have the same portrait. -/
structure Paired (g g' : Graph) (V V' : NodeId → Prop) (i i' : NodeId) : Prop where
  lt : i < g.size
  chosen : V i
  lt' : i' < g'.size
  chosen' : V' i'
  portrait : g.portrait i = g'.portrait i'

/-- The graphs have the same portraits of chosen nodes, and nodes are chosen together with those
that contain them. -/
structure SharePortraits (g g' : Graph) (V V' : NodeId → Prop) : Prop where
  closed : ∀ o m, g.Contains o m → (V o ↔ V m)
  closed' : ∀ o m, g'.Contains o m → (V' o ↔ V' m)
  same : ∀ n, (∃ i < g.size, V i ∧ g.portrait i = n) ↔ ∃ i < g'.size, V' i ∧ g'.portrait i = n

namespace SharePortraits

variable {V V' : NodeId → Prop}

theorem symm (h : SharePortraits g g' V V') : SharePortraits g' g V' V where
  closed := h.closed'
  closed' := h.closed
  same n := (h.same n).symm

theorem exists_paired (h : SharePortraits g g' V V') {i : NodeId} (hi : i < g.size) (hV : V i) :
    ∃ i', Paired g g' V V' i i' := by
  obtain ⟨i', hi', hV', hportrait⟩ := (h.same (g.portrait i)).mp ⟨i, hi, hV, rfl⟩
  exact ⟨i', hi, hV, hi', hV', hportrait.symm⟩

/-- A chosen node is paired with the node that has the same key. -/
theorem paired_of_key (h : SharePortraits g g' V V') (hg' : g'.IsForest) {i i' : NodeId}
    (hi : i < g.size) (hV : V i) (hi' : i' < g'.size) (hkey : g.keyOf i = g'.keyOf i') :
    Paired g g' V V' i i' := by
  obtain ⟨k, hk⟩ := h.exists_paired hi hV
  have hkey' : (g'.node k).key = (g'.node i').key :=
    (congrArg Portrait.key hk.portrait).symm.trans hkey
  rw [← hg'.keys k i' hk.lt' hi' hkey']
  exact hk

theorem chosen_of_target? (h : SharePortraits g g' V V') {i t : NodeId} {p : Place} (hV : V i)
    (hp : p ≠ .next ∨ g.IsContained i) (ht : (g.node i).target? p = some t) : V t := by
  by_cases hnext : p = .next
  · subst hnext
    obtain ⟨o, ho⟩ := hp.resolve_left (· rfl)
    exact (h.closed o t (ho.next ht)).mp ((h.closed o i ho).mpr hV)
  · exact (h.closed i t (contains_of_target? hnext ht)).mp hV

theorem keepsTargets (h : SharePortraits g g' V V') (hg : g.IsForest) (hg' : g'.IsForest) :
    KeepsTargets g g' (Paired g g' V V') := by
  intro i i' p hi hp
  have hlinks : ((g.node i).target? p).map g.keyOf = ((g'.node i').target? p).map g'.keyOf := by
    rw [← target?_portrait, ← target?_portrait, hi.portrait]
  cases ht : (g.node i).target? p with
  | none =>
    rw [ht, Option.map_none, eq_comm, Option.map_eq_none_iff] at hlinks
    rw [hlinks]
    exact .none
  | some t =>
    rw [ht, Option.map_some, eq_comm, Option.map_eq_some_iff] at hlinks
    obtain ⟨t', ht', hkey⟩ := hlinks
    rw [ht']
    exact .some (h.paired_of_key hg' (hg.within i p t ht).2 (h.chosen_of_target? hi.chosen hp ht)
      (hg'.within i' p t' ht').2 hkey.symm)

/-- The node that contains a chosen node has its counterpart. -/
theorem exists_owner (h : SharePortraits g g' V V') (hg : g.IsForest) (hg' : g'.IsForest)
    {i i' o : NodeId} (hi : Paired g g' V V' i i') (ho : g.Contains o i) :
    ∃ o', Paired g g' V V' o o' ∧ g'.Contains o' i' := by
  have hV : V o := (h.closed o i ho).mpr hi.chosen
  obtain ⟨o', hpaired⟩ := h.exists_paired (hg.lt_size_of_contains ho).1 hV
  obtain ⟨m', hm, hm'⟩ := (h.keepsTargets hg hg').exists_contains hpaired ho
  -- What the counterpart contains in its place has the same key.
  have hkey : (g'.node m').key = (g'.node i').key :=
    (congrArg Portrait.key hm.portrait).symm.trans (congrArg Portrait.key hi.portrait)
  rw [hg'.keys m' i' hm.lt' hi.lt' hkey] at hm'
  exact ⟨o', hpaired, hm'⟩

end SharePortraits

theorem Paired.symm {V V' : NodeId → Prop} {i i' : NodeId} (h : Paired g g' V V' i i') :
    Paired g' g V' V i' i :=
  ⟨h.lt', h.chosen', h.lt, h.chosen, h.portrait.symm⟩

/-- **Graphs that share portraits are paired** along these. -/
theorem pairing_of_portraits {V V' : NodeId → Prop} (h : SharePortraits g g' V V')
    (hg : g.IsForest) (hg' : g'.IsForest) : Pairing g g' (Paired g g' V V') where
  key _ _ hi := (congrArg Portrait.key hi.portrait).symm
  type _ _ hi := (congrArg Portrait.type hi.portrait).symm
  fields _ _ hi := (congrArg Portrait.fields hi.portrait).symm
  valueNames i i' hi := by
    have hnames := congrArg (fun n => n.values.names) hi.portrait
    simpa [portrait, Dict.names_map] using hnames.symm
  statementNames i i' hi := by
    have hnames := congrArg (fun n => n.statements.names) hi.portrait
    simpa [portrait, Dict.names_map] using hnames.symm
  target := h.keepsTargets hg hg'
  owner _ _ _ hi ho := h.exists_owner hg hg' hi ho
  owner' i i' o' hi ho' := by
    obtain ⟨o, hpaired, ho⟩ := h.symm.exists_owner hg' hg hi.symm ho'
    exact ⟨o, hpaired.symm, ho⟩

end Graph

end BlockCompiler
