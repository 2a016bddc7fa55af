import BlockCompiler.Graph.Draft
import BlockCompiler.Proofs.Graph.Edges

/-!
# Drafts that edits can lead to

A draft is made by edits, each of which may name any node that was added before it.
So links and roots never lead outside the draft: every draft that edits lead to is
`Closed` (`Reachable.closed`).

`Graph.Built` says that a graph comes from a closed draft, as it does if edits led to
the draft (`Draft.Reachable.built`).
-/

namespace BlockCompiler

namespace Draft

/-- No link and no root leads outside the draft. -/
structure Closed (d : Draft) : Prop where
  target_lt : ∀ i p t, (d.node i).target? p = some t → t < d.size
  root_lt : ∀ r ∈ d.roots, r < d.size

/-! ## Edits -/

/-- A change that the author of a draft can make. -/
inductive Edit where
  | node (key type : String)
  | root (key type : String)
  | markRoot (i : NodeId)
  | setField (i : NodeId) (name text : String)
  | setValue (i : NodeId) (slot : String) (child : NodeId)
  | setStatement (i : NodeId) (slot : String) (head : NodeId)
  | setNext (i next : NodeId)
  | setBody (i : NodeId) (slot : String) (sequence : List NodeId)
deriving DecidableEq, Repr

namespace Edit

/-- The draft after a change; a node added as a root has the position that comes next. -/
def apply : Edit → Draft → Draft
  | node key type, d => d.addNode key type
  | root key type, d => (d.addNode key type).markRoot d.size
  | markRoot i, d => d.markRoot i
  | setField i name text, d => d.setField i name text
  | setValue i slot child, d => d.setValue i slot child
  | setStatement i slot head, d => d.setStatement i slot head
  | setNext i next, d => d.setNext i next
  | setBody i slot sequence, d => d.setBody i slot sequence

/-- The positions that a change names. -/
def mentions : Edit → List NodeId
  | node .. | root .. => []
  | markRoot i | setField i .. => [i]
  | setValue i _ t | setStatement i _ t | setNext i t => [i, t]
  | setBody i _ sequence => i :: sequence

/-- All positions that a change names were given out by the draft. -/
def Issued (e : Edit) (d : Draft) : Prop :=
  ∀ i ∈ e.mentions, i < d.size

end Edit

/-- The drafts that changes lead to, from the empty one on. -/
inductive Reachable : Draft → Prop where
  | empty : Reachable {}
  | edit {d : Draft} {e : Edit} : Reachable d → e.Issued d → Reachable (e.apply d)

/-- Of changes made one after the other, each names only positions given out by then. -/
def Edit.issuedInTurn : List Edit → Draft → Bool
  | [], _ => true
  | e :: rest, d => e.mentions.all (· < d.size) && issuedInTurn rest (e.apply d)

theorem Reachable.foldl {edits : List Edit} {d : Draft} (hd : d.Reachable)
    (h : Edit.issuedInTurn edits d = true) :
    (edits.foldl (fun d e => Edit.apply e d) d).Reachable := by
  induction edits generalizing d with
  | nil => exact hd
  | cons e rest ih =>
    obtain ⟨hfirst, hrest⟩ := Bool.and_eq_true_iff.mp h
    have hissued : e.Issued d := by
      intro i hi
      exact of_decide_eq_true (List.all_eq_true.mp hfirst i hi)
    exact ih (hd.edit hissued) hrest

/-- A list of changes leads to a reachable draft if each of them could be made. -/
theorem reachable_of_edits {edits : List Edit} (h : Edit.issuedInTurn edits {} = true) :
    (edits.foldl (fun d e => Edit.apply e d) {}).Reachable :=
  Reachable.empty.foldl h

/-! ## Every edit keeps a draft closed -/

@[simp] theorem size_modify (d : Draft) (i : NodeId) (f : Node → Node) :
    (d.modify i f).size = d.size := by
  simp [modify, size]

theorem node_modify (d : Draft) (i k : NodeId) (f : Node → Node) :
    (d.modify i f).node k = if i = k ∧ k < d.size then f (d.node k) else d.node k := by
  by_cases hk : k < d.nodes.size
  · by_cases hik : i = k
    · subst hik
      simp [node, modify, size, hk, Array.getElem_modify]
    · simp [node, modify, hk, hik, Array.getElem_modify]
  · have hlt : ¬ k < d.size := hk
    simp [node, modify, hk, hlt]

theorem node_addNode (d : Draft) (key type : String) (k : NodeId) :
    (d.addNode key type).node k =
      if k = d.size then { key := key, type := type } else d.node k := by
  rcases Nat.lt_trichotomy k d.nodes.size with h | h | h
  · have hne : k ≠ d.size := Nat.ne_of_lt h
    simp [node, addNode, Array.getElem_push, h, hne, Nat.lt_succ_of_lt h]
  · subst h
    simp [node, addNode, size]
  · have hne : k ≠ d.size := Nat.ne_of_gt h
    have hout : ¬ k < d.nodes.size + 1 := Nat.not_lt.mpr h
    have hout' : ¬ k < d.nodes.size := Nat.not_lt.mpr (Nat.le_of_lt h)
    simp [node, addNode, hne, hout, hout']

theorem Closed.modify {d : Draft} (h : d.Closed) (i : NodeId) {f : Node → Node}
    (hf : ∀ n p t, (f n).target? p = some t → n.target? p = some t ∨ t < d.size) :
    (d.modify i f).Closed := by
  constructor
  · intro k p t ht
    rw [size_modify]
    rw [node_modify] at ht
    split at ht
    · rcases hf _ p t ht with hold | hlt
      · exact h.target_lt k p t hold
      · exact hlt
    · exact h.target_lt k p t ht
  · intro r hr
    rw [size_modify]
    exact h.root_lt r hr

theorem Closed.addNode {d : Draft} (h : d.Closed) (key type : String) :
    (d.addNode key type).Closed := by
  have hsize : (d.addNode key type).size = d.size + 1 := by simp [Draft.addNode, size]
  constructor
  · intro k p t ht
    rw [node_addNode] at ht
    split at ht
    · cases p <;> cases ht
    · rw [hsize]
      exact Nat.lt_succ_of_lt (h.target_lt k p t ht)
  · intro r hr
    rw [hsize]
    exact Nat.lt_succ_of_lt (h.root_lt r hr)

theorem Closed.markRoot {d : Draft} (h : d.Closed) {i : NodeId} (hi : i < d.size) :
    (d.markRoot i).Closed := by
  refine ⟨h.target_lt, fun r hr => ?_⟩
  rcases List.mem_append.mp hr with hr | hr
  · exact h.root_lt r hr
  · rw [List.mem_singleton.mp hr]
    exact hi

theorem Closed.setField {d : Draft} (h : d.Closed) (i : NodeId) (name text : String) :
    (d.setField i name text).Closed :=
  h.modify i fun _ p _ ht => Or.inl (by cases p <;> exact ht)

theorem Closed.setValue {d : Draft} (h : d.Closed) (i : NodeId) (slot : String) {child : NodeId}
    (hc : child < d.size) : (d.setValue i slot child).Closed := by
  refine h.modify i fun n p t ht => ?_
  cases p with
  | value name =>
    rcases Dict.get?_or_eq_of_get?_insert ht with hold | rfl
    · exact Or.inl hold
    · exact Or.inr hc
  | statement | next => exact Or.inl ht

theorem Closed.setStatement {d : Draft} (h : d.Closed) (i : NodeId) (slot : String) {head : NodeId}
    (hc : head < d.size) : (d.setStatement i slot head).Closed := by
  refine h.modify i fun n p t ht => ?_
  cases p with
  | statement name =>
    rcases Dict.get?_or_eq_of_get?_insert ht with hold | rfl
    · exact Or.inl hold
    · exact Or.inr hc
  | value | next => exact Or.inl ht

theorem Closed.setNext {d : Draft} (h : d.Closed) (i : NodeId) {next : NodeId}
    (hn : next < d.size) : (d.setNext i next).Closed := by
  refine h.modify i fun n p t ht => ?_
  cases p with
  | next => exact Or.inr (Option.some.inj ht ▸ hn)
  | value | statement => exact Or.inl ht

theorem Closed.connect {sequence : List NodeId} {d : Draft} (h : d.Closed)
    (hs : ∀ i ∈ sequence, i < d.size) : (d.connect sequence).Closed := by
  induction sequence generalizing d with
  | nil => exact h
  | cons i rest ih =>
    cases rest with
    | nil => exact h
    | cons k rest =>
      rw [Draft.connect]
      refine ih (h.setNext i (hs k (by simp))) ?_
      intro m hm
      rw [Draft.setNext, size_modify]
      exact hs m (List.mem_cons_of_mem _ hm)

theorem Closed.setBody {d : Draft} (h : d.Closed) (i : NodeId) (slot : String)
    {sequence : List NodeId} (hs : ∀ k ∈ sequence, k < d.size) :
    (d.setBody i slot sequence).Closed := by
  cases sequence with
  | nil => exact h
  | cons head rest =>
    rw [Draft.setBody]
    refine (h.setStatement i slot (hs head (by simp))).connect ?_
    intro k hk
    rw [Draft.setStatement, size_modify]
    exact hs k hk

theorem Closed.apply {d : Draft} (h : d.Closed) {e : Edit} (he : e.Issued d) :
    (e.apply d).Closed := by
  cases e with
  | node key type => exact h.addNode key type
  | root key type =>
    refine (h.addNode key type).markRoot ?_
    simp [Draft.addNode, size]
  | markRoot i => exact h.markRoot (he i (by simp [Edit.mentions]))
  | setField i name text => exact h.setField i name text
  | setValue i slot child => exact h.setValue i slot (he child (by simp [Edit.mentions]))
  | setStatement i slot head => exact h.setStatement i slot (he head (by simp [Edit.mentions]))
  | setNext i next => exact h.setNext i (he next (by simp [Edit.mentions]))
  | setBody i slot sequence =>
    exact h.setBody i slot fun k hk => he k (List.mem_cons_of_mem _ hk)

/-- **Edits never lead outside the draft.** -/
theorem Reachable.closed {d : Draft} (h : d.Reachable) : d.Closed := by
  induction h with
  | empty =>
    refine ⟨fun i p t ht => ?_, fun r hr => absurd hr List.not_mem_nil⟩
    cases p <;> cases ht
  | edit _ he ih => exact ih.apply he

end Draft

/-- The graph was built from a draft. -/
def Graph.Built (g : Graph) : Prop :=
  ∃ d : Draft, d.Closed ∧ d.build = .ok g

theorem Draft.Reachable.built {d : Draft} (h : d.Reachable) {g : Graph} (hb : d.build = .ok g) :
    g.Built :=
  ⟨d, h.closed, hb⟩

end BlockCompiler
