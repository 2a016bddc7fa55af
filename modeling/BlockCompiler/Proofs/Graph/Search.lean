import BlockCompiler.Proofs.Graph.Edges
import Mathlib.Data.List.Chain
import Mathlib.Data.List.Perm.Subperm
import Mathlib.Data.List.TakeWhile

/-!
# What the searches find

The search for circles keeps a mark for each node, and a stack of the nodes that it has
entered and not left.  The stack is the way down from where the search began, and has the
nodes that are marked as being visited, each once (`Descent.Sound`).  So a link to such a
node closes a circle (`isCircle_wayBack`).

A node is left only when all that it leads to has been left.  So nodes that have been left
lead only to such nodes, and none of them lies on a circle (`Descent.Settled`).  As no
more nodes can be entered inside each other than there are, the search leaves all of them
or finds a circle (`circle?_eq_none_iff`).

The search for what some nodes lead to marks a node before it looks at its links.  What a
marked node leads to is marked or pending, and each link makes a node pending only once, so
that the search ends with nothing pending (`reach_eq_true_iff`).
-/

namespace BlockCompiler

open Relation

theorem Node.mem_targets_iff {n : Node} {t : NodeId} :
    t ∈ n.targets ↔ ∃ p, n.target? p = some t := by
  rw [targets_eq_map_exits, List.mem_map]
  constructor
  · rintro ⟨⟨p, _⟩, he, rfl⟩
    exact ⟨p, mem_exits_iff.mp he⟩
  · rintro ⟨p, hp⟩
    exact ⟨(p, t), mem_exits_iff.mpr hp, rfl⟩

/-- Edges lead in no circle. -/
def Acyclic (node : NodeId → Node) : Prop :=
  ∀ i, ¬ TransGen (Leads node) i i

/-- The path leads along edges from a node back to that node, and visits no node twice before it
is back. -/
structure IsCircle (node : NodeId → Node) (path : List NodeId) : Prop where
  two_le_length : 2 ≤ path.length
  returns : path.getLast? = path.head?
  leads : path.IsChain (Leads node)
  nodup : path.dropLast.Nodup

/-- A path leads from its first node to its last. -/
theorem transGen_of_isChain {node : NodeId → Node} {a z : NodeId} {path : List NodeId}
    (h : (a :: path).IsChain (Leads node)) (hz : path.getLast? = some z) :
    TransGen (Leads node) a z := by
  induction path generalizing a with
  | nil => cases hz
  | cons b path ih =>
    obtain ⟨hab, htail⟩ := List.isChain_cons_cons.mp h
    cases path with
    | nil =>
      cases hz
      exact .single hab
    | cons c path => exact .head hab (ih htail (by rwa [List.getLast?_cons_cons] at hz))

/-- A circle leads from a node to itself. -/
theorem IsCircle.not_acyclic {node : NodeId → Node} {path : List NodeId} (h : IsCircle node path) :
    ¬ Acyclic node := by
  intro hacyclic
  match path, h with
  | [], h => exact absurd h.two_le_length (by simp)
  | [a], h => exact absurd h.two_le_length (by simp)
  | a :: b :: path, h =>
    refine hacyclic a (transGen_of_isChain h.leads ?_)
    have hreturns := h.returns
    rwa [List.getLast?_cons_cons] at hreturns

/-! ## Steps that may fail -/

/-- The result meets the first condition, or the failure the second one. -/
def Meets {ε σ : Type} (I : σ → Prop) (E : ε → Prop) : Except ε σ → Prop
  | .ok s => I s
  | .error e => E e

section Steps

variable {ε σ α : Type} {I J : σ → Prop} {E F : ε → Prop} {x : Except ε σ}

theorem Meets.imp (h : Meets I E x) (hI : ∀ s, I s → J s) (hE : ∀ e, E e → F e) : Meets J F x := by
  cases x with
  | ok s => exact hI s h
  | error e => exact hE e h

/-- Two invariants of a search hold together. -/
theorem Meets.and (h : Meets I E x) (h' : Meets J F x) :
    Meets (fun s => I s ∧ J s) (fun e => E e ∧ F e) x := by
  cases x with
  | ok s => exact ⟨h, h'⟩
  | error e => exact ⟨h, h'⟩

theorem Meets.map {f : σ → σ} (h : Meets (fun s => I (f s)) E x) :
    Meets I E (do return f (← x)) := by
  cases x with
  | ok s => exact h
  | error e => exact h

/-- If every step of a loop keeps a condition, makes its own one true and makes none false, then all
of them hold after the loop, unless a step fails. -/
theorem meets_foldlM {Q : α → σ → Prop} {step : σ → α → Except ε σ} {xs : List α}
    (hstep : ∀ x ∈ xs, ∀ s, I s →
      Meets (fun s' => I s' ∧ Q x s' ∧ ∀ y, Q y s → Q y s') E (step s x)) {s : σ} (hs : I s) :
    Meets (fun s' => I s' ∧ (∀ x ∈ xs, Q x s') ∧ ∀ y, Q y s → Q y s') E (xs.foldlM step s) := by
  induction xs generalizing s with
  | nil => exact ⟨hs, fun _ hx => absurd hx List.not_mem_nil, fun _ h => h⟩
  | cons x rest ih =>
    obtain ⟨hfirst, hrest⟩ := List.forall_mem_cons.mp hstep
    have hx := hfirst s hs
    rw [List.foldlM_cons]
    cases hresult : step s x with
    | error e =>
      rw [hresult] at hx
      exact hx
    | ok s' =>
      rw [hresult] at hx
      obtain ⟨hs', hown, hkept⟩ := hx
      refine (ih hrest hs').imp (fun s'' h => ?_) fun _ h => h
      obtain ⟨hs'', hothers, hkept'⟩ := h
      refine ⟨hs'', List.forall_mem_cons.mpr ⟨hkept' x hown, hothers⟩, fun y hy => ?_⟩
      exact hkept' y (hkept y hy)

/-- A condition that every step of a loop keeps, unless it fails, holds after the loop. -/
theorem meets_foldlM_of_kept {step : σ → α → Except ε σ} {xs : List α}
    (hstep : ∀ x ∈ xs, ∀ s, I s → Meets I E (step s x)) {s : σ} (hs : I s) :
    Meets I E (xs.foldlM step s) := by
  have h : Meets (fun s' => I s' ∧ (∀ x ∈ xs, True) ∧ ∀ _ : α, True → True) E (xs.foldlM step s) := by
    refine meets_foldlM (fun x hx s hs => ?_) hs
    exact (hstep x hx s hs).imp (fun _ h => ⟨h, trivial, fun _ h => h⟩) fun _ h => h
  exact h.imp (fun _ h => h.1) fun _ h => h

end Steps

/-! ## The search for circles -/

namespace Descent

variable {node : NodeId → Node} {size : Nat} {s s' : Descent} {i t : NodeId}

/-- The positions that each node leads to. -/
def out (node : NodeId → Node) (i : NodeId) : List NodeId :=
  (node i).targets

/-- Entering a node marks it as being visited. -/
theorem mark_enter (s : Descent) (i k : NodeId) :
    (s.enter i).mark k = if i = k ∧ k < s.marks.size then .visiting else s.mark k := by
  by_cases hk : k < s.marks.size
  · by_cases hik : i = k <;> simp [mark, enter, hk, hik]
  · simp [mark, enter, hk]

/-- Leaving a node marks it as done. -/
theorem mark_leave (s : Descent) (i k : NodeId) :
    (s.leave i).mark k = if i = k ∧ k < s.marks.size then .done else s.mark k := by
  by_cases hk : k < s.marks.size
  · by_cases hik : i = k <;> simp [mark, leave, hk, hik]
  · simp [mark, leave, hk]

theorem mark_start (size : Nat) (i : NodeId) : (start size).mark i = .unseen := by
  by_cases hi : i < size <;> simp [mark, start, hi]

/-- Only nodes that there are have a mark. -/
theorem lt_size_of_mark (h : s.mark i ≠ .unseen) : i < s.marks.size := by
  by_contra hi
  exact h (by simp [mark, hi])

/-- Follows a link: a node that was not seen before is visited, and one that is being visited
closes a circle. -/
def follow (targets : NodeId → List NodeId) (fuel : Nat) (s : Descent) (t : NodeId) :
    Except (NodeId × List NodeId) Descent :=
  match s.mark t with
  | .unseen => visit targets fuel s t
  | .visiting => .error (t, s.wayBack t)
  | .done => .ok s

theorem visit_succ (targets : NodeId → List NodeId) (fuel : Nat) (s : Descent) (i : NodeId) :
    visit targets (fuel + 1) s i =
      (do return ((← (targets i).foldlM (follow targets fuel) (s.enter i)).leave i)) := rfl

/-- The stack is the way down to the node visited last, and has the nodes that are being visited,
each once. -/
structure Sound (node : NodeId → Node) (size : Nat) (s : Descent) : Prop where
  size_marks : s.marks.size = size
  visiting : ∀ i, s.mark i = .visiting ↔ i ∈ s.stack
  nodup : s.stack.Nodup
  leads : s.stack.IsChain fun a b => Leads node b a

theorem sound_start (node : NodeId → Node) (size : Nat) : (start size).Sound node size where
  size_marks := by simp [start]
  visiting i := by rw [mark_start]; simp [start]
  nodup := List.nodup_nil
  leads := .nil

/-- A node can be entered if the last node on the stack leads to it. -/
def Open (node : NodeId → Node) (s : Descent) (i : NodeId) : Prop :=
  ∀ top ∈ s.stack.head?, Leads node top i

theorem open_of_stack {top : NodeId} {rest : List NodeId} (hstack : s.stack = top :: rest)
    (h : Leads node top i) : s.Open node i := by
  intro k hk
  rw [hstack] at hk
  cases hk
  exact h

theorem open_of_stack_nil (hstack : s.stack = []) : s.Open node i := by
  intro k hk
  rw [hstack] at hk
  cases hk

/-- The way to a new node goes on from the node that is visited at the moment. -/
theorem Sound.enter (hs : s.Sound node size) (hi : i < size) (hnew : s.mark i = .unseen)
    (hopen : s.Open node i) : (s.enter i).Sound node size where
  size_marks := by simp [Descent.enter, hs.size_marks]
  visiting k := by
    rw [mark_enter, hs.size_marks]
    by_cases hik : i = k
    · subst hik
      simp [hi, Descent.enter]
    · simp [hik, Ne.symm hik, Descent.enter, hs.visiting]
  nodup := by
    refine List.nodup_cons.mpr ⟨fun hmem => ?_, hs.nodup⟩
    rw [← hs.visiting, hnew] at hmem
    cases hmem
  leads := by
    cases hstack : s.stack with
    | nil => simp [Descent.enter, hstack]
    | cons top rest =>
      have hleads := hs.leads
      rw [Descent.enter, hstack]
      rw [hstack] at hleads
      exact .cons_cons (hopen top (by rw [hstack]; rfl)) hleads

/-- The node on top of the stack is left first. -/
theorem Sound.leave {rest : List NodeId} (hs : s.Sound node size) (hstack : s.stack = i :: rest) :
    (s.leave i).Sound node size where
  size_marks := by simp [Descent.leave, hs.size_marks]
  visiting k := by
    have hnodup := hs.nodup
    rw [hstack] at hnodup
    have hi : i < s.marks.size := by
      refine lt_size_of_mark ?_
      rw [(hs.visiting i).mpr (by simp [hstack])]
      exact Mark.noConfusion
    rw [mark_leave, Descent.leave, hstack, List.tail_cons]
    by_cases hik : i = k
    · subst hik
      simpa [hi] using (List.nodup_cons.mp hnodup).1
    · simp [hik, Ne.symm hik, hs.visiting, hstack]
  nodup := by
    have hnodup := hs.nodup
    rw [hstack] at hnodup
    rw [Descent.leave, hstack]
    exact (List.nodup_cons.mp hnodup).2
  leads := by
    have hleads := hs.leads
    rw [hstack] at hleads
    rw [Descent.leave, hstack]
    exact hleads.tail

/-- A link from the last node on the stack to one that is being visited closes a circle. -/
theorem Sound.isCircle_wayBack (hs : s.Sound node size) (ht : s.mark t = .visiting)
    (hopen : s.Open node t) : IsCircle node (t :: s.wayBack t) := by
  obtain ⟨before, after, hsplit, hbefore⟩ :=
    List.eq_append_cons_of_mem ((hs.visiting t).mp ht)
  have htake : s.stack.takeWhile (· != t) = before := by
    rw [hsplit, List.takeWhile_append_of_pos (by simpa using fun k hk => ne_of_mem_of_not_mem hk hbefore)]
    simp
  have hprefix : (before ++ [t]).IsChain fun a b => Leads node b a := by
    refine List.IsChain.prefix hs.leads ⟨after, ?_⟩
    rw [hsplit]
    simp
  -- Read from the link that closes the circle on, the way leads up the stack to `t`.
  have hup : (t :: (before ++ [t])).IsChain fun a b => Leads node b a := by
    cases before with
    | nil => exact .cons_cons (hopen t (by simp [hsplit])) hprefix
    | cons top before => exact .cons_cons (hopen top (by simp [hsplit])) hprefix
  have hdown : ((t :: (before ++ [t])).reverse).IsChain (Leads node) := List.isChain_reverse.mpr hup
  have hpath : t :: s.wayBack t = t :: before.reverse ++ [t] := by
    rw [wayBack, htake, List.cons_append]
  have hreverse : (t :: (before ++ [t])).reverse = t :: before.reverse ++ [t] := by simp
  rw [hpath]
  rw [hreverse] at hdown
  refine ⟨by simp, by rw [List.getLast?_concat]; rfl, hdown, ?_⟩
  have hnodup := hs.nodup
  rw [hsplit] at hnodup
  rw [List.dropLast_concat]
  refine List.nodup_cons.mpr ⟨fun hmem => hbefore (List.mem_reverse.mp hmem), ?_⟩
  exact List.nodup_reverse.mpr (List.nodup_append.mp hnodup).1

/-- Positions outside of the table are not marked. -/
theorem leave_enter_of_size_le (h : s.marks.size ≤ i) : (s.enter i).leave i = s := by
  have hi : ¬ i < s.marks.size := Nat.not_lt.mpr h
  simp [enter, leave, Array.setIfInBounds, hi]

section Visits

variable (hwithin : ∀ a b, Leads node a b → a < size)

include hwithin

/-- A visit ends where it began, or finds a circle. -/
theorem meets_visit (fuel : Nat) (hs : s.Sound node size) (hnew : s.mark i = .unseen)
    (hopen : s.Open node i) :
    Meets (fun s' => s'.Sound node size ∧ s'.stack = s.stack) (fun c => IsCircle node (c.1 :: c.2))
      (visit (out node) fuel s i) := by
  induction fuel generalizing s i with
  | zero => exact ⟨hs, rfl⟩
  | succ fuel ih =>
    rw [visit_succ]
    by_cases hi : i < size
    · have hloop : Meets (fun s' => s'.Sound node size ∧ s'.stack = i :: s.stack)
          (fun c => IsCircle node (c.1 :: c.2))
          ((out node i).foldlM (follow (out node) fuel) (s.enter i)) := by
        refine meets_foldlM_of_kept (fun t ht s' hs' => ?_) ⟨hs.enter hi hnew hopen, rfl⟩
        have hopen' := open_of_stack hs'.2 (Node.mem_targets_iff.mp ht)
        rw [follow]
        cases hmark : s'.mark t with
        | unseen =>
          exact (ih hs'.1 hmark hopen').imp (fun _ h => ⟨h.1, h.2.trans hs'.2⟩) fun _ h => h
        | visiting => exact hs'.1.isCircle_wayBack hmark hopen'
        | done => exact hs'
      refine (hloop.imp (fun s' h => ?_) fun _ h => h).map
      refine ⟨h.1.leave h.2, ?_⟩
      rw [leave, h.2, List.tail_cons]
    · -- There is no such node: it leads nowhere, and nothing is marked.
      have hnone : out node i = [] := by
        refine List.eq_nil_iff_forall_not_mem.mpr fun t ht => hi ?_
        exact hwithin i t (Node.mem_targets_iff.mp ht)
      have hback : (s.enter i).leave i = s :=
        leave_enter_of_size_le (by rw [hs.size_marks]; exact Nat.not_lt.mp hi)
      have hends : Meets (fun s' : Descent => (s'.leave i).Sound node size ∧
          (s'.leave i).stack = s.stack) (fun c => IsCircle node (c.1 :: c.2))
          (([] : List NodeId).foldlM (follow (out node) fuel) (s.enter i)) := by
        have hends : ((s.enter i).leave i).Sound node size ∧ ((s.enter i).leave i).stack = s.stack := by
          rw [hback]
          exact ⟨hs, rfl⟩
        exact hends
      rw [hnone]
      exact hends.map

/-- A search among nodes ends with an empty stack, or finds a circle. -/
theorem meets_search (nodes : List NodeId) (fuel : Nat) :
    Meets (fun s' => s'.Sound node size ∧ s'.stack = []) (fun c => IsCircle node (c.1 :: c.2))
      (nodes.foldlM (visitNew (out node) fuel) (start size)) := by
  refine meets_foldlM_of_kept (fun i _ s hs => ?_) ⟨sound_start node size, rfl⟩
  rw [visitNew]
  cases hmark : s.mark i with
  | unseen =>
    refine (meets_visit hwithin fuel hs.1 hmark (open_of_stack_nil hs.2)).imp ?_ fun _ h => h
    exact fun _ h => ⟨h.1, h.2.trans hs.2⟩
  | visiting | done => exact hs

/-- A circle that is found is one. -/
theorem isCircle_of_circle? {c : NodeId × List NodeId} (h : circle? (out node) size = some c) :
    IsCircle node (c.1 :: c.2) := by
  have hsearch := meets_search hwithin (List.range size) size
  unfold circle? at h
  cases hresult : (List.range size).foldlM (visitNew (out node) size) (start size) with
  | error found =>
    rw [hresult] at h hsearch
    cases h
    exact hsearch
  | ok s =>
    rw [hresult] at h
    cases h

end Visits

/-! ## Nodes that have been left -/

/-- A node that has been left leads only to such nodes, and lies on no circle. -/
structure Settled (node : NodeId → Node) (s : Descent) : Prop where
  leads : ∀ i t, s.mark i = .done → Leads node i t → s.mark t = .done
  free : ∀ i, s.mark i = .done → ¬ TransGen (Leads node) i i

theorem settled_start (node : NodeId → Node) (size : Nat) : (start size).Settled node := by
  constructor <;> simp [mark_start]

/-- All that lies below a node that has been left has been left. -/
theorem Settled.below (h : s.Settled node) (hi : s.mark i = .done)
    (hit : ReflTransGen (Leads node) i t) : s.mark t = .done := by
  induction hit with
  | refl => exact hi
  | tail _ hstep ih => exact h.leads _ _ ih hstep

theorem mark_enter_eq_done_iff (hnew : s.mark i = .unseen) (k : NodeId) :
    (s.enter i).mark k = .done ↔ s.mark k = .done := by
  rw [mark_enter]
  split
  · rename_i h
    obtain ⟨rfl, -⟩ := h
    simp [hnew]
  · rfl

/-- Entering a node makes none done. -/
theorem Settled.enter (h : s.Settled node) (hnew : s.mark i = .unseen) :
    (s.enter i).Settled node := by
  constructor
  · intro k t hk ht
    rw [mark_enter_eq_done_iff hnew] at hk ⊢
    exact h.leads k t hk ht
  · intro k hk
    exact h.free k ((mark_enter_eq_done_iff hnew k).mp hk)

theorem mark_leave_of_done {k : NodeId} (hk : s.mark k = .done) : (s.leave i).mark k = .done := by
  rw [mark_leave, hk, ite_self]

/-- A node is left when all that it leads to has been left. -/
theorem Settled.leave (h : s.Settled node) (hi : s.mark i = .visiting)
    (hout : ∀ t ∈ out node i, s.mark t = .done) : (s.leave i).Settled node := by
  have hcases : ∀ k, (s.leave i).mark k = .done → k = i ∨ s.mark k = .done := by
    intro k hk
    rw [mark_leave] at hk
    split at hk
    · rename_i hik
      exact Or.inl hik.1.symm
    · exact Or.inr hk
  have hleads : ∀ t, Leads node i t → s.mark t = .done :=
    fun t ht => hout t (Node.mem_targets_iff.mpr ht)
  constructor
  · intro k t hk ht
    rcases hcases k hk with rfl | hk
    · exact mark_leave_of_done (hleads t ht)
    · exact mark_leave_of_done (h.leads k t hk ht)
  · intro k hk hcircle
    rcases hcases k hk with rfl | hk
    · -- The first node of the way back has been left, and so would have the node itself.
      obtain ⟨t, ht, hback⟩ := TransGen.head'_iff.mp hcircle
      rw [h.below (hleads t ht) hback] at hi
      cases hi
    · exact h.free k hk hcircle

/-- Not all nodes are on the stack while one of them was not seen. -/
theorem Sound.length_stack_lt (hs : s.Sound node size) (hi : i < size) (hnew : s.mark i = .unseen) :
    s.stack.length < size := by
  have hnot : i ∉ s.stack := by
    intro hmem
    rw [(hs.visiting i).mpr hmem] at hnew
    cases hnew
  have hsubset : i :: s.stack ⊆ List.range size := by
    intro k hk
    rw [List.mem_range]
    rcases List.mem_cons.mp hk with rfl | hk
    · exact hi
    · rw [← hs.size_marks]
      refine lt_size_of_mark ?_
      rw [(hs.visiting k).mpr hk]
      exact Mark.noConfusion
  have hle := (List.subperm_of_subset (List.nodup_cons.mpr ⟨hnot, hs.nodup⟩) hsubset).length_le
  rwa [List.length_range] at hle

section Settling

variable (hwithin : ∀ a b, Leads node a b → a < size) (hinto : ∀ a b, Leads node a b → b < size)

include hwithin hinto

/-- A visit leaves the node, unless it finds a circle. -/
theorem meets_visit_settled {fuel : Nat} (hs : s.Sound node size) (hset : s.Settled node)
    (hi : i < size) (hnew : s.mark i = .unseen) (hopen : s.Open node i)
    (hfuel : size ≤ s.stack.length + fuel) :
    Meets (fun s' => s'.Settled node ∧ s'.mark i = .done ∧ ∀ k, s.mark k = .done → s'.mark k = .done)
      (fun _ => True) (visit (out node) fuel s i) := by
  induction fuel generalizing s i with
  -- The stack has no node twice, so it is shorter than the number of nodes.
  | zero => exact absurd (hs.length_stack_lt hi hnew) (Nat.not_lt.mpr hfuel)
  | succ fuel ih =>
    have hloop : Meets (fun s' => (s'.Sound node size ∧ s'.stack = i :: s.stack ∧ s'.Settled node) ∧
          (∀ t ∈ out node i, s'.mark t = .done) ∧
          ∀ k, (s.enter i).mark k = .done → s'.mark k = .done)
        (fun _ => True) ((out node i).foldlM (follow (out node) fuel) (s.enter i)) := by
      refine meets_foldlM (Q := fun k (s : Descent) => s.mark k = .done) (fun t ht s' hs' => ?_)
        ⟨hs.enter hi hnew hopen, rfl, hset.enter hnew⟩
      obtain ⟨hsound, hstack, hset'⟩ := hs'
      have ht := Node.mem_targets_iff.mp ht
      have hopen' := open_of_stack hstack ht
      rw [follow]
      cases hmark : s'.mark t with
      | unseen =>
        have hfuel' : size ≤ s'.stack.length + fuel := by
          rw [hstack, List.length_cons]
          omega
        have hvisit := (meets_visit hwithin fuel hsound hmark hopen').and
          (ih hsound hset' (hinto i t ht) hmark hopen' hfuel')
        refine hvisit.imp (fun s'' h => ?_) fun _ _ => trivial
        exact ⟨⟨h.1.1, h.1.2.trans hstack, h.2.1⟩, h.2.2.1, h.2.2.2⟩
      -- A node that is being visited closes a circle, and then nothing is claimed.
      | visiting => trivial
      | done => exact ⟨⟨hsound, hstack, hset'⟩, hmark, fun _ h => h⟩
    rw [visit_succ]
    refine (hloop.imp (fun s' h => ?_) fun _ h => h).map
    obtain ⟨⟨hsound, hstack, hset'⟩, hout, hkept⟩ := h
    have hvisiting : s'.mark i = .visiting := (hsound.visiting i).mpr (by simp [hstack])
    refine ⟨hset'.leave hvisiting hout, ?_, fun k hk => ?_⟩
    · rw [mark_leave, hsound.size_marks, if_pos ⟨rfl, hi⟩]
    · exact mark_leave_of_done (hkept k ((mark_enter_eq_done_iff hnew k).mpr hk))

/-- A search among all nodes leaves all of them, unless it finds a circle. -/
theorem meets_search_settled :
    Meets (fun s' => s'.Settled node ∧ ∀ i < size, s'.mark i = .done) (fun _ => True)
      ((List.range size).foldlM (visitNew (out node) size) (start size)) := by
  have hloop : Meets (fun s' => (s'.Sound node size ∧ s'.stack = [] ∧ s'.Settled node) ∧
        (∀ i ∈ List.range size, s'.mark i = .done) ∧
        ∀ k, (start size).mark k = .done → s'.mark k = .done)
      (fun _ => True) ((List.range size).foldlM (visitNew (out node) size) (start size)) := by
    refine meets_foldlM (Q := fun k (s : Descent) => s.mark k = .done) (fun i hi s hs => ?_)
      ⟨sound_start node size, rfl, settled_start node size⟩
    obtain ⟨hsound, hstack, hset⟩ := hs
    rw [visitNew]
    cases hmark : s.mark i with
    | unseen =>
      have hopen : s.Open node i := open_of_stack_nil hstack
      have hvisit := (meets_visit hwithin size hsound hmark hopen).and
        (meets_visit_settled hwithin hinto hsound hset (List.mem_range.mp hi) hmark hopen
          (Nat.le_add_left _ _))
      refine hvisit.imp (fun s' h => ?_) fun _ _ => trivial
      exact ⟨⟨h.1.1, h.1.2.trans hstack, h.2.1⟩, h.2.2.1, h.2.2.2⟩
    -- Between two visits the stack is empty, so no node is being visited.
    | visiting =>
      have hmem := (hsound.visiting i).mp hmark
      rw [hstack] at hmem
      cases hmem
    | done => exact ⟨⟨hsound, hstack, hset⟩, hmark, fun _ h => h⟩
  exact hloop.imp (fun s' h => ⟨h.1.2.2, fun i hi => h.2.1 i (List.mem_range.mpr hi)⟩) fun _ h => h

/-- A circle is found iff there is one. -/
theorem circle?_eq_none_iff : circle? (out node) size = none ↔ Acyclic node := by
  constructor
  · intro h i hcircle
    have hsearch := meets_search_settled hwithin hinto
    unfold circle? at h
    cases hresult : (List.range size).foldlM (visitNew (out node) size) (start size) with
    | error found =>
      rw [hresult] at h
      cases h
    | ok s =>
      rw [hresult] at hsearch
      obtain ⟨t, ht, -⟩ := TransGen.head'_iff.mp hcircle
      exact hsearch.1.free i (hsearch.2 i (hwithin i t ht)) hcircle
  · intro hacyclic
    cases h : circle? (out node) size with
    | none => rfl
    | some c => exact absurd hacyclic (isCircle_of_circle? hwithin h).not_acyclic

end Settling

end Descent

/-! ## The search for what lies below -/

section Reaching

variable {targets : NodeId → List NodeId} {reached : Array Bool} {pending : List NodeId}

theorem getD_setIfInBounds_true (reached : Array Bool) (i k : NodeId) :
    (reached.setIfInBounds i true).getD k false =
      if i = k ∧ k < reached.size then true else reached.getD k false := by
  by_cases hk : k < reached.size
  · by_cases hik : i = k <;> simp [hk, hik]
  · simp [hk]

/-- What is marked was marked before, or lies below a pending node. -/
theorem exists_below_of_reach {fuel : Nat} {k : NodeId}
    (h : (reach targets fuel reached pending).getD k false = true) :
    reached.getD k false = true ∨
      ∃ i ∈ pending, ReflTransGen (fun a b => b ∈ targets a) i k := by
  induction fuel generalizing reached pending with
  | zero => exact Or.inl h
  | succ fuel ih =>
    cases pending with
    | nil => exact Or.inl h
    | cons i pending =>
      rw [reach] at h
      split at h
      · rcases ih h with hk | ⟨m, hm, hbelow⟩
        · exact Or.inl hk
        · exact Or.inr ⟨m, List.mem_cons_of_mem _ hm, hbelow⟩
      · rcases ih h with hk | ⟨m, hm, hbelow⟩
        · rw [getD_setIfInBounds_true] at hk
          split at hk
          · rename_i hik
            exact Or.inr ⟨i, List.mem_cons_self, hik.1 ▸ .refl⟩
          · exact Or.inl hk
        · rcases List.mem_append.mp hm with hm | hm
          · exact Or.inr ⟨i, List.mem_cons_self, hbelow.head (List.mem_reverse.mp hm)⟩
          · exact Or.inr ⟨m, List.mem_cons_of_mem _ hm, hbelow⟩

/-- The links of nodes that are not marked, which the search has still to follow. -/
def unfollowed (targets : NodeId → List NodeId) (reached : Array Bool) : List NodeId :=
  ((List.range reached.size).filter fun k => !reached.getD k false).flatMap targets

/-- Reaching a new node uses up the links that go out from it. -/
theorem length_unfollowed (targets : NodeId → List NodeId) {i : NodeId} (hi : i < reached.size)
    (hnew : reached.getD i false = false) :
    (unfollowed targets reached).length =
      (targets i).length + (unfollowed targets (reached.setIfInBounds i true)).length := by
  let rest := (List.range reached.size).filter fun k => !reached.getD k false
  have hnodup : rest.Nodup := List.nodup_range.filter _
  have hmem : i ∈ rest := List.mem_filter.mpr ⟨List.mem_range.mpr hi, by simp [hnew]⟩
  have herase : (List.range (reached.setIfInBounds i true).size).filter
      (fun k => !(reached.setIfInBounds i true).getD k false) = rest.erase i := by
    rw [hnodup.erase_eq_filter, List.filter_filter, Array.size_setIfInBounds]
    refine List.filter_congr fun k hk => ?_
    rw [getD_setIfInBounds_true]
    by_cases hik : i = k
    · simp [hik, List.mem_range.mp hk]
    · simp [hik, Ne.symm hik]
  rw [unfollowed, unfollowed, herase, ← List.length_append, ← List.flatMap_cons]
  exact ((List.perm_cons_erase hmem).flatMap_right targets).length_eq

/-- The node is marked, or still to be looked at. -/
def Covered (reached : Array Bool) (pending : List NodeId) (k : NodeId) : Prop :=
  reached.getD k false = true ∨ k ∈ pending

/-- What a search keeps: pending nodes are in range, and marked nodes lead to covered ones. -/
structure Frontier (targets : NodeId → List NodeId) (reached : Array Bool)
    (pending : List NodeId) : Prop where
  pending_lt : ∀ i ∈ pending, i < reached.size
  followed : ∀ a, reached.getD a false = true → ∀ b ∈ targets a, Covered reached pending b

section Steps

variable {i k : NodeId}

/-- A node that is marked already need not be looked at. -/
theorem Covered.skip (hi : reached.getD i false = true) (h : Covered reached (i :: pending) k) :
    Covered reached pending k := by
  rcases h with hk | hk
  · exact Or.inl hk
  · rcases List.mem_cons.mp hk with rfl | hk
    · exact Or.inl hi
    · exact Or.inr hk

theorem Frontier.skip (hi : reached.getD i false = true)
    (h : Frontier targets reached (i :: pending)) : Frontier targets reached pending where
  pending_lt k hk := h.pending_lt k (List.mem_cons_of_mem i hk)
  followed a ha b hb := (h.followed a ha b hb).skip hi

/-- Marking a node that was pending loses none that were covered. -/
theorem Covered.mark (hi : i < reached.size) (h : Covered reached (i :: pending) k)
    (more : List NodeId) : Covered (reached.setIfInBounds i true) (more ++ pending) k := by
  rw [Covered, getD_setIfInBounds_true]
  by_cases hik : i = k
  · subst hik
    simp [hi]
  · rcases h with hk | hk
    · simp [hik, hk]
    · exact Or.inr (List.mem_append_right _ (List.mem_of_ne_of_mem (Ne.symm hik) hk))

/-- The targets of the node that is marked become pending. -/
theorem Frontier.mark (hinto : ∀ b ∈ targets i, b < reached.size)
    (h : Frontier targets reached (i :: pending)) :
    Frontier targets (reached.setIfInBounds i true) ((targets i).reverse ++ pending) where
  pending_lt k hk := by
    rw [Array.size_setIfInBounds]
    rcases List.mem_append.mp hk with hk | hk
    · exact hinto k (List.mem_reverse.mp hk)
    · exact h.pending_lt k (List.mem_cons_of_mem i hk)
  followed a ha b hb := by
    rw [getD_setIfInBounds_true] at ha
    split at ha
    · rename_i hia
      rw [← hia.1] at hb
      exact Or.inr (List.mem_append_left _ (List.mem_reverse.mpr hb))
    · exact (h.followed a ha b hb).mark (h.pending_lt i List.mem_cons_self) _

end Steps

/-- The marks after the search cover what was marked or pending, and all that lies below it. -/
theorem reach_covers {fuel : Nat} (hinto : ∀ a, ∀ b ∈ targets a, b < reached.size)
    (h : Frontier targets reached pending)
    (hfuel : pending.length + (unfollowed targets reached).length ≤ fuel) :
    (∀ k, Covered reached pending k → Covered (reach targets fuel reached pending) [] k) ∧
      Frontier targets (reach targets fuel reached pending) [] := by
  induction fuel generalizing reached pending with
  | zero =>
    have hnil : pending = [] := List.length_eq_zero_iff.mp (by omega)
    subst hnil
    exact ⟨fun _ hk => hk, h⟩
  | succ fuel ih =>
    cases pending with
    | nil => exact ⟨fun _ hk => hk, h⟩
    | cons i pending =>
      rw [List.length_cons] at hfuel
      have hi : i < reached.size := h.pending_lt i List.mem_cons_self
      by_cases hmarked : reached.getD i false = true
      · rw [reach, if_pos hmarked]
        obtain ⟨hold, hbelow⟩ := ih hinto (h.skip hmarked) (by omega)
        exact ⟨fun k hk => hold k (hk.skip hmarked), hbelow⟩
      · rw [reach, if_neg hmarked]
        -- A new node brings its links into the list, and takes them from those not followed yet.
        have hcount := length_unfollowed targets hi (Bool.eq_false_iff.mpr hmarked)
        obtain ⟨hold, hbelow⟩ := ih (by rwa [Array.size_setIfInBounds]) (h.mark (hinto i)) (by
          rw [List.length_append, List.length_reverse]
          omega)
        exact ⟨fun k hk => hold k (hk.mark hi _), hbelow⟩

/-- The search from some nodes on marks exactly what lies below them. -/
theorem reach_eq_true_iff {size fuel : Nat} {starts : List NodeId} {k : NodeId}
    (hinto : ∀ a, ∀ b ∈ targets a, b < size) (hstarts : ∀ i ∈ starts, i < size)
    (hfuel : starts.length + ((List.range size).flatMap targets).length ≤ fuel) :
    (reach targets fuel (Array.replicate size false) starts).getD k false = true ↔
      ∃ i ∈ starts, ReflTransGen (fun a b => b ∈ targets a) i k := by
  have hnone : ∀ k, (Array.replicate size false).getD k false = false := by
    intro k
    by_cases hk : k < size <;> simp [hk]
  constructor
  · intro h
    refine (exists_below_of_reach h).resolve_left ?_
    rw [hnone]
    exact Bool.noConfusion
  · rintro ⟨i, hi, hbelow⟩
    have hall : unfollowed targets (Array.replicate size false) =
        (List.range size).flatMap targets := by
      rw [unfollowed, Array.size_replicate, List.filter_eq_self.mpr fun k _ => by rw [hnone]; rfl]
    have hinto' : ∀ a, ∀ b ∈ targets a, b < (Array.replicate size false).size := by simpa using hinto
    have hfrontier : Frontier targets (Array.replicate size false) starts :=
      ⟨by simpa using hstarts, fun a ha => by rw [hnone] at ha; cases ha⟩
    rw [← hall] at hfuel
    obtain ⟨hold, hclosed⟩ := reach_covers hinto' hfrontier hfuel
    induction hbelow with
    | refl => exact (hold i (Or.inr hi)).resolve_right List.not_mem_nil
    | tail _ hstep ih => exact (hclosed.followed _ ih _ hstep).resolve_right List.not_mem_nil

end Reaching

end BlockCompiler
