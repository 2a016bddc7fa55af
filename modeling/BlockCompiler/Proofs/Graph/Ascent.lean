import BlockCompiler.Graph.Draft
import Mathlib.Data.List.Nodup
import Mathlib.Data.List.Perm.Subperm
import Mathlib.Logic.Relation

/-!
# Walks along a partial function

Parents and the nodes of a sequence are listed in the same way: a partial function
`up` on positions is followed step by step, up to a number of steps.  `ascend` is
that walk, and `Graph.ancestorsFrom` and `Graph.chainFrom` are instances of it.

If `up` stays among `size` positions, then `size` steps are enough to see
everything: `up` leads in no circle iff no walk of that length comes back to where
it began (`acyclic_iff_not_mem_ascend`), and then the walk lists exactly what lies
above (`mem_ascend_iff`) and is itself followed by recursion (`ascend_eq_cons`).
-/

namespace BlockCompiler

open Relation

/-- The positions that `up` leads to from `i` on, nearest first, up to a number of steps. -/
def ascend (up : NodeId → Option NodeId) : (steps : Nat) → NodeId → List NodeId
  | 0, _ => []
  | steps + 1, i =>
    match up i with
    | some k => k :: ascend up steps k
    | none => []

/-- `up` leads from `i` to `k` in one step. -/
def StepsTo (up : NodeId → Option NodeId) (k i : NodeId) : Prop :=
  up i = some k

theorem Graph.ancestorsFrom_eq_ascend (g : Graph) (steps : Nat) (i : NodeId) :
    g.ancestorsFrom steps i = ascend (fun k => (g.node k).parent) steps i := by
  induction steps generalizing i with
  | zero => rfl
  | succ steps ih =>
    simp only [Graph.ancestorsFrom, ascend]
    cases (g.node i).parent with
    | none => rfl
    | some p => simp only [ih]

theorem Graph.chainFrom_succ_eq_cons (node : NodeId → Node) (steps : Nat) (i : NodeId) :
    Graph.chainFrom node (steps + 1) i = i :: ascend (fun k => (node k).next) steps i := by
  induction steps generalizing i with
  | zero => cases h : (node i).next <;> simp [Graph.chainFrom, ascend, h]
  | succ steps ih =>
    rw [Graph.chainFrom, ascend]
    cases (node i).next with
    | none => rfl
    | some k => simp only [ih]

variable {up : NodeId → Option NodeId}

theorem ascend_succ_of_some {i k : NodeId} (h : up i = some k) (steps : Nat) :
    ascend up (steps + 1) i = k :: ascend up steps k := by
  simp [ascend, h]

theorem ascend_of_none {i : NodeId} (h : up i = none) (steps : Nat) : ascend up steps i = [] := by
  cases steps with
  | zero => rfl
  | succ steps => simp [ascend, h]

/-- Whatever a walk lists lies above its start. -/
theorem transGen_of_mem_ascend {steps : Nat} {i k : NodeId} (h : k ∈ ascend up steps i) :
    TransGen (StepsTo up) k i := by
  induction steps generalizing i with
  | zero => cases h
  | succ steps ih =>
    cases hup : up i with
    | none => rw [ascend_of_none hup] at h; cases h
    | some p =>
      rw [ascend_succ_of_some hup] at h
      rcases List.mem_cons.mp h with rfl | h
      · exact TransGen.single hup
      · exact (ih h).tail hup

/-- Whatever lies above a position is listed by a walk that is long enough. -/
theorem exists_mem_ascend {i k : NodeId} (h : TransGen (StepsTo up) k i) :
    ∃ steps, k ∈ ascend up steps i := by
  induction h with
  | single hup => exact ⟨1, by rw [ascend_succ_of_some hup]; exact List.mem_cons_self⟩
  | tail _ hup ih =>
    obtain ⟨steps, hmem⟩ := ih
    exact ⟨steps + 1, by rw [ascend_succ_of_some hup]; exact List.mem_cons_of_mem _ hmem⟩

/-- A shorter walk is the beginning of a longer one. -/
theorem take_ascend (steps more : Nat) (i : NodeId) :
    (ascend up (steps + more) i).take steps = ascend up steps i := by
  induction steps generalizing i with
  | zero => simp [ascend]
  | succ steps ih =>
    rw [Nat.add_right_comm]
    cases hup : up i with
    | none => simp [ascend_of_none hup]
    | some k => rw [ascend_succ_of_some hup, ascend_succ_of_some hup, List.take_succ_cons, ih]

theorem mem_ascend_of_le {steps steps' : Nat} (hle : steps ≤ steps') {i k : NodeId}
    (h : k ∈ ascend up steps i) : k ∈ ascend up steps' i := by
  obtain ⟨more, rfl⟩ := Nat.exists_eq_add_of_le hle
  rw [← take_ascend steps more i] at h
  exact List.mem_of_mem_take h

/-- A walk that ended before its steps were used up is not changed by further steps. -/
theorem ascend_eq_of_length_le {steps steps' : Nat} (hle : steps ≤ steps') {i : NodeId}
    (h : (ascend up steps' i).length ≤ steps) : ascend up steps i = ascend up steps' i := by
  obtain ⟨more, rfl⟩ := Nat.exists_eq_add_of_le hle
  rw [← take_ascend steps more i, List.take_of_length_le h]

/-- Following `up` from `i` on visits the listed positions one after the other, `i` first, and comes
to an end after the last of them. -/
inductive Traverses (up : NodeId → Option NodeId) : NodeId → List NodeId → Prop where
  | stop {i : NodeId} : up i = none → Traverses up i [i]
  | step {i k : NodeId} {visited : List NodeId} :
      up i = some k → Traverses up k visited → Traverses up i (i :: visited)

/-- A walk that did not use up its steps came to an end. -/
theorem traverses_of_length_lt {steps : Nat} {i : NodeId} (h : (ascend up steps i).length < steps) :
    Traverses up i (i :: ascend up steps i) := by
  induction steps generalizing i with
  | zero => exact absurd h (Nat.not_lt_zero _)
  | succ steps ih =>
    cases hup : up i with
    | none =>
      rw [ascend_of_none hup]
      exact .stop hup
    | some k =>
      rw [ascend_succ_of_some hup] at h ⊢
      exact .step hup (ih (Nat.lt_of_succ_lt_succ h))

/-- `up` is defined only below `size` and leads only there. -/
def Within (up : NodeId → Option NodeId) (size : Nat) : Prop :=
  ∀ i k, up i = some k → i < size ∧ k < size

section Within

variable {size : Nat} (hin : Within up size)

include hin

theorem lt_of_mem_ascend {steps : Nat} {i k : NodeId} (h : k ∈ ascend up steps i) : k < size := by
  induction steps generalizing i with
  | zero => cases h
  | succ steps ih =>
    cases hup : up i with
    | none => rw [ascend_of_none hup] at h; cases h
    | some p =>
      rw [ascend_succ_of_some hup] at h
      rcases List.mem_cons.mp h with rfl | h
      · exact (hin i _ hup).2
      · exact ih h

omit hin in
/-- If no long walk comes back to its start, then no walk visits a position twice. -/
theorem nodup_cons_ascend (hno : ∀ i, i ∉ ascend up size i) {steps : Nat} (hle : steps ≤ size)
    (i : NodeId) : (i :: ascend up steps i).Nodup := by
  refine List.nodup_cons.mpr ⟨fun h => hno i (mem_ascend_of_le hle h), ?_⟩
  induction steps generalizing i with
  | zero => exact List.nodup_nil
  | succ steps ih =>
    cases hup : up i with
    | none => rw [ascend_of_none hup]; exact List.nodup_nil
    | some k =>
      rw [ascend_succ_of_some hup]
      have hle' : steps ≤ size := Nat.le_of_succ_le hle
      exact List.nodup_cons.mpr ⟨fun h => hno k (mem_ascend_of_le hle' h), ih hle' k⟩

/-- Then a walk ends before `size` steps: it visits distinct positions, and its start is not among
them. -/
theorem length_ascend_lt (hno : ∀ i, i ∉ ascend up size i) {i : NodeId} (hi : i < size) :
    (ascend up size i).length < size := by
  have hsub : (i :: ascend up size i) ⊆ List.range size := by
    intro k hk
    rcases List.mem_cons.mp hk with rfl | hk
    · exact List.mem_range.mpr hi
    · exact List.mem_range.mpr (lt_of_mem_ascend hin hk)
  have hlen := (nodup_cons_ascend hno (Nat.le_refl size) i).subperm hsub |>.length_le
  rwa [List.length_cons, List.length_range] at hlen

theorem ascend_eq_ascend_size (hno : ∀ i, i ∉ ascend up size i) {steps : Nat}
    (hle : size ≤ steps) (i : NodeId) : ascend up steps i = ascend up size i := by
  by_cases hi : i < size
  · obtain ⟨more, rfl⟩ := Nat.exists_eq_add_of_le hle
    induction more with
    | zero => rfl
    | succ more ih =>
      -- The walk was over before `size` steps, so the step that is added is not taken.
      have hlt := length_ascend_lt hin hno hi
      rw [← ih (Nat.le_add_right size more)] at hlt ⊢
      have htake : (ascend up (size + more + 1) i).take (size + more) =
          ascend up (size + more) i := take_ascend (size + more) 1 i
      have hlen : (ascend up (size + more + 1) i).length ≤ size + more := by
        have := congrArg List.length htake
        rw [List.length_take] at this
        omega
      exact (ascend_eq_of_length_le (Nat.le_succ _) hlen).symm
  · have hnone : up i = none := by
      cases hup : up i with
      | none => rfl
      | some k => exact absurd (hin i k hup).1 hi
    rw [ascend_of_none hnone, ascend_of_none hnone]

theorem mem_ascend_of_transGen (hno : ∀ i, i ∉ ascend up size i) {i k : NodeId}
    (h : TransGen (StepsTo up) k i) : k ∈ ascend up size i := by
  obtain ⟨steps, hmem⟩ := exists_mem_ascend h
  rcases Nat.le_total steps size with hle | hle
  · exact mem_ascend_of_le hle hmem
  · rwa [ascend_eq_ascend_size hin hno hle] at hmem

/-- **Circles are found within `size` steps.** -/
theorem acyclic_iff_not_mem_ascend :
    (∀ i, ¬ TransGen (StepsTo up) i i) ↔ ∀ i, i ∉ ascend up size i := by
  constructor
  · intro h i hmem
    exact h i (transGen_of_mem_ascend hmem)
  · intro hno i h
    exact hno i (mem_ascend_of_transGen hin hno h)

variable (hacyclic : ∀ i, ¬ TransGen (StepsTo up) i i)

include hacyclic

/-- **A walk of `size` steps lists exactly what lies above its start.** -/
theorem mem_ascend_iff {i k : NodeId} : k ∈ ascend up size i ↔ TransGen (StepsTo up) k i := by
  have hno := (acyclic_iff_not_mem_ascend hin).mp hacyclic
  exact ⟨transGen_of_mem_ascend, mem_ascend_of_transGen hin hno⟩

/-- **A full walk is its first step followed by a full walk from there.** -/
theorem ascend_eq_cons {i k : NodeId} (hup : up i = some k) :
    ascend up size i = k :: ascend up size k := by
  have hno := (acyclic_iff_not_mem_ascend hin).mp hacyclic
  rw [← ascend_eq_ascend_size hin hno (Nat.le_succ size), ascend_succ_of_some hup]

end Within

end BlockCompiler
