/-!
# Sets of keys

A finite set of keys that only grows.  The order in which keys came in does not
show: a set can only be asked whether it has a key.
-/

namespace BlockCompiler

/-- A finite set of keys. -/
structure KeySet (κ : Type) where
  members : List κ := []
deriving DecidableEq, Repr

namespace KeySet

variable {κ : Type} [DecidableEq κ]

/-- The key belongs to the set. -/
def contains (s : KeySet κ) (key : κ) : Bool :=
  s.members.contains key

/-- The set with one key more; a key that is there already changes nothing. -/
def insert (s : KeySet κ) (key : κ) : KeySet κ :=
  if s.contains key then s else { members := key :: s.members }

theorem contains_insert (s : KeySet κ) (key other : κ) :
    (s.insert key).contains other = true ↔ s.contains other = true ∨ other = key := by
  unfold insert
  split
  · rename_i hkey
    refine ⟨Or.inl, fun h => h.elim id ?_⟩
    rintro rfl
    exact hkey
  · simp [contains, or_comm]

end KeySet

end BlockCompiler
