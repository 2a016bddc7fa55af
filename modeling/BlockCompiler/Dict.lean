/-!
# Dictionaries

A finite map from names to values, kept as a list of entries whose names are
strictly increasing by code point.  Every dictionary is listed in that order,
and two dictionaries with the same entries are equal.
-/

namespace BlockCompiler

/-- A finite map from names, listed by increasing name. -/
structure Dict (α : Type) where
  entries : List (String × α)
  sorted : entries.Pairwise (fun a b => a.1 < b.1)

namespace Dict

variable {α β : Type}

/-- The entries with `name` set to `value`: an entry of that name is replaced, else a new
one is put at its place in the order. -/
def insertEntry (name : String) (value : α) : List (String × α) → List (String × α)
  | [] => [(name, value)]
  | (k, v) :: rest =>
    if name < k then (name, value) :: (k, v) :: rest
    else if name = k then (name, value) :: rest
    else (k, v) :: insertEntry name value rest

theorem mem_insertEntry {name : String} {value : α} {entries : List (String × α)}
    {e : String × α} (h : e ∈ insertEntry name value entries) :
    e = (name, value) ∨ e ∈ entries := by
  induction entries with
  | nil => simpa [insertEntry] using h
  | cons head rest ih =>
    obtain ⟨k, v⟩ := head
    simp only [insertEntry] at h
    split at h
    · simpa using h
    · split at h
      · rcases List.mem_cons.1 h with h | h
        · exact Or.inl h
        · exact Or.inr (List.mem_cons_of_mem _ h)
      · rcases List.mem_cons.1 h with h | h
        · exact Or.inr (h ▸ List.mem_cons_self)
        · exact (ih h).imp id (List.mem_cons_of_mem _)

theorem sorted_insertEntry {name : String} {value : α} {entries : List (String × α)}
    (h : entries.Pairwise (fun a b => a.1 < b.1)) :
    (insertEntry name value entries).Pairwise (fun a b => a.1 < b.1) := by
  induction entries with
  | nil => simp [insertEntry]
  | cons head rest ih =>
    obtain ⟨k, v⟩ := head
    obtain ⟨below, restSorted⟩ := List.pairwise_cons.1 h
    simp only [insertEntry]
    split
    · rename_i before
      refine List.pairwise_cons.2 ⟨fun e he => ?_, h⟩
      rcases List.mem_cons.1 he with rfl | he
      · exact before
      · exact String.lt_trans before (below e he)
    · rename_i notBefore
      split
      · rename_i same
        subst same
        exact List.pairwise_cons.2 ⟨below, restSorted⟩
      · rename_i other
        refine List.pairwise_cons.2 ⟨fun e he => ?_, ih restSorted⟩
        rcases mem_insertEntry he with rfl | he
        · exact Decidable.byContradiction fun notAfter =>
            other (String.le_antisymm (String.not_lt.1 notAfter) (String.not_lt.1 notBefore))
        · exact below e he

/-- The dictionary without entries. -/
def empty : Dict α where
  entries := []
  sorted := List.Pairwise.nil

instance : Inhabited (Dict α) where
  default := empty

/-- The dictionary with `name` set to `value`. -/
def insert (d : Dict α) (name : String) (value : α) : Dict α where
  entries := insertEntry name value d.entries
  sorted := sorted_insertEntry d.sorted

/-- The entries of a list in order; a later entry of the same name replaces an earlier one. -/
def ofList (entries : List (String × α)) : Dict α :=
  entries.foldl (fun d e => d.insert e.1 e.2) empty

/-- The value of a name. -/
def get? (d : Dict α) (name : String) : Option α :=
  d.entries.lookup name

/-- The name has an entry. -/
def contains (d : Dict α) (name : String) : Bool :=
  (d.get? name).isSome

/-- The dictionary without the entry of a name. -/
def erase (d : Dict α) (name : String) : Dict α where
  entries := d.entries.filter (·.1 != name)
  sorted := d.sorted.filter _

/-- The names, increasing. -/
def names (d : Dict α) : List String :=
  d.entries.map (·.1)

/-- The values, by increasing name. -/
def values (d : Dict α) : List α :=
  d.entries.map (·.2)

/-- The number of entries. -/
def size (d : Dict α) : Nat :=
  d.entries.length

/-- The same names with `f` applied to every value. -/
def map (f : α → β) (d : Dict α) : Dict β where
  entries := d.entries.map fun e => (e.1, f e.2)
  sorted := by
    have h := d.sorted
    simpa [List.pairwise_map] using h

theorem names_map (f : α → β) (d : Dict α) : (d.map f).names = d.names := by
  simp [names, map]

end Dict

end BlockCompiler
