import BlockCompiler.TypeSet
import Mathlib.Data.List.Nodup

/-!
# Lookup in dictionaries

A dictionary is read by `get?` and listed by `entries`.  The names of the entries
are strictly increasing, so no name has two entries and the two views agree
(`mem_entries_iff`).  What `insert` and `ofList` do is said in terms of `get?`
alone; sets of types inherit it (`TypeSet.contains_ofList`).
-/

namespace BlockCompiler

namespace Dict

variable {α : Type}

/-- No name has two entries. -/
theorem nodup_names (d : Dict α) : d.names.Nodup := by
  unfold names
  refine List.Pairwise.map _ ?_ d.sorted
  intro a b hlt heq
  exact String.lt_irrefl b.1 (heq ▸ hlt)

/-- The value found for a name is the one that is listed with it. -/
theorem mem_entries_iff {d : Dict α} {name : String} {value : α} :
    (name, value) ∈ d.entries ↔ d.get? name = some value := by
  unfold get?
  constructor
  · intro h
    rw [List.lookup_eq_some_iff]
    obtain ⟨before, after, hsplit⟩ := List.append_of_mem h
    refine ⟨before, after, hsplit, ?_⟩
    -- Entries before this one have smaller names, so the lookup does not stop at them.
    intro e he
    have hsorted := d.sorted
    rw [hsplit, List.pairwise_append] at hsorted
    have hlt := hsorted.2.2 e he (name, value) List.mem_cons_self
    have hne : name ≠ e.1 := fun heq => String.lt_irrefl e.1 (heq ▸ hlt)
    simpa using hne
  · intro h
    obtain ⟨before, after, hsplit, -⟩ := List.lookup_eq_some_iff.mp h
    rw [hsplit]
    simp

theorem mem_values_iff {d : Dict α} {value : α} :
    value ∈ d.values ↔ ∃ name, d.get? name = some value := by
  constructor
  · intro h
    obtain ⟨⟨name, v⟩, hmem, rfl⟩ := List.mem_map.mp h
    exact ⟨name, mem_entries_iff.mp hmem⟩
  · rintro ⟨name, h⟩
    exact List.mem_map.mpr ⟨(name, value), mem_entries_iff.mpr h, rfl⟩

theorem mem_names_iff {d : Dict α} {name : String} : name ∈ d.names ↔ d.contains name = true := by
  rw [contains, Option.isSome_iff_exists, names, List.mem_map]
  constructor
  · rintro ⟨⟨_, value⟩, he, rfl⟩
    exact ⟨value, mem_entries_iff.mp he⟩
  · rintro ⟨value, h⟩
    exact ⟨(name, value), mem_entries_iff.mpr h, rfl⟩

/-- The names of a dictionary are listed in one order only. -/
theorem names_ext {β : Type} {d : Dict α} {d' : Dict β}
    (h : ∀ name, name ∈ d.names ↔ name ∈ d'.names) : d.names = d'.names := by
  have hsorted : ∀ {γ : Type} (e : Dict γ), e.names.Pairwise (· < ·) := fun e =>
    List.pairwise_map.mpr e.sorted
  refine List.Perm.eq_of_pairwise ?_ (hsorted d) (hsorted d')
    ((List.perm_ext_iff_of_nodup d.nodup_names d'.nodup_names).mpr h)
  intro a b _ _ hab hba
  exact absurd (String.lt_trans hab hba) (String.lt_irrefl a)

theorem map_map {β γ : Type} (f : α → β) (g : β → γ) (d : Dict α) :
    (d.map f).map g = d.map fun value => g (f value) := by
  simp [map, Function.comp_def]

theorem map_eq_self {f : α → α} {d : Dict α} (h : ∀ value ∈ d.values, f value = value) :
    d.map f = d := by
  obtain ⟨entries, sorted⟩ := d
  have hentries : (entries.map fun e => (e.1, f e.2)) = entries := by
    refine (List.map_congr_left fun e he => ?_).trans (List.map_id entries)
    rw [h e.2 (List.mem_map_of_mem he), id]
  simp only [map, hentries]

@[simp] theorem get?_empty (name : String) : (empty : Dict α).get? name = none := rfl

theorem lookup_cons_ite (e : String × α) (rest : List (String × α)) (name : String) :
    (e :: rest).lookup name = if name = e.1 then some e.2 else rest.lookup name := by
  obtain ⟨k, v⟩ := e
  by_cases h : name = k
  · simp [h]
  · have hne : (name == k) = false := beq_eq_false_iff_ne.mpr h
    simp only [List.lookup_cons, hne, if_neg h]

/-- Looking a name up after the values were mapped. -/
theorem get?_map {β : Type} (f : α → β) (d : Dict α) (name : String) :
    (d.map f).get? name = (d.get? name).map f := by
  show (d.entries.map fun e => (e.1, f e.2)).lookup name = (d.entries.lookup name).map f
  induction d.entries with
  | nil => rfl
  | cons e rest ih =>
    simp only [List.map_cons, lookup_cons_ite, ih]
    split <;> rfl

theorem lookup_insertEntry (name other : String) (value : α) (entries : List (String × α)) :
    (insertEntry name value entries).lookup other =
      if other = name then some value else entries.lookup other := by
  induction entries with
  | nil => rw [insertEntry, lookup_cons_ite]
  | cons head rest ih =>
    obtain ⟨k, v⟩ := head
    simp only [insertEntry]
    split
    · rw [lookup_cons_ite]
    · split
      · rename_i hk
        simp only [lookup_cons_ite, hk]
        split <;> rfl
      · rename_i hk
        rw [lookup_cons_ite, ih, lookup_cons_ite]
        by_cases h : other = name
        · simp [h, hk]
        · simp [h]

@[simp] theorem get?_insert (d : Dict α) (name other : String) (value : α) :
    (d.insert name value).get? other = if other = name then some value else d.get? other :=
  lookup_insertEntry name other value d.entries

theorem get?_or_eq_of_get?_insert {d : Dict α} {name other : String} {value found : α}
    (h : (d.insert name value).get? other = some found) :
    d.get? other = some found ∨ found = value := by
  rw [get?_insert] at h
  split at h
  · exact Or.inr (Option.some.inj h).symm
  · exact Or.inl h

theorem get?_foldl_insert (entries : List (String × α)) (d : Dict α) (name : String) :
    (entries.foldl (fun d e => d.insert e.1 e.2) d).get? name =
      (entries.reverse.lookup name).or (d.get? name) := by
  induction entries generalizing d with
  | nil => simp
  | cons e rest ih =>
    rw [List.foldl_cons, ih, List.reverse_cons, List.lookup_append, Option.or_assoc]
    congr 1
    rw [get?_insert, lookup_cons_ite, List.lookup_nil]
    by_cases h : name = e.1 <;> simp [h]

/-- In a dictionary made of a list the latest entry of a name counts. -/
theorem get?_ofList (entries : List (String × α)) (name : String) :
    (ofList entries).get? name = entries.reverse.lookup name := by
  simp [ofList, get?_foldl_insert]

theorem mem_of_get?_ofList {entries : List (String × α)} {name : String} {value : α}
    (h : (ofList entries).get? name = some value) : (name, value) ∈ entries := by
  rw [get?_ofList] at h
  obtain ⟨before, after, hsplit, -⟩ := List.lookup_eq_some_iff.mp h
  have hmem : (name, value) ∈ entries.reverse := by rw [hsplit]; simp
  exact List.mem_reverse.mp hmem

theorem contains_ofList (entries : List (String × α)) (name : String) :
    (ofList entries).contains name = true ↔ name ∈ entries.map (·.1) := by
  rw [contains, get?_ofList, List.lookup_isSome_iff]
  constructor
  · rintro ⟨e, he, heq⟩
    exact List.mem_map.mpr ⟨e, List.mem_reverse.mp he, (beq_iff_eq.mp heq).symm⟩
  · intro h
    obtain ⟨e, he, rfl⟩ := List.mem_map.mp h
    exact ⟨e, List.mem_reverse.mpr he, by simp⟩

theorem get?_ofList_of_mem {entries : List (String × α)} (hkeys : (entries.map (·.1)).Nodup)
    {e : String × α} (he : e ∈ entries) : (ofList entries).get? e.1 = some e.2 := by
  have hsome := (contains_ofList entries e.1).mpr (List.mem_map_of_mem he)
  obtain ⟨value, hvalue⟩ := Option.isSome_iff_exists.mp hsome
  have heq := List.inj_on_of_nodup_map hkeys (mem_of_get?_ofList hvalue) he rfl
  rw [hvalue, ← heq]

theorem insertEntry_of_lt {name : String} {value : α} {entries : List (String × α)}
    (h : ∀ e ∈ entries, e.1 < name) :
    insertEntry name value entries = entries ++ [(name, value)] := by
  induction entries with
  | nil => rfl
  | cons e rest ih =>
    obtain ⟨he, hrest⟩ := List.forall_mem_cons.mp h
    have hne : name ≠ e.1 := fun heq => String.lt_irrefl e.1 (heq ▸ he)
    have hnot : ¬ name < e.1 := fun hlt => String.lt_irrefl _ (String.lt_trans hlt he)
    rw [insertEntry, if_neg hnot, if_neg hne, ih hrest, List.cons_append]

theorem entries_foldl_insert {entries : List (String × α)} {d : Dict α}
    (h : (d.entries ++ entries).Pairwise (fun a b => a.1 < b.1)) :
    (entries.foldl (fun d e => d.insert e.1 e.2) d).entries = d.entries ++ entries := by
  induction entries generalizing d with
  | nil => simp
  | cons e rest ih =>
    have hlast : (d.insert e.1 e.2).entries = d.entries ++ [e] := by
      refine insertEntry_of_lt fun a ha => ?_
      exact (List.pairwise_append.mp h).2.2 a ha e List.mem_cons_self
    rw [List.foldl_cons, ih, hlast, List.append_assoc, List.singleton_append]
    rw [hlast, List.append_assoc, List.singleton_append]
    exact h

theorem ext_entries {d d' : Dict α} (h : d.entries = d'.entries) : d = d' := by
  obtain ⟨entries, sorted⟩ := d
  obtain ⟨entries', sorted'⟩ := d'
  cases h
  rfl

/-- A dictionary is made of its own entries. -/
theorem ofList_entries (d : Dict α) : ofList d.entries = d :=
  ext_entries (entries_foldl_insert (d := empty) d.sorted)

/-- Inserting the entries of a dictionary one by one, with their values mapped, maps it. -/
theorem foldl_insert_map {β : Type} (f : α → β) (d : Dict α) :
    d.entries.foldl (fun m e => m.insert e.1 (f e.2)) empty = d.map f := by
  have hfold := ofList_entries (d.map f)
  rwa [ofList, map, List.foldl_map] at hfold

end Dict

/-- A set made of a list holds exactly the names of the list. -/
@[simp] theorem TypeSet.contains_ofList (types : List String) (type : String) :
    (TypeSet.ofList types).contains type = true ↔ type ∈ types := by
  rw [TypeSet.contains, TypeSet.ofList, Dict.contains_ofList, List.map_map]
  simp [Function.comp_def]

end BlockCompiler
