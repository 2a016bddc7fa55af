import BlockCompiler.Proofs.Dictionary
import BlockCompiler.Proofs.Json.Writing

/-!
# Reading written values

A value that is read has a regular form: its objects list their members by increasing
name, and its arrays and objects are nested within the limit (`Json.regular_of_ofTree?`).
Writing keeps both, since the tree of a value has the shape of the value.  So a regular
value with legible numbers is read back from its tree as it was (`Json.ofTree?_toTree`).

The lemmas about lists, dictionaries and optional parts of a tree are what records of
all kinds are read back by.
-/

namespace BlockCompiler

/-! ## Lists and dictionaries -/

theorem mapM_map_eq_some {α β : Type} {f : β → Option α} {write : α → β} {xs : List α}
    (h : ∀ x ∈ xs, f (write x) = some x) : (xs.map write).mapM f = some xs := by
  induction xs with
  | nil => rfl
  | cons x rest ih =>
    obtain ⟨hx, hrest⟩ := List.forall_mem_cons.mp h
    rw [List.map_cons, List.mapM_cons, hx, ih hrest]
    rfl

theorem exists_of_mem_mapM {α β : Type} {f : α → Option β} {xs : List α} {ys : List β}
    (h : xs.mapM f = some ys) {y : β} (hy : y ∈ ys) : ∃ x ∈ xs, f x = some y := by
  induction xs generalizing ys with
  | nil =>
    cases h
    cases hy
  | cons x rest ih =>
    simp only [List.mapM_cons, Option.bind_eq_bind, Option.bind_eq_some_iff, Option.pure_def,
      Option.some.injEq] at h
    obtain ⟨first, hfirst, others, hothers, rfl⟩ := h
    rcases List.mem_cons.mp hy with rfl | hy
    · exact ⟨x, List.mem_cons_self, hfirst⟩
    · obtain ⟨x', hx', hf⟩ := ih hothers hy
      exact ⟨x', List.mem_cons_of_mem _ hx', hf⟩

namespace JsonTree

variable {α : Type} {f : JsonTree → Option α}

/-- The parts of a dictionary are read back one by one. -/
theorem dict?_entries (write : α → JsonTree) (d : Dict α)
    (h : ∀ value ∈ d.values, f (write value) = some value) :
    dict? f (.object (d.entries.map fun e => (some e.1, write e.2))) = some d := by
  have hall : (d.entries.map fun e => (some e.1, write e.2)).mapM
      (fun m : Option String × JsonTree => m.1.bind fun name => (f m.2).map fun v => (name, v)) =
        some d.entries := by
    refine mapM_map_eq_some fun e he => ?_
    simp [h e.2 (List.mem_map_of_mem he)]
  rw [dict?, hall, Option.map_some, Dict.ofList_entries]

theorem exists_of_mem_dict? {members : List (Option String × JsonTree)} {d : Dict α}
    (h : dict? f (.object members) = some d) {value : α} (hvalue : value ∈ d.values) :
    ∃ m ∈ members, f m.2 = some value := by
  obtain ⟨entries, hentries, rfl⟩ := Option.map_eq_some_iff.mp h
  obtain ⟨name, hname⟩ := Dict.mem_values_iff.mp hvalue
  obtain ⟨m, hm, hread⟩ := exists_of_mem_mapM hentries (Dict.mem_of_get?_ofList hname)
  obtain ⟨name', -, hpair⟩ := Option.bind_eq_some_iff.mp hread
  obtain ⟨value', hvalue', heq⟩ := Option.map_eq_some_iff.mp hpair
  cases heq
  exact ⟨m, hm, hvalue'⟩

end JsonTree

namespace Json

theorem ofItems?_eq_mapM (depth : Nat) (items : List JsonTree) :
    ofItems? depth items = items.mapM (ofTree? depth) := by
  induction items with
  | nil => rfl
  | cons item rest ih =>
    rw [ofItems?, ih, List.mapM_cons]
    cases ofTree? depth item <;> cases rest.mapM (ofTree? depth) <;> rfl

theorem ofMembers?_eq_mapM (depth : Nat) (members : List (Option String × JsonTree)) :
    ofMembers? depth members = members.mapM fun m =>
      m.1.bind fun name => (ofTree? depth m.2).map fun v => (name, v) := by
  induction members with
  | nil => rfl
  | cons m rest ih =>
    rw [ofMembers?, ih, List.mapM_cons]
    cases m.1 with
    | none => rfl
    | some name =>
      cases ofTree? depth m.2 with
      | none => rfl
      | some v =>
        cases rest.mapM fun m => m.1.bind fun name => (ofTree? depth m.2).map fun v => (name, v) <;>
          rfl

/-- An object is read as a dictionary. -/
theorem ofTree?_object (depth : Nat) (members : List (Option String × JsonTree)) :
    ofTree? (depth + 1) (.object members) =
      (JsonTree.dict? (ofTree? depth) (.object members)).map fun d => .object d.entries := by
  rw [ofTree?, ofMembers?_eq_mapM, JsonTree.dict?, Option.map_map]
  rfl

/-- The form of a value that was read: at most `depth` arrays and objects stand inside each other,
and the members of an object are listed by increasing name. -/
inductive Regular : Nat → Json → Prop where
  | null {depth : Nat} : Regular depth .null
  | bool {depth : Nat} (b : Bool) : Regular depth (.bool b)
  | number {depth : Nat} (x : JsonNumber) : Regular depth (.number x)
  | string {depth : Nat} (s : String) : Regular depth (.string s)
  | array {depth : Nat} {items : List Json} :
      (∀ item ∈ items, Regular depth item) → Regular (depth + 1) (.array items)
  | object {depth : Nat} {members : List (String × Json)} :
      members.Pairwise (fun a b => a.1 < b.1) → (∀ member ∈ members, Regular depth member.2) →
      Regular (depth + 1) (.object members)

/-- **What is read is regular.** -/
theorem regular_of_ofTree? {t : JsonTree} {depth : Nat} {j : Json} (h : ofTree? depth t = some j) :
    j.Regular depth := by
  induction t using JsonTree.induction generalizing depth j with
  | null =>
    cases h
    exact .null
  | bool b =>
    cases h
    exact .bool b
  | number n =>
    obtain ⟨x, -, rfl⟩ := Option.map_eq_some_iff.mp h
    exact .number x
  | string content =>
    obtain ⟨s, -, rfl⟩ := Option.map_eq_some_iff.mp h
    exact .string s
  | array items ih =>
    cases depth with
    | zero => cases h
    | succ depth =>
      rw [ofTree?, ofItems?_eq_mapM] at h
      obtain ⟨read, hread, rfl⟩ := Option.map_eq_some_iff.mp h
      refine .array fun item hitem => ?_
      obtain ⟨t, ht, htree⟩ := exists_of_mem_mapM hread hitem
      exact ih t ht htree
  | object members ih =>
    cases depth with
    | zero => cases h
    | succ depth =>
      rw [ofTree?_object] at h
      obtain ⟨d, hd, rfl⟩ := Option.map_eq_some_iff.mp h
      refine .object d.sorted fun member hmember => ?_
      obtain ⟨m, hm, htree⟩ := JsonTree.exists_of_mem_dict? hd (List.mem_map_of_mem hmember)
      exact ih m hm htree

/-- **A regular value with legible numbers is read back from its tree.** -/
theorem ofTree?_toTree {depth : Nat} {j : Json} (hregular : j.Regular depth)
    (hnumbers : j.Numbers JsonNumber.Legible) : ofTree? depth j.toTree = some j := by
  induction hregular with
  | null | bool | string => rfl
  | number x => rw [toTree, ofTree?, (numbers_number_iff.mp hnumbers).stands, Option.map_some]
  | array _ ih =>
    have hitems := numbers_array_iff.mp hnumbers
    rw [toTree, itemTrees_eq_map, ofTree?, ofItems?_eq_mapM,
      mapM_map_eq_some fun item hitem => ih item hitem (hitems item hitem), Option.map_some]
  | @object depth members hsorted _ ih =>
    have hmembers := numbers_object_iff.mp hnumbers
    have hread : JsonTree.dict? (ofTree? depth)
        (.object (members.map fun m => (some m.1, m.2.toTree))) = some ⟨members, hsorted⟩ := by
      refine JsonTree.dict?_entries toTree ⟨members, hsorted⟩ fun value hvalue => ?_
      obtain ⟨m, hm, rfl⟩ := List.mem_map.mp hvalue
      exact ih m hm (hmembers m hm)
    rw [toTree, memberTrees_eq_map, ofTree?_object, hread, Option.map_some]

theorem parse?_pretty {j : Json} (h : j.Numbers JsonNumber.Legible) :
    JsonTree.parse? j.pretty = some j.toTree := by
  rw [JsonTree.parse?, pretty, JsonToken.scan?_of_yields (yields_layout h 0)]
  exact JsonTree.ofTokens?_tokens j.toTree

end Json

end BlockCompiler
