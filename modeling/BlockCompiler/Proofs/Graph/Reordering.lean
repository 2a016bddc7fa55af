import BlockCompiler.Proofs.Graph.Likeness
import BlockCompiler.Proofs.Graph.Linking

/-!
# The order of records

The records of a document refer to each other by key, so that their order should not
matter.  It decides the positions of the nodes, though, and with these the order of
every search for defects.

Two documents with the same records have drafts that differ by a renaming of positions
(`Draft.Renaming`), as soon as their keys are distinct.  Each of the conditions under
which a draft has a graph is kept by renamings, one case per condition
(`Renaming.not_violates`); and repeated keys and dangling references do not depend on the
order in the first place.  Hence the verdict on a document is the same for every order of
its records (`Reorders.kind_of_defect?`).  If there is a graph, its nodes have the
portraits that can be read off the records (`Document.portrait_toGraph`).
-/

namespace BlockCompiler

open Relation

/-! ## Renamings -/

namespace Draft

/-- The second draft is the first one with `f` applied to all positions. -/
structure Renaming (d d' : Draft) (f : NodeId → NodeId) : Prop where
  injective : ∀ i k, i < d.size → k < d.size → f i = f k → i = k
  surjective : ∀ i', i' < d'.size → ∃ i < d.size, f i = i'
  key : ∀ i < d.size, d'.key (f i) = d.key i
  target : ∀ i < d.size, ∀ p, (d'.node (f i)).target? p = ((d.node i).target? p).map f
  roots : d'.roots = d.roots.map f

namespace Renaming

variable {d d' : Draft} {f : NodeId → NodeId}

theorem leads (h : Renaming d d' f) {a b : NodeId} (hab : Leads d.node a b) :
    Leads d'.node (f a) (f b) := by
  have ha := d.lt_size_of_leads hab
  obtain ⟨p, hp⟩ := hab
  exact ⟨p, by rw [h.target a ha, hp, Option.map_some]⟩

/-- Every edge of the second draft comes from one of the first. -/
theorem exists_target (h : Renaming d d' f) {a' t' : NodeId} {p : Place}
    (ht' : (d'.node a').target? p = some t') :
    ∃ a t, a < d.size ∧ f a = a' ∧ f t = t' ∧ (d.node a).target? p = some t := by
  obtain ⟨a, ha, rfl⟩ := h.surjective a' (d'.lt_size_of_target? ht')
  rw [h.target a ha] at ht'
  obtain ⟨t, ht, rfl⟩ := Option.map_eq_some_iff.mp ht'
  exact ⟨a, t, ha, rfl, rfl, ht⟩

/-- Every way down the second draft comes from one down the first. -/
theorem exists_transGen (h : Renaming d d' f) (hc : d.Closed) {a' b' : NodeId}
    (hab : TransGen (Leads d'.node) a' b') :
    ∃ a b, a < d.size ∧ b < d.size ∧ f a = a' ∧ f b = b' ∧ TransGen (Leads d.node) a b := by
  induction hab with
  | single hstep =>
    obtain ⟨p, hp'⟩ := hstep
    obtain ⟨a, b, ha, rfl, rfl, hp⟩ := h.exists_target hp'
    exact ⟨a, b, ha, hc.target_lt a p b hp, rfl, rfl, .single ⟨p, hp⟩⟩
  | tail _ hstep ih =>
    obtain ⟨a, b, ha, hb, rfl, rfl, hab⟩ := ih
    obtain ⟨p, hp'⟩ := hstep
    obtain ⟨k, c, hk, hkb, rfl, hp⟩ := h.exists_target hp'
    obtain rfl := h.injective k b hk hb hkb
    exact ⟨a, c, ha, hc.target_lt k p c hp, rfl, rfl, hab.tail ⟨p, hp⟩⟩

theorem distinctKeys (h : Renaming d d' f) (hd : d.DistinctKeys) : d'.DistinctKeys := by
  intro i' k' hi' hk' heq
  obtain ⟨i, hi, rfl⟩ := h.surjective i' hi'
  obtain ⟨k, hk, rfl⟩ := h.surjective k' hk'
  rw [h.key i hi, h.key k hk] at heq
  rw [hd i k hi hk heq]

theorem singleOwner (h : Renaming d d' f) (hc : d.Closed) (hd : SingleOwner d.node) :
    SingleOwner d'.node := by
  intro a' p b' q t' ha' hb'
  obtain ⟨a, t, -, rfl, rfl, ha⟩ := h.exists_target ha'
  obtain ⟨b, u, -, rfl, hut, hb⟩ := h.exists_target hb'
  obtain rfl := h.injective u t (hc.target_lt b q u hb) (hc.target_lt a p t ha) hut
  obtain ⟨rfl, rfl⟩ := hd a p b q u ha hb
  exact ⟨rfl, rfl⟩

theorem freeRoots (h : Renaming d d' f) (hc : d.Closed) (hd : d.FreeRoots) : d'.FreeRoots := by
  rw [FreeRoots, h.roots]
  constructor
  · refine List.Nodup.map_on (fun r hr r' hr' heq => ?_) hd.1
    exact h.injective r r' (hc.root_lt r hr) (hc.root_lt r' hr') heq
  · rintro r' hr' a' ⟨p, hp⟩
    obtain ⟨r, hr, rfl⟩ := List.mem_map.mp hr'
    obtain ⟨a, t, -, rfl, htr, ht⟩ := h.exists_target hp
    obtain rfl := h.injective t r (hc.target_lt a p t ht) (hc.root_lt r hr) htr
    exact hd.2 t hr a ⟨p, ht⟩

theorem acyclic (h : Renaming d d' f) (hc : d.Closed) (hd : Acyclic d.node) : Acyclic d'.node := by
  intro i' hi'
  obtain ⟨a, b, ha, hb, rfl, hba, hab⟩ := h.exists_transGen hc hi'
  obtain rfl := h.injective b a hb ha hba
  exact hd b hab

theorem rooted (h : Renaming d d' f) (hd : d.Rooted) : d'.Rooted := by
  intro i' hi'
  obtain ⟨i, hi, rfl⟩ := h.surjective i' hi'
  obtain ⟨r, hr, hreach⟩ := hd i hi
  refine ⟨f r, ?_, hreach.lift f fun a b hab => h.leads hab⟩
  rw [h.roots]
  exact List.mem_map_of_mem hr

/-- A renamed draft violates nothing new. -/
theorem not_violates (h : Renaming d d' f) (hc : d.Closed) {kind : Defect.Kind}
    (hd : ¬ d.Violates kind) : ¬ d'.Violates kind := by
  cases kind with
  | duplicateNode => exact not_not.mpr (h.distinctKeys (not_not.mp hd))
  | multipleOwners =>
    obtain ⟨hs, hfree⟩ := not_not.mp hd
    exact not_not.mpr ⟨h.singleOwner hc hs, h.freeRoots hc hfree⟩
  | cycle => exact not_not.mpr (h.acyclic hc (not_not.mp hd))
  | detached =>
    refine not_not.mpr fun hne => h.rooted (not_not.mp hd fun hnil => hne ?_)
    rw [h.roots, hnil, List.map_nil]
  | danglingLink | unreadable => exact hd

end Renaming

/-! ## Verdicts -/

/-- Searches that may find the same kinds come to a defect of the same kind, or to none. -/
theorem Found.kind_eq {d d' : Draft} {order : List Defect.Kind} {found found' : Option Defect}
    (h : d.Found order found) (h' : d'.Found order found')
    (hiff : ∀ kind, d.Violates kind ↔ d'.Violates kind) :
    found'.map Defect.kind = found.map Defect.kind := by
  have hfirst : ∀ {order kind}, d.FirstViolated order kind → d'.FirstViolated order kind := by
    intro order kind hv
    induction order with
    | nil => exact hv.elim
    | cons first rest ih =>
      rcases hv with ⟨hv, rfl⟩ | ⟨hv, hrest⟩
      · exact Or.inl ⟨(hiff _).mp hv, rfl⟩
      · exact Or.inr ⟨mt (hiff _).mpr hv, ih hrest⟩
  cases found with
  | none =>
    cases found' with
    | none => rfl
    | some e' =>
      obtain ⟨hmem, hv⟩ := FirstViolated.violates h'
      exact absurd ((hiff _).mpr hv) (h _ hmem)
  | some e =>
    have he := hfirst h
    cases found' with
    | none => exact absurd he.violates.2 (h' _ he.violates.1)
    | some e' => rw [Option.map_some, Option.map_some, FirstViolated.unique h' he]

/-- Repeated keys are looked for first. -/
theorem kind_of_not_distinctKeys {d : Draft} (h : ¬ d.DistinctKeys) :
    d.defect?.map Defect.kind = some .duplicateNode := by
  cases hrepeated : d.repeatedKey? with
  | none => exact absurd (d.repeatedKey?_eq_none_iff.mp hrepeated) h
  | some e =>
    rw [defect?, hrepeated, Option.some_or, Option.map_some, kind_of_repeatedKey? hrepeated]

end Draft

/-! ## Records -/

/-- The portrait of the node that a record stands for. -/
def Record.portrait (r : Record) : Portrait where
  key := r.id
  type := r.type
  fields := r.fields.map Json.fieldText
  values := r.values
  statements := r.statements
  next := r.next

theorem Record.mem_references_of_target? {r : Record} {p : Place} {k : String}
    (h : r.portrait.target? p = some k) : k ∈ r.references := by
  unfold references
  cases p with
  | value slot =>
    have hk : k ∈ r.values.values := Dict.mem_values_iff.mpr ⟨slot, h⟩
    simp [hk]
  | statement slot =>
    have hk : k ∈ r.statements.values := Dict.mem_values_iff.mpr ⟨slot, h⟩
    simp [hk]
  | next =>
    have hk : r.next = some k := h
    simp [hk]

namespace Document

variable {d d' : Document}

theorem target?_toNode (d : Document) (r : Record) (p : Place) :
    (d.toNode r).target? p = (r.portrait.target? p).map d.position := by
  cases p with
  | value slot => exact Dict.get?_map _ _ _
  | statement slot => exact Dict.get?_map _ _ _
  | next => rfl

theorem isSome_locate?_key {i : NodeId} (hi : i < d.toDraft.size) :
    (d.locate? (d.toDraft.key i)).isSome = true := by
  rw [size_toDraft] at hi
  exact isSome_locate?_iff.mpr ⟨_, List.getElem_mem hi, (key_toDraft hi).symm⟩

/-- The record at the position of a key has that key. -/
theorem key_position {k : String} (h : (d.locate? k).isSome = true) :
    d.toDraft.key (d.position k) = k := by
  obtain ⟨i, hi⟩ := Option.isSome_iff_exists.mp h
  obtain ⟨hlt, hkey, -⟩ := List.findIdx?_eq_some_iff_getElem.mp hi
  rw [position, hi, Option.getD_some, key_toDraft hlt]
  exact beq_iff_eq.mp hkey

theorem map_node_ids (d : Document) : d.toDraft.ids.map d.toDraft.node = d.records.map d.toNode := by
  refine List.ext_getElem (by simp [Draft.ids, size_toDraft]) fun i hi hi' => ?_
  have hlt : i < d.records.length := by simpa using hi'
  simp [Draft.ids, node_toDraft hlt]

theorem map_key_ids (d : Document) : d.toDraft.ids.map d.toDraft.key = d.records.map (·.id) :=
  map_key_ids_of d.size_toDraft fun _ hi => key_toDraft hi

theorem distinctKeys_toDraft_iff (d : Document) :
    d.toDraft.DistinctKeys ↔ (d.records.map (·.id)).Nodup := by
  rw [← Draft.repeatedKey?_eq_none_iff, Draft.repeatedKey?, Option.map_eq_none_iff,
    Draft.firstRepeat?_eq_none_iff, map_key_ids]
  exact and_iff_left fun _ _ => List.not_mem_nil

/-- The record of a node is found by its key. -/
theorem position_key (h : d.toDraft.DistinctKeys) {i : NodeId} (hi : i < d.toDraft.size) :
    d.position (d.toDraft.key i) = i := by
  have hlocate := isSome_locate?_key hi
  exact h _ _ (d.size_toDraft ▸ position_lt hlocate) hi (key_position hlocate)

theorem node_position (h : d.toDraft.DistinctKeys) {r : Record} (hr : r ∈ d.records) :
    d.toDraft.node (d.position r.id) = d.toNode r := by
  obtain ⟨i, hi, rfl⟩ := List.mem_iff_getElem.mp hr
  rw [← key_toDraft hi, position_key h (d.size_toDraft ▸ hi), node_toDraft hi]

/-! ## Documents in another order -/

/-- The documents have the same roots, and the same records in some order. -/
structure Reorders (d d' : Document) : Prop where
  roots : d'.roots = d.roots
  records : d'.records.Perm d.records

/-- The defect that a document is rejected for. -/
def defect? (d : Document) : Option Defect :=
  d.dangling?.or d.toDraft.defect?

theorem build_eq_error_iff {e : Defect} : d.build = .error e ↔ d.defect? = some e := by
  rw [build_eq]
  unfold Draft.build defect?
  cases d.dangling? <;> cases d.toDraft.defect? <;> simp

theorem exists_build_iff : (∃ g, d.build = .ok g) ↔ d.defect? = none := by
  rw [build_eq]
  unfold Draft.build defect?
  cases d.dangling? <;> cases d.toDraft.defect? <;> simp

theorem kind_of_dangling? {e : Defect} (h : d.dangling? = some e) : e.kind = .danglingLink := by
  have hmissing : ∀ {owner keys}, d.missing? owner keys = some e → e.kind = .danglingLink := by
    intro owner keys hmissing
    obtain ⟨k, -, rfl⟩ := Option.map_eq_some_iff.mp hmissing
    rfl
  rcases Option.or_eq_some_iff.mp h with h | ⟨-, h⟩
  · obtain ⟨r, -, hr⟩ := List.exists_of_findSome?_eq_some h
    exact hmissing hr
  · exact hmissing h

namespace Reorders

theorem symm (h : Reorders d d') : Reorders d' d :=
  ⟨h.roots.symm, h.records.symm⟩

theorem isSome_locate? (h : Reorders d d') {k : String} (hk : (d.locate? k).isSome = true) :
    (d'.locate? k).isSome = true := by
  obtain ⟨r, hr, hid⟩ := isSome_locate?_iff.mp hk
  exact isSome_locate?_iff.mpr ⟨r, h.records.mem_iff.mpr hr, hid⟩

theorem dangling? (h : Reorders d d') (hd : d.dangling? = none) : d'.dangling? = none := by
  obtain ⟨hrecords, hroots⟩ := d.dangling?_eq_none_iff.mp hd
  refine d'.dangling?_eq_none_iff.mpr ⟨fun r hr k hk => ?_, fun k hk => ?_⟩
  · exact h.isSome_locate? (hrecords r (h.records.mem_iff.mp hr) k hk)
  · rw [h.roots] at hk
    exact h.isSome_locate? (hroots k hk)

theorem distinctKeys_iff (h : Reorders d d') :
    d'.toDraft.DistinctKeys ↔ d.toDraft.DistinctKeys := by
  rw [distinctKeys_toDraft_iff, distinctKeys_toDraft_iff]
  exact (h.records.map _).nodup_iff

/-- **Another order of the records renames the positions** of the draft, each to that of the same
key. -/
theorem renames (h : Reorders d d') (hd : d.dangling? = none) (hkeys : d.toDraft.DistinctKeys) :
    Draft.Renaming d.toDraft d'.toDraft fun i => d'.position (d.toDraft.key i) := by
  have hkeys' := h.distinctKeys_iff.mpr hkeys
  obtain ⟨hrecords, hroots⟩ := d.dangling?_eq_none_iff.mp hd
  -- Positions are compared by the keys at them, which both orders have.
  have hkey : ∀ i, i < d.toDraft.size →
      d'.toDraft.key (d'.position (d.toDraft.key i)) = d.toDraft.key i :=
    fun i hi => key_position (h.isSome_locate? (isSome_locate?_key hi))
  constructor
  · intro i k hi hk heq
    refine hkeys i k hi hk ?_
    rw [← hkey i hi, ← hkey k hk, heq]
  · intro i' hi'
    have hi := h.symm.isSome_locate? (isSome_locate?_key hi')
    refine ⟨d.position (d'.toDraft.key i'), d.size_toDraft ▸ position_lt hi, ?_⟩
    rw [key_position hi, position_key hkeys' hi']
  · exact hkey
  · intro i hi p
    have hlt : i < d.records.length := d.size_toDraft ▸ hi
    have hmem := List.getElem_mem hlt
    rw [key_toDraft hlt, node_position hkeys' (h.records.mem_iff.mpr hmem), node_toDraft hlt, target?_toNode,
      target?_toNode, Option.map_map]
    refine Option.map_congr fun k hk => ?_
    have hk := hrecords _ hmem k (Record.mem_references_of_target? hk)
    rw [Function.comp_apply, key_position hk]
  · show (d'.roots.getD []).map d'.position = ((d.roots.getD []).map d.position).map _
    rw [h.roots, List.map_map]
    refine List.map_congr_left fun k hk => ?_
    rw [Function.comp_apply, key_position (hroots k hk)]

/-- The drafts violate the same conditions; repeated keys come first. -/
theorem kind_of_toDraft (h : Reorders d d') (hd : d.dangling? = none) :
    d'.toDraft.defect?.map Defect.kind = d.toDraft.defect?.map Defect.kind := by
  have hc := closed_toDraft hd
  have hc' := closed_toDraft (h.dangling? hd)
  by_cases hkeys : d.toDraft.DistinctKeys
  · have hkeys' := h.distinctKeys_iff.mpr hkeys
    refine (Draft.found_defect? hc).kind_eq (Draft.found_defect? hc') fun kind => ?_
    exact not_iff_not.mp ⟨(h.renames hd hkeys).not_violates hc,
      (h.symm.renames (h.dangling? hd) hkeys').not_violates hc'⟩
  · have hkeys' := mt h.distinctKeys_iff.mp hkeys
    rw [Draft.kind_of_not_distinctKeys hkeys, Draft.kind_of_not_distinctKeys hkeys']

/-- **The verdict on a document does not depend on the order of its records.** -/
theorem kind_of_defect? (h : Reorders d d') :
    d'.defect?.map Defect.kind = d.defect?.map Defect.kind := by
  unfold defect?
  cases hd : d.dangling? with
  | none =>
    rw [h.dangling? hd, Option.none_or, Option.none_or]
    exact h.kind_of_toDraft hd
  | some e =>
    cases hd' : d'.dangling? with
    | none => rw [h.symm.dangling? hd'] at hd; cases hd
    | some e' =>
      simp only [Option.some_or, Option.map_some, kind_of_dangling? hd, kind_of_dangling? hd']

end Reorders

/-! ## Portraits -/

/-- The nodes of the graph of a document have the portraits of its records. -/
theorem portrait_toGraph (hd : d.dangling? = none) {i : NodeId} (hi : i < d.records.length) :
    d.toDraft.toGraph.portrait i = d.records[i].portrait := by
  obtain ⟨hrecords, -⟩ := d.dangling?_eq_none_iff.mp hd
  have hkey : ∀ k ∈ d.records[i].references, d.toDraft.toGraph.keyOf (d.position k) = k := by
    intro k hk
    rw [Graph.keyOf, Draft.node_toGraph]
    exact key_position (hrecords _ (List.getElem_mem hi) k hk)
  have hslots : ∀ {slots : Dict String}, (∀ k ∈ slots.values, k ∈ d.records[i].references) →
      (slots.map d.position).map d.toDraft.toGraph.keyOf = slots := by
    intro slots hmem
    rw [Dict.map_map]
    exact Dict.map_eq_self fun k hk => hkey k (hmem k hk)
  have hnext : (d.records[i].next.map d.position).map d.toDraft.toGraph.keyOf =
      d.records[i].next := by
    cases hk : d.records[i].next with
    | none => rfl
    | some k =>
      rw [Option.map_some, Option.map_some, hkey k (by simp [Record.references, hk])]
  rw [Graph.portrait, Draft.node_toGraph, node_toDraft hi, Record.portrait]
  simp only [toNode]
  rw [hslots fun k hk => by simp [Record.references, hk],
    hslots fun k hk => by simp [Record.references, hk], hnext]

end Document

end BlockCompiler
