import BlockCompiler.Proofs.Graph.Resolution

/-!
# The roots of a document

A document may list the keys of its roots.  If the list is not empty, these are the roots
of the graph, and references must lead from them to every record; how far they lead can be
said in terms of keys alone (`Document.Reaches`).  If there is no list, the roots are the
records that no record refers to.

An empty list is treated like none: whether roots are given is decided by the draft, which
does not know the one from the other.
-/

namespace BlockCompiler

open Relation

namespace Document

variable {d : Document} {keys : List String}

/-- A record with the first key refers to the second. -/
def RefersTo (d : Document) (k k' : String) : Prop :=
  ∃ r ∈ d.records, r.id = k ∧ r.Refers k'

/-- References lead from one of the keys to `k`. -/
def Reaches (d : Document) (keys : List String) (k : String) : Prop :=
  ∃ root ∈ keys, ReflTransGen d.RefersTo root k

/-- The keys of the records that no record refers to, in the order of the records. -/
def unreferenced (d : Document) : List String :=
  (d.records.map (·.id)).filter fun k => !d.records.any fun r => r.references.contains k

/-- Nothing is wrong that is looked for before the reach of the roots. -/
def InOrder (d : Document) : Prop :=
  d.dangling? = none ∧
    ∀ kind ∈ [.duplicateNode, .multipleOwners, .cycle], ¬ d.toDraft.Violates kind

/-! ## References and links -/

section Resolved

variable (hd : d.dangling? = none) (hkeys : d.toDraft.DistinctKeys)

include hd hkeys

theorem refers_iff_leads {a i : NodeId} (ha : a < d.records.length) (hi : i < d.toDraft.size) :
    d.records[a].Refers (d.toDraft.key i) ↔ Leads d.toDraft.node a i := by
  constructor
  · rintro ⟨p, hp⟩
    refine ⟨p, ?_⟩
    rw [node_toDraft ha, target?_toNode, hp, Option.map_some, position_key hkeys hi]
  · rintro ⟨p, hp⟩
    rw [node_toDraft ha, target?_toNode] at hp
    obtain ⟨k, hk, rfl⟩ := Option.map_eq_some_iff.mp hp
    have hlocate := (d.dangling?_eq_none_iff.mp hd).1 _ (List.getElem_mem ha) k
      (Record.mem_references_of_target? hk)
    exact ⟨p, by rw [hk, key_position hlocate]⟩

theorem refersTo_of_leads {a b : NodeId} (h : Leads d.toDraft.node a b) :
    d.RefersTo (d.toDraft.key a) (d.toDraft.key b) := by
  have ha : a < d.records.length := d.size_toDraft ▸ d.toDraft.lt_size_of_leads h
  have hb : b < d.toDraft.size := h.elim fun p hp => (closed_toDraft hd).target_lt a p b hp
  exact ⟨_, List.getElem_mem ha, (key_toDraft ha).symm, (refers_iff_leads hd hkeys ha hb).mpr h⟩

theorem leads_of_refersTo {k k' : String} (h : d.RefersTo k k') :
    Leads d.toDraft.node (d.position k) (d.position k') := by
  obtain ⟨r, hr, rfl, href⟩ := h
  have hlocate := (d.dangling?_eq_none_iff.mp hd).1 r hr k' (Record.mem_references_iff.mpr href)
  obtain ⟨a, ha, rfl⟩ := List.mem_iff_getElem.mp hr
  rw [← key_position hlocate,
    refers_iff_leads hd hkeys ha (d.size_toDraft ▸ position_lt hlocate)] at href
  rwa [← key_toDraft ha, position_key hkeys (d.size_toDraft ▸ ha)]

/-- What the roots reach is the same in terms of keys and of positions. -/
theorem rooted_iff (hroots : d.roots = some keys) :
    d.toDraft.Rooted ↔ ∀ r ∈ d.records, d.Reaches keys r.id := by
  have hmarked : d.toDraft.roots = keys.map d.position := by rw [toDraft, hroots]; rfl
  have hlocate : ∀ k ∈ keys, (d.locate? k).isSome = true := by
    have hlocate := (d.dangling?_eq_none_iff.mp hd).2
    rwa [hroots] at hlocate
  constructor
  · intro h r hr
    obtain ⟨i, hi, rfl⟩ := List.mem_iff_getElem.mp hr
    obtain ⟨m, hm, hreach⟩ := h i (d.size_toDraft ▸ hi)
    rw [hmarked] at hm
    obtain ⟨k, hk, rfl⟩ := List.mem_map.mp hm
    have hway : ReflTransGen d.RefersTo (d.toDraft.key (d.position k)) (d.toDraft.key i) :=
      hreach.lift d.toDraft.key fun a b => refersTo_of_leads hd hkeys
    rw [key_position (hlocate k hk), key_toDraft hi] at hway
    exact ⟨k, hk, hway⟩
  · intro h i hi
    have hlt : i < d.records.length := d.size_toDraft ▸ hi
    obtain ⟨k, hk, hreach⟩ := h _ (List.getElem_mem hlt)
    have hway : ReflTransGen (Leads d.toDraft.node) (d.position k) (d.position d.records[i].id) :=
      hreach.lift d.position fun a b => leads_of_refersTo hd hkeys
    rw [← key_toDraft hlt, position_key hkeys hi] at hway
    exact ⟨d.position k, hmarked ▸ List.mem_map_of_mem hk, hway⟩

/-- The nodes without an owner are the records that no record refers to. -/
theorem map_key_ownerless :
    (d.toDraft.ids.filter fun i => (Draft.ownerIn d.toDraft.owners i).isNone).map d.toDraft.key =
      d.unreferenced := by
  rw [unreferenced, ← map_key_ids, List.filter_map]
  congr 1
  refine List.filter_congr fun i hi => ?_
  have hi : i < d.toDraft.size := List.mem_range.mp hi
  rw [Bool.eq_iff_iff, Option.isNone_iff_eq_none, d.toDraft.ownerIn_owners_eq_none_iff hi,
    Function.comp_apply, Bool.not_eq_true', ← Bool.not_eq_true, List.any_eq_true, not_exists]
  refine ⟨fun h r => ?_, fun h a ha => ?_⟩
  · rintro ⟨hr, href⟩
    obtain ⟨a, ha, rfl⟩ := List.mem_iff_getElem.mp hr
    have href := Record.mem_references_iff.mp (List.contains_iff_mem.mp href)
    exact h a ((refers_iff_leads hd hkeys ha hi).mp href)
  · have hlt : a < d.records.length := d.size_toDraft ▸ d.toDraft.lt_size_of_leads ha
    have href := Record.mem_references_iff.mpr ((refers_iff_leads hd hkeys hlt hi).mpr ha)
    exact h _ ⟨List.getElem_mem hlt, List.contains_iff_mem.mpr href⟩

end Resolved

/-! ## Roots -/

theorem keyOf_toGraph (d : Document) : d.toDraft.toGraph.keyOf = d.toDraft.key := by
  funext i
  rw [Graph.keyOf, Draft.node_toGraph, Draft.key]

/-- Roots that are listed are kept as they are. -/
theorem map_key_roots (hd : d.dangling? = none) (hroots : d.roots = some keys) :
    d.toDraft.roots.map d.toDraft.key = keys := by
  have hlocate := (d.dangling?_eq_none_iff.mp hd).2
  rw [hroots] at hlocate
  have hmarked : d.toDraft.roots = keys.map d.position := by rw [toDraft, hroots]; rfl
  rw [hmarked, List.map_map]
  refine (List.map_congr_left fun k hk => ?_).trans (List.map_id keys)
  exact key_position (hlocate k hk)

/-- Detached nodes are reported of a document that is in order otherwise. -/
theorem detached_iff (hne : d.toDraft.roots ≠ []) :
    (∃ e, d.build = .error e ∧ e.kind = .detached) ↔ d.InOrder ∧ ¬ d.toDraft.Rooted := by
  constructor
  · rintro ⟨e, hbuild, hkind⟩
    have hd : d.dangling? = none := by
      by_contra hsome
      obtain ⟨e', he'⟩ := Option.ne_none_iff_exists'.mp hsome
      obtain ⟨hbuild', hkind'⟩ := dangling?_eq_some_iff.mp he'
      obtain rfl := Except.error.inj (hbuild.symm.trans hbuild')
      rw [hkind] at hkind'
      cases hkind'
    rw [build_of_dangling? hd] at hbuild
    -- Detached nodes are looked for last, so nothing else can be wrong.
    have hfirst := Draft.build_error_kind (closed_toDraft hd) hbuild
    rw [hkind] at hfirst
    simp only [Draft.checkOrder, Draft.FirstViolated, reduceCtorEq, and_false, false_or, and_true,
      or_false] at hfirst
    obtain ⟨hdup, howners, hcycle, hdetached⟩ := hfirst
    refine ⟨⟨hd, ?_⟩, fun hrooted => hdetached fun _ => hrooted⟩
    simp only [List.forall_mem_cons]
    exact ⟨hdup, howners, hcycle, fun _ h => absurd h List.not_mem_nil⟩
  · rintro ⟨⟨hd, hnone⟩, hrooted⟩
    simp only [List.forall_mem_cons] at hnone
    obtain ⟨hdup, howners, hcycle, -⟩ := hnone
    have hdetached : d.toDraft.Violates .detached := fun h => hrooted (h hne)
    have hfirst : d.toDraft.FirstViolated Draft.checkOrder .detached :=
      Or.inr ⟨hdup, Or.inr ⟨howners, Or.inr ⟨hcycle, Or.inl ⟨hdetached, rfl⟩⟩⟩⟩
    have hc := closed_toDraft hd
    rw [build_of_dangling? hd]
    cases hb : d.toDraft.build with
    | ok g =>
      obtain ⟨hmem, hv⟩ := hfirst.violates
      exact absurd hv (Draft.build_ok_conditions hc hb _ hmem)
    | error e => exact ⟨e, rfl, (Draft.build_error_kind hc hb).unique hfirst⟩

/-- What a document that is built has passed. -/
theorem conditions_of_build {g : Graph} (hg : d.build = .ok g) :
    d.dangling? = none ∧ d.toDraft.DistinctKeys ∧
      (d.toDraft.roots ≠ [] → d.toDraft.Rooted) ∧ g = d.toDraft.toGraph := by
  obtain ⟨hd, hdraft⟩ := dangling?_of_build hg
  have hnone := Draft.build_ok_conditions (closed_toDraft hd) hdraft
  obtain ⟨hkeys, -, -, -, hrooted⟩ := Draft.violates_none_iff.mp hnone
  exact ⟨hd, hkeys, hrooted, Draft.eq_toGraph_of_build hdraft⟩

/-- **The roots of a graph.**  If a document lists roots, at least one, these are the roots of its
graph, in the same order, and every node is reached from them.  If references do not lead from them
to every record, there is no graph, and the nodes that are not reached are what is reported unless
something else is wrong.  If it lists none, the roots of its graph are the records that no record
refers to. -/
theorem build_respects_roots (d : Document) :
    (∀ keys, d.roots = some keys → keys ≠ [] →
      (∀ g, d.build = .ok g → g.roots.map g.keyOf = keys ∧
        ∀ i < g.size, ∃ r ∈ g.roots, ReflTransGen (Leads g.node) r i) ∧
      ((∃ r ∈ d.records, ¬ d.Reaches keys r.id) → ∃ e, d.build = .error e) ∧
      ((∃ e, d.build = .error e ∧ e.kind = .detached) ↔
        d.InOrder ∧ ∃ r ∈ d.records, ¬ d.Reaches keys r.id)) ∧
    (d.roots.getD [] = [] → ∀ g, d.build = .ok g → g.roots.map g.keyOf = d.unreferenced) := by
  refine ⟨fun keys hroots hne => ?_, fun hnil g hg => ?_⟩
  · have hmarked : d.toDraft.roots ≠ [] := by simpa [toDraft, hroots] using hne
    refine ⟨fun g hg => ?_, ?_, ?_⟩
    · obtain ⟨hd, -, hrooted, rfl⟩ := conditions_of_build hg
      have hlist : d.toDraft.toGraph.roots = d.toDraft.roots := Draft.rootList_of_ne_nil hmarked
      rw [hlist, keyOf_toGraph, Draft.leads_toGraph, Draft.size_toGraph]
      exact ⟨map_key_roots hd hroots, hrooted hmarked⟩
    · rintro ⟨r, hr, hreach⟩
      cases hb : d.build with
      | error e => exact ⟨e, rfl⟩
      | ok g =>
        obtain ⟨hd, hkeys, hrooted, -⟩ := conditions_of_build hb
        exact absurd ((rooted_iff hd hkeys hroots).mp (hrooted hmarked) r hr) hreach
    · rw [detached_iff hmarked]
      refine and_congr_right fun hin => ?_
      have hkeys : d.toDraft.DistinctKeys := not_not.mp (hin.2 _ List.mem_cons_self)
      rw [rooted_iff hin.1 hkeys hroots]
      simp only [not_forall, exists_prop]
  · obtain ⟨hd, hkeys, -, rfl⟩ := conditions_of_build hg
    have hmarked : d.toDraft.roots = [] := by rw [toDraft, hnil]; rfl
    have hlist : d.toDraft.toGraph.roots = _ := Draft.rootList_of_eq_nil hmarked
    rw [hlist, keyOf_toGraph, map_key_ownerless hd hkeys]

/-- Two entry points, the second of which is the first root. -/
def swappedRoots : Document where
  roots := some ["b", "a"]
  records := [
    { id := "a", type := "arduino_entry" },
    { id := "b", type := "arduino_entry", statements := Dict.ofList [("LOOP", "c")] },
    { id := "c", type := "time_delay" }]

/-- The same, but the first entry point is not listed. -/
def missedRoot : Document :=
  { swappedRoots with roots := some ["b"] }

theorem build_respects_roots_swapped :
    swappedRoots.build = .ok swappedRoots.toDraft.toGraph ∧
      swappedRoots.toDraft.toGraph.roots.map swappedRoots.toDraft.toGraph.keyOf = ["b", "a"] ∧
      missedRoot.build = .error (.detached "a") ∧
      ∃ r ∈ missedRoot.records, ¬ missedRoot.Reaches ["b"] r.id := by
  obtain ⟨hswapped, -⟩ := (build_respects_roots swappedRoots).1 _ rfl (List.cons_ne_nil _ _)
  obtain ⟨-, -, hmissed⟩ := (build_respects_roots missedRoot).1 _ rfl (List.cons_ne_nil _ _)
  exact ⟨rfl, (hswapped _ rfl).1, rfl, (hmissed.mp ⟨_, rfl, rfl⟩).2⟩

/-- A document with an entry point and an empty list of roots. -/
def emptyRoots : Document where
  roots := some []
  records := [{ id := "a", type := "arduino_entry" }]

/-- The entry point is not reached from the listed roots, of which there are none; yet it becomes a
root. -/
theorem build_finds_roots :
    (∃ r ∈ emptyRoots.records, ¬ emptyRoots.Reaches [] r.id) ∧
      ∃ g, emptyRoots.build = .ok g ∧ g.roots.map g.keyOf = ["a"] := by
  refine ⟨⟨_, List.mem_singleton_self _, ?_⟩, emptyRoots.toDraft.toGraph, rfl, rfl⟩
  rintro ⟨root, hroot, -⟩
  cases hroot

end Document

end BlockCompiler
