import BlockCompiler.Failure
import BlockCompiler.Proofs.Generation.Alignment
import BlockCompiler.Proofs.Graph.Reordering

/-!
# Compiling documents in another order

The order of the records of a document decides the positions of the nodes, and a
compilation looks at positions in two places only: always-emitted blocks are generated in
the order of the nodes, and roots that were not given are found in that order.  If the roots
are given and the always-emitted records keep their order, then the graphs resemble
each other in all of their nodes, and the products are the same
(`Document.compile_reordered`).
-/

namespace BlockCompiler.Document

variable {d d' : Document} {g g' : Graph}

/-! ## Graphs of reordered documents -/

theorem eq_toGraph_of_build (h : d.build = .ok g) : d.dangling? = none ∧ g = d.toDraft.toGraph := by
  obtain ⟨hdangling, hdraft⟩ := dangling?_of_build h
  exact ⟨hdangling, Draft.eq_toGraph_of_build hdraft⟩

/-- The portraits in a graph are those of the records. -/
theorem exists_portrait_iff (h : d.build = .ok g) {n : Portrait} :
    (∃ i < g.size, g.portrait i = n) ↔ ∃ r ∈ d.records, r.portrait = n := by
  obtain ⟨hdangling, rfl⟩ := eq_toGraph_of_build h
  rw [Draft.size_toGraph, size_toDraft]
  constructor
  · rintro ⟨i, hi, rfl⟩
    exact ⟨d.records[i], List.getElem_mem hi, (portrait_toGraph hdangling hi).symm⟩
  · rintro ⟨r, hr, rfl⟩
    obtain ⟨i, hi, rfl⟩ := List.mem_iff_getElem.mp hr
    exact ⟨i, hi, portrait_toGraph hdangling hi⟩

/-- Roots that were given are the roots of the graph. -/
theorem map_keyOf_roots (h : d.build = .ok g) (hroots : d.roots.getD [] ≠ []) :
    g.roots.map g.keyOf = d.roots.getD [] := by
  obtain ⟨hdangling, rfl⟩ := eq_toGraph_of_build h
  have hmarked : d.toDraft.roots ≠ [] := by simpa [toDraft] using hroots
  have hlist : d.toDraft.toGraph.roots = (d.roots.getD []).map d.position :=
    Draft.rootList_of_ne_nil hmarked
  rw [hlist, List.map_map]
  refine (List.map_congr_left fun k hk => ?_).trans (List.map_id _)
  rw [Function.comp_apply, Graph.keyOf, Draft.node_toGraph]
  exact key_position ((d.dangling?_eq_none_iff.mp hdangling).2 k hk)

/-- The always-emitted blocks are those of the records of such types. -/
theorem aside_eq (h : d.build = .ok g) (b : Backend) :
    b.aside g = (d.records.filter fun r => b.alwaysEmitted.contains r.type).map fun r =>
      (r.type, r.fields.map Json.fieldText) := by
  obtain ⟨-, rfl⟩ := eq_toGraph_of_build h
  have hids : d.toDraft.toGraph.ids = d.toDraft.ids := by
    rw [Graph.ids, Draft.ids, Draft.size_toGraph]
  have hnodes : b.aside d.toDraft.toGraph =
      ((d.toDraft.ids.map d.toDraft.node).filter fun n => b.alwaysEmitted.contains n.type).map
        fun n => (n.type, n.fields) := by
    rw [Backend.aside, Job.alwaysEmitted, hids, List.filter_map, List.map_map]
    simp only [Job.node, Draft.node_toGraph]
    rfl
  rw [hnodes, map_node_ids, List.filter_map, List.map_map]
  rfl

/-- The graphs resemble each other in all of their nodes. -/
theorem Reorders.resemble (hd : Reorders d d') (h : d.build = .ok g) (h' : d'.build = .ok g')
    (hroots : d.roots.getD [] ≠ []) {b : Backend}
    (haside : d'.records.filter (fun r => b.alwaysEmitted.contains r.type) =
      d.records.filter fun r => b.alwaysEmitted.contains r.type) :
    b.Resemble g g' (fun _ => True) fun _ => True := by
  have hshare : Graph.SharePortraits g g' (fun _ => True) fun _ => True := by
    refine ⟨fun _ _ _ => Iff.rfl, fun _ _ _ => Iff.rfl, fun n => ?_⟩
    simp only [true_and]
    rw [exists_portrait_iff h, exists_portrait_iff h']
    exact exists_congr fun r => and_congr_left fun _ => hd.records.mem_iff.symm
  refine ⟨hshare, ?_, fun i hi i' hi' hkey => ?_, fun _ _ _ => trivial, ?_⟩
  · rw [map_keyOf_roots h hroots, map_keyOf_roots h' (hd.roots ▸ hroots), hd.roots]
  · have hlt := Job.lt_size_of_mem_walk (j := ⟨g, b⟩) (built h).isForest hi
    exact (hshare.paired_of_key (built h').isForest hlt trivial hi' hkey).header_eq
  · rw [aside_eq h, aside_eq h', haside]

theorem compile_of_build {name : String} {t : Target} (ht : Target.parse? name = some t)
    (h : d.build = .ok g) (options : Options) :
    ∃ log, d.compile name options = .ok (Job.compile ⟨g, t.backend⟩ options, log) := by
  simp only [compile, job, ht, h]
  exact ⟨_, rfl⟩

/-! ## The order of records -/

/-- **The order of records does not matter.**  Whether a document has a graph, and the kind of
the defect if it has none, are the same for all orders of its records.  If roots are given, then
so is the product of a compilation, as long as the always-emitted records keep their order. -/
theorem compile_reordered (d : Document) {records : List Record} (hperm : records.Perm d.records) :
    ((∃ g, Document.build { d with records := records } = .ok g) ↔ ∃ g, d.build = .ok g) ∧
      (∀ kind, (∃ e, Document.build { d with records := records } = .error e ∧ e.kind = kind) ↔
        ∃ e, d.build = .error e ∧ e.kind = kind) ∧
      (d.roots.getD [] ≠ [] → ∀ t : Target,
        records.filter (fun r => t.backend.alwaysEmitted.contains r.type) =
          d.records.filter (fun r => t.backend.alwaysEmitted.contains r.type) →
        ∀ name options, Target.parse? name = some t → (∃ g, d.build = .ok g) →
          ∃ product log log', d.compile name options = .ok (product, log) ∧
            Document.compile { d with records := records } name options = .ok (product, log')) := by
  have hd : Reorders d { d with records := records } := ⟨rfl, hperm⟩
  have hkind := hd.kind_of_defect?
  have hbuild : (∃ g, Document.build { d with records := records } = .ok g) ↔
      ∃ g, d.build = .ok g := by
    rw [exists_build_iff, exists_build_iff, ← Option.map_eq_none_iff (f := Defect.kind), hkind,
      Option.map_eq_none_iff]
  refine ⟨hbuild, fun kind => ?_, ?_⟩
  · simp only [build_eq_error_iff, ← Option.map_eq_some_iff, hkind]
  · intro hroots t haside name options ht hok
    obtain ⟨g, h⟩ := hok
    obtain ⟨g', h'⟩ := hbuild.mpr ⟨g, h⟩
    -- With the roots given, only the pass depends on the order of records.
    have haligned := (hd.resemble h h' hroots haside).aligned (built h) (built h')
    obtain ⟨-, -, -, -, -, -, -, hcompile⟩ := haligned.compile_eq options
    obtain ⟨log, hlog⟩ := compile_of_build ht h options
    obtain ⟨log', hlog'⟩ := compile_of_build ht h' options
    have hsame : Job.compile ⟨g', t.backend⟩ options = Job.compile ⟨g, t.backend⟩ options :=
      hcompile
    rw [hsame] at hlog'
    exact ⟨_, log, log', hlog, hlog'⟩

/-- An entry point with a serial setup and a print of a number, from the top down. -/
def printDocument : Document where
  roots := some ["entry"]
  records :=
    [{ id := "entry", type := "arduino_entry",
       statements := Dict.ofList [("LOOP", "print"), ("SETUP", "serial")] },
     { id := "serial", type := "serial_setup" },
     { id := "print", type := "serial_print", values := Dict.ofList [("VALUE", "number")] },
     { id := "number", type := "math_number" }]

/-- From the bottom up the product is the same, though every node stands elsewhere. -/
theorem compile_reordered_print :
    ∃ product log log', printDocument.compile "arduino" {} = .ok (product, log) ∧
      Document.compile { printDocument with records := printDocument.records.reverse } "arduino" {} =
        .ok (product, log') :=
  (compile_reordered printDocument (List.reverse_perm _)).2.2 (by decide) .arduino rfl _ {}
    (by decide +kernel) ⟨_, rfl⟩

end BlockCompiler.Document
