import BlockCompiler.Proofs.Generation.Course
import BlockCompiler.Proofs.Generation.Sections

/-!
# Orphans at top level

A compilation reports the blocks at top level that it does not generate.  Which ones
these are, and in which order they are reported, can be read off the graph
(`Backend.orphans`): the walk goes along the roots that begin no program, then along
those that do, and down the sequence below each of them.

The reports are counted along the course of the compilation.  The scripts of blocks
report nothing of the kind, so the reports are those of the walk itself
(`orphanReports_sections`); the walk passes no block twice and keys differ, so none of
them finds its block reported before.
-/

namespace BlockCompiler

/-- The blocks at top level that a backend does not generate, in the order of the walk. -/
def Backend.orphans (b : Backend) (g : Graph) : List NodeId :=
  let later := g.roots.filter fun r => b.entryPoints.contains (g.node r).type
  let first := g.roots.filter fun r => !b.entryPoints.contains (g.node r).type
  ((first ++ later).flatMap g.chain).filter fun i =>
    !b.containers.contains (g.node i).type && !b.alwaysEmitted.contains (g.node i).type

namespace Job

variable {j : Job} {options : Options}

theorem orphans_eq (j : Job) :
    j.backend.orphans j.graph = j.walk.filter fun i => !j.isPlaced (j.node i).type := by
  simp only [Backend.orphans, isPlaced, Bool.not_or]
  rfl

/-- The diagnostic of an orphan at top level. -/
def orphanReport (j : Job) (i : NodeId) : Diagnostic :=
  .orphanedTopLevel (j.node i).key (j.node i).type j.backend.containers.describe

/-- The request reports no orphan at top level. -/
def ReportsElse (r : Request) : Prop :=
  ∀ d, r = .report d → d.reason ≠ .orphanedTopLevel

theorem reportsElse_of_isPlain {r : Request} (h : r.IsPlain) : ReportsElse r := by
  rintro d rfl
  exact h.elim

/-- The script of a block reports no orphan at top level. -/
theorem asks_reportsElse (j : Job) (i : NodeId) :
    (j.blockScript i).Asks ReportsElse ReportsElse false := by
  refine (j.asks_blockScript i).mono ?_ ?_ id
  · intro r hr
    rcases hr with ⟨g, -, hr⟩ | ⟨-, hplain | rfl⟩
    · rintro d rfl
      obtain ⟨-, -, rfl⟩ := hr
      exact Reason.noConfusion
    · exact reportsElse_of_isPlain hplain
    · rintro d hd
      cases hd
      exact Reason.noConfusion
  · rintro r hr d rfl
    exact hr.elim

/-! ## Reports along the course -/

/-- The reports of orphans at top level. -/
def orphanReports (steps : List Step) : List Diagnostic :=
  (Step.reports steps).filter (·.reason == .orphanedTopLevel)

theorem orphanReports_append (steps steps' : List Step) :
    orphanReports (steps ++ steps') = orphanReports steps ++ orphanReports steps' := by
  simp [orphanReports]

theorem orphanReports_eq_nil {steps : List Step} (h : ∀ step ∈ steps, ReportsElse step.request) :
    orphanReports steps = [] := by
  refine List.filter_eq_nil_iff.mpr fun d hd => ?_
  obtain ⟨step, hstep, hreport⟩ := List.mem_filterMap.mp hd
  have hrequest : step.request = .report d := by
    cases hr : step.request <;> simp_all [Step.report?]
  simpa using h step hstep d hrequest

/-- One block of the walk is reported if it is an orphan, whatever happens inside of it. -/
theorem orphanReports_topLevel {i : NodeId} {s s' : Run} {steps : List Step} {text : String}
    (h : j.Course (j.topLevel options i) s steps text s') :
    orphanReports steps =
      ([i].filter fun i => !j.isPlaced (j.node i).type).map j.orphanReport := by
  unfold topLevel at h
  cases hplaced : j.isPlaced (j.node i).type with
  | true =>
    simp only [hplaced, if_true] at h
    -- The notice comes first, then the code of the block, inside of which no orphan is reported.
    cases h with
    | plain _ hrest =>
      cases hrest with
      | plain hanswer => cases hanswer
      | block hinside hrest =>
        cases hrest
        have hnone := hinside.forall_request j.asks_reportsElse (j.asks_reportsElse i)
        simpa [hplaced, orphanReports, Step.reports_cons, Step.report?]
          using orphanReports_eq_nil hnone
  | false =>
    simp only [hplaced, Bool.false_eq_true, if_false] at h
    cases h with
    | plain _ hrest =>
      cases hrest with
      | plain _ hrest =>
        cases hrest
        simp [hplaced, orphanReports, Step.reports_cons, Step.report?, orphanReport,
          Diagnostic.orphanedTopLevel, Diagnostic.ofReason]

/-- The reports of a walk are those of its orphans, block by block. -/
theorem orphanReports_mapM {γ β : Type} {f : γ → Script β} {p : γ → List NodeId}
    (hf : ∀ x s steps y s', j.Course (f x) s steps y s' → orphanReports steps =
      ((p x).filter fun i => !j.isPlaced (j.node i).type).map j.orphanReport)
    {xs : List γ} {s s' : Run} {ys : List β} {steps : List Step}
    (h : j.Course (xs.mapM f) s steps ys s') :
    orphanReports steps =
      ((xs.flatMap p).filter fun i => !j.isPlaced (j.node i).type).map j.orphanReport := by
  refine h.mapM_induction (motive := fun xs steps => orphanReports steps =
    ((xs.flatMap p).filter fun i => !j.isPlaced (j.node i).type).map j.orphanReport) rfl ?_
  rintro x rest first second ⟨s, y, s', hfirst⟩ hsecond
  rw [orphanReports_append, hf x s first y s' hfirst, hsecond, List.flatMap_cons,
    List.filter_append, List.map_append]

theorem orphanReports_stack {root : NodeId} {s s' : Run} {steps : List Step} {text : String}
    (h : j.Course (j.stack options root) s steps text s') :
    orphanReports steps =
      ((j.graph.chain root).filter fun i => !j.isPlaced (j.node i).type).map j.orphanReport := by
  obtain ⟨parts, hwalk, -⟩ := h.of_result
  rw [← List.flatMap_singleton' (j.graph.chain root)]
  exact orphanReports_mapM (p := fun i => [i]) (fun _ _ _ _ _ => orphanReports_topLevel) hwalk

theorem orphanReports_sections {s s' : Run} {steps : List Step} {texts : List (NodeId × String)}
    (h : j.Course (j.sections options) s steps texts s') :
    orphanReports steps = (j.backend.orphans j.graph).map j.orphanReport := by
  rw [orphans_eq]
  refine orphanReports_mapM (p := j.graph.chain) (fun root s steps text s' hroot => ?_) h
  obtain ⟨content, hstack, -⟩ := hroot.of_result
  exact orphanReports_stack hstack

theorem nodup_orphans (h : j.graph.IsForest) : (j.backend.orphans j.graph).Nodup := by
  rw [orphans_eq]
  exact (nodup_walk h).filter _

theorem lt_size_of_mem_orphans (h : j.graph.IsForest) {i : NodeId}
    (hi : i ∈ j.backend.orphans j.graph) : i < j.graph.size := by
  rw [orphans_eq] at hi
  exact lt_size_of_mem_walk h (List.mem_filter.mp hi).1

theorem nodup_map_key (h : j.graph.IsForest) {ids : List NodeId} (hids : ids.Nodup)
    (hlt : ∀ i ∈ ids, i < j.graph.size) : (ids.map fun i => (j.node i).key).Nodup :=
  hids.map_on fun a ha b hb hkey => h.keys a b (hlt a ha) (hlt b hb) hkey

/-- A key occurs among those of a list of nodes as often as its node in the list. -/
theorem count_map_key (h : j.graph.IsForest) {ids : List NodeId} (hids : ids.Nodup)
    (hlt : ∀ i ∈ ids, i < j.graph.size) {i : NodeId} (hi : i < j.graph.size) :
    (ids.map fun i => (j.node i).key).count (j.node i).key = if i ∈ ids then 1 else 0 := by
  rw [(nodup_map_key h hids hlt).count]
  refine if_congr ?_ rfl rfl
  constructor
  · intro hmem
    obtain ⟨k, hk, hkey⟩ := List.mem_map.mp hmem
    rwa [← h.keys k i (hlt k hk) hi hkey]
  · exact fun hmem => List.mem_map.mpr ⟨i, hmem, rfl⟩

/-- The reports of orphans that are left in the end, and the run at each of them. -/
theorem orphans_of_play? (h : j.graph.IsForest) {texts : List (NodeId × String)} {s : Run}
    (hplay : j.play? (j.sections options) {} = some (texts, s)) :
    s.diagnostics.withReason .orphanedTopLevel = (j.backend.orphans j.graph).map j.orphanReport ∧
      ∀ step ∈ j.compilationSteps options, ∀ d, step.request = .report d →
        d.reason = .orphanedTopLevel → step.run.diagnostics.reports d = false := by
  have hcourse : j.Course _ _ (j.compilationSteps options) _ _ := course_of_play? hplay
  have hreports := orphanReports_sections hcourse
  have hdistinct : ((orphanReports (j.compilationSteps options)).map (·.node)).Nodup := by
    rw [hreports, List.map_map]
    exact nodup_map_key h (nodup_orphans h) fun _ => lt_size_of_mem_orphans h
  rw [← hreports]
  exact hcourse.reports_fresh hdistinct

theorem withReason_compile {texts : List (NodeId × String)} {s : Run}
    (hplay : j.play? (j.sections options) {} = some (texts, s)) (reason : Reason) :
    (j.compile options).withReason reason = s.diagnostics.withReason reason := by
  rw [compile, compileRun_of_play? hplay]
  rfl

end Job

namespace Graph

/-- **Which orphans are reported.**  With any backend a compilation runs to its end and reports the
orphans of the walk in the order of the walk; each is reported exactly once and no other node is.
Whenever one is reported, the diagnostics do not have it yet, so that no report is dropped. -/
theorem Built.reported_orphans {g : Graph} (h : g.Built) (b : Backend) (options : Options) :
    (∃ sections s, Job.play? ⟨g, b⟩ (Job.sections ⟨g, b⟩ options) {} = some (sections, s)) ∧
    (Job.compile ⟨g, b⟩ options).withReason .orphanedTopLevel =
      (b.orphans g).map (fun i =>
        .orphanedTopLevel (g.node i).key (g.node i).type b.containers.describe) ∧
    (∀ i < g.size, (((Job.compile ⟨g, b⟩ options).withReason .orphanedTopLevel).map
      (·.node)).count (g.node i).key = if i ∈ b.orphans g then 1 else 0) ∧
    ∀ step ∈ Job.compilationSteps ⟨g, b⟩ options, ∀ d,
      step.request = .report d → d.reason = .orphanedTopLevel →
        step.run.diagnostics.reports d = false := by
  obtain ⟨sections, s, hplay⟩ :=
    Job.exists_play? (j := ⟨g, b⟩) h.isForest (Job.sections ⟨g, b⟩ options) {}
  obtain ⟨hreported, hfresh⟩ := Job.orphans_of_play? (j := ⟨g, b⟩) h.isForest hplay
  have hcompile := (Job.withReason_compile hplay .orphanedTopLevel).trans hreported
  refine ⟨⟨sections, s, hplay⟩, hcompile, ?_, hfresh⟩
  intro i hi
  rw [hcompile, List.map_map]
  exact Job.count_map_key (j := ⟨g, b⟩) h.isForest (Job.nodup_orphans (j := ⟨g, b⟩) h.isForest)
    (fun _ => Job.lt_size_of_mem_orphans (j := ⟨g, b⟩) h.isForest) hi

/-- An entry point with an expression chained after it, then a print that stands at top level with
a delay chained after it. -/
def strayDraft : Draft :=
  [.node "entry" "arduino_entry", .node "tail" "math_number", .node "print" "serial_print",
    .node "wait" "time_delay", .setNext 0 1, .setNext 2 3].foldl
      (fun d e => Draft.Edit.apply e d) {}

theorem strayDraft_reachable : strayDraft.Reachable :=
  Draft.reachable_of_edits rfl

theorem strayDraft_built : strayDraft.toGraph.Built :=
  strayDraft_reachable.built rfl

/-- The sequence of the entry point comes last, though its root is the first. -/
theorem Built.reported_orphans_stray :
    strayDraft.toGraph.Built ∧ Target.arduino.backend.orphans strayDraft.toGraph = [2, 3, 1] ∧
      ((Job.compile ⟨strayDraft.toGraph, Target.arduino.backend⟩ {}).withReason
        .orphanedTopLevel).map (·.node) = ["print", "wait", "tail"] := by
  obtain ⟨-, hreported, -, -⟩ := Built.reported_orphans strayDraft_built Target.arduino.backend {}
  refine ⟨strayDraft_built, by decide, ?_⟩
  rw [hreported]
  decide

end Graph

end BlockCompiler
