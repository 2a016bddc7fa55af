import BlockCompiler.Proofs.Generation.Comments
import BlockCompiler.Proofs.Generation.Orphans

/-!
# Previews of orphans

A compilation judges all blocks at top level alike: an orphan is reported, and its code is
not made.  A preview asks first whether the block is a root.  A root is judged as in a
compilation, along with the sequence below it.  Any other block turns into its own code, also
where it follows a root and a compilation would report it (`chained_orphan_previewed`).  So
previews and compilations agree on orphans exactly for roots (`Job.preview_of_orphan`).
-/

namespace BlockCompiler

namespace Graph.IsForest

variable {g : Graph}

theorem chain_eq_cons (h : g.IsForest) {head : NodeId} (hhead : head < g.size) :
    g.chain head = head :: (g.chain head).tail := by
  rw [chain, h.chainFrom_eq_cons hhead (Nat.le_refl _)]
  rfl

/-- A root does not follow another one. -/
theorem root_of_mem_chain (h : g.IsForest) {r i : NodeId} (hr : r ∈ g.roots)
    (hi : i ∈ g.chain r) : i ∈ g.roots ↔ i = r := by
  constructor
  · intro hroot
    exact h.root_unique hroot hr .refl (reflTransGen_of_mem_chain hi)
  · rintro rfl
    exact hr

end Graph.IsForest

namespace Job

variable {j : Job} {options : Options} {r i : NodeId}

section Orphan

variable (h : j.graph.IsForest) (hr : r ∈ j.graph.roots) (hi : i ∈ j.graph.chain r)
  (hplaced : j.isPlaced (j.node i).type = false)

include h hr hi hplaced

/-- No block asks for an orphan. -/
theorem asks_blockScript_besides_orphan (k : NodeId) :
    (j.blockScript k).Asks (· ≠ .generate i) (· ≠ .generate i) false := by
  refine (j.asks_blockScript k).mono ?_ ?_ id
  · rintro _ hrequest rfl
    exact h.not_contains_of_root hr (Graph.reflTransGen_of_mem_chain hi)
      (contains_of_permits hrequest)
  · rintro _ hrequest rfl
    rw [isPlaced, (List.mem_filter.mp hrequest).2, Bool.or_true] at hplaced
    cases hplaced

/-- Where only placed blocks are asked for at top level, an orphan is not generated at all. -/
theorem not_mem_blocks_of_orphan {α : Type} {script : Script α} {s s' : Run} {a : α}
    {steps : List Step} (hscript : ∀ Q : Request → Prop, script.Asks j.AtTop Q false)
    (hcourse : j.Course script s steps a s') : i ∉ Step.blocks steps := by
  intro hmem
  obtain ⟨step, hstep, hrequest⟩ := Step.mem_blocks.mp hmem
  have hasks : script.Asks (· ≠ .generate i) (· ≠ .generate i) false := by
    refine (hscript _).mono ?_ (fun _ => id) id
    rintro _ htop rfl
    obtain ⟨hyes, -⟩ := htop
    rw [hplaced] at hyes
    cases hyes
  exact hcourse.forall_request (asks_blockScript_besides_orphan h hr hi hplaced) hasks step hstep
    hrequest

theorem orphanReport_mem_compile (options : Options) :
    j.orphanReport i ∈ (j.compile options).withReason .orphanedTopLevel := by
  obtain ⟨sections, s, hplay⟩ := exists_play? h (j.sections options) {}
  rw [withReason_compile hplay, (orphans_of_play? h hplay).1, orphans_eq]
  refine List.mem_map_of_mem (List.mem_filter.mpr ⟨?_, by simp [hplaced]⟩)
  exact List.mem_flatMap.mpr ⟨r, mem_generationOrder.mpr hr, hi⟩

end Orphan

theorem asks_stack (hr : r ∈ j.graph.roots) (options : Options) (Q : Request → Prop) :
    (j.stack options r).Asks j.AtTop Q false := by
  refine Script.Asks.bind (Script.Asks.mapM fun i hi => ?_) fun _ => .pure _
  exact j.asks_topLevel options hr hi Q false

section Fragment

variable (h : j.graph.IsForest)

include h

/-- The reports in a preview of a root: the orphans of its sequence, in their order. -/
theorem withReason_fragment_of_root (hr : r ∈ j.graph.roots) :
    (j.fragment r).withReason .orphanedTopLevel =
      ((j.graph.chain r).filter fun i => !j.isPlaced (j.node i).type).map j.orphanReport := by
  have hscript : j.fragmentScript r = j.stack {} r := if_pos (List.contains_iff_mem.mpr hr)
  obtain ⟨text, s, hplay⟩ := exists_play? h (j.stack {} r) {}
  have hcourse := course_of_play? hplay
  have hreports := orphanReports_stack hcourse
  have hdistinct : ((orphanReports (j.steps (j.stack {} r) {})).map (·.node)).Nodup := by
    rw [hreports, List.map_map]
    refine nodup_map_key h ((h.nodup_chain r).filter _) fun i hi => ?_
    have hchain := Graph.reflTransGen_of_mem_chain (List.mem_filter.mp hi).1
    rcases hchain.cases_tail with rfl | ⟨b, -, hb⟩
    · exact ((h.mem_roots _).mp hr).1
    · exact (h.within b .next i hb).2
  have hfragment : (j.fragment r).withReason .orphanedTopLevel =
      s.diagnostics.withReason .orphanedTopLevel := by
    rw [fragment, hscript, play, hplay]
    rfl
  rw [hfragment, (hcourse.reports_fresh hdistinct).1]
  exact hreports

/-- A preview of an orphan that is a root begins with its placeholder. -/
theorem source_fragment_of_root (hr : r ∈ j.graph.roots)
    (hplaced : j.isPlaced (j.node r).type = false) :
    ∃ s₁ texts s, j.play? ((j.graph.chain r).tail.mapM (j.topLevel {})) s₁ = some (texts, s) ∧
      (j.fragment r).source = assemble s.declarations.flush none
        [j.placeholder (j.node r).type ++ String.join texts] := by
  have hscript : j.fragmentScript r = j.stack {} r := if_pos (List.contains_iff_mem.mpr hr)
  obtain ⟨s₁, hfirst⟩ : ∃ s₁, j.play? (j.topLevel {} r) {} =
      some (j.placeholder (j.node r).type, s₁) := by
    simp only [topLevel, hplaced, Bool.false_eq_true, if_false]
    exact ⟨_, rfl⟩
  obtain ⟨texts, s, hrest⟩ := exists_play? h ((j.graph.chain r).tail.mapM (j.topLevel {})) s₁
  refine ⟨s₁, texts, s, hrest, ?_⟩
  have hstack : j.play? (j.stack {} r) {} =
      some (j.placeholder (j.node r).type ++ String.join texts, s) := by
    rw [stack, h.chain_eq_cons ((h.mem_roots r).mp hr).1, List.mapM_cons]
    simp only [play?_bind, hfirst, Option.bind_some, hrest, ← String.join_cons]
    rfl
  rw [fragment, hscript, play, hstack]
  rfl

/-- A preview of a block that is no root is its own code, and reports no orphan at top level. -/
theorem fragment_of_not_root (hi : i ∉ j.graph.roots) :
    (j.fragment i).withReason .orphanedTopLevel = [] ∧
      ∃ c s, j.play? (Script.generate i) {} = some (c, s) ∧
        (j.fragment i).source = assemble s.declarations.flush none [fragmentText c] := by
  obtain ⟨c, s, hplay⟩ := exists_play? h (Script.generate i) {}
  have hscript : j.fragmentScript i = do return fragmentText (← Script.generate i) :=
    if_neg fun hmem => hi (List.contains_iff_mem.mp hmem)
  have hfragment : j.fragment i = j.product s none [fragmentText c] := by
    rw [fragment, hscript, play, play?_bind, hplay]
    rfl
  refine ⟨?_, c, s, hplay, by rw [hfragment]; rfl⟩
  have hcourse := course_of_play? hplay
  have hasks : (Script.generate i).Asks ReportsElse ReportsElse false :=
    .single (fun _ hreport => by cases hreport) fun _ => .done _
  have hnone := orphanReports_eq_nil (hcourse.forall_request j.asks_reportsElse hasks)
  have hreports : s.diagnostics.withReason .orphanedTopLevel =
      orphanReports (j.steps (Script.generate i) {}) := by
    refine (hcourse.reports_fresh ?_).1
    rw [← orphanReports, hnone]
    exact List.nodup_nil
  rw [hfragment]
  exact hreports.trans hnone

end Fragment

/-- **Previews judge orphans as compilations do if they are roots, and only then.**  Take a block
that is a root or follows one, and is neither a container nor generated wherever it stands.  No
compilation generates it, and each reports it.  If it is a root, so does its preview, which begins
with the placeholder of the block, and goes on with the blocks that follow it as a compilation
judges them.  The placeholder is a comment: each of its lines begins with the mark and a space, if
the mark is one that shows.  If the block is no root, the preview is its own code, and reports no
orphan. -/
theorem preview_of_orphan (h : j.graph.Built) (options : Options) (hr : r ∈ j.graph.roots)
    (hi : i ∈ j.graph.chain r) (hplaced : j.isPlaced (j.node i).type = false) :
    (i ∉ Step.blocks (j.compilationSteps options) ∧
      j.orphanReport i ∈ (j.compile options).withReason .orphanedTopLevel) ∧
    (i = r → i ∉ Step.blocks (j.steps (j.fragmentScript i) {}) ∧
      (j.fragment i).withReason .orphanedTopLevel =
        ((j.graph.chain i).filter fun k => !j.isPlaced (j.node k).type).map j.orphanReport ∧
      j.orphanReport i ∈ (j.fragment i).withReason .orphanedTopLevel ∧
      ∃ s₁ texts s, j.play? ((j.graph.chain i).tail.mapM (j.topLevel {})) s₁ = some (texts, s) ∧
        (j.fragment i).source = assemble s.declarations.flush none
          [j.placeholder (j.node i).type ++ String.join texts] ∧
        (j.formatting.HasMark → ∃ body, j.placeholder (j.node i).type = body ++ "\n" ∧
          ∀ row ∈ Text.rows body, (j.formatting.commentMark ++ " ").toList <+: row)) ∧
    (i ≠ r → (j.fragment i).withReason .orphanedTopLevel = [] ∧
      ∃ c s, j.play? (Script.generate i) {} = some (c, s) ∧
        (j.fragment i).source = assemble s.declarations.flush none [fragmentText c]) := by
  have hf := h.isForest
  refine ⟨⟨?_, orphanReport_mem_compile hf hr hi hplaced options⟩, ?_, ?_⟩
  · obtain ⟨sections, s, hplay⟩ := exists_play? hf (j.sections options) {}
    exact not_mem_blocks_of_orphan hf hr hi hplaced (fun Q => j.asks_sections options Q false)
      (course_of_play? hplay)
  · rintro rfl
    have hreports := withReason_fragment_of_root hf hr
    obtain ⟨s₁, texts, s, hplay, hsource⟩ := source_fragment_of_root hf hr hplaced
    refine ⟨?_, hreports, ?_, s₁, texts, s, hplay, hsource, fun hmark => ?_⟩
    · have hscript : j.fragmentScript i = j.stack {} i := if_pos (List.contains_iff_mem.mpr hr)
      obtain ⟨text, s, hplay⟩ := exists_play? hf (j.stack {} i) {}
      rw [hscript]
      exact not_mem_blocks_of_orphan hf hr hi hplaced (asks_stack hr {})
        (course_of_play? hplay)
    · rw [hreports]
      exact List.mem_map_of_mem (List.mem_filter.mpr ⟨hi, by simp [hplaced]⟩)
    · obtain ⟨body, hbody, hmarks⟩ := exists_marks_placeholder hmark (j.node i).type
      exact ⟨body, hbody, hmarks.marked⟩
  · intro hne
    exact fragment_of_not_root hf fun hroot => hne ((hf.root_of_mem_chain hr hi).mp hroot)

/-- A stray condition, and a delay that follows it. -/
def chainedDraft : Draft :=
  [.node "X" "controls_if", .node "D" "time_delay", .setNext 0 1].foldl
    (fun d e => Draft.Edit.apply e d) {}

theorem chainedDraft_reachable : chainedDraft.Reachable :=
  Draft.reachable_of_edits rfl

/-- The compilation of the graph of `chainedDraft`. -/
def chainedJob : Job :=
  ⟨chainedDraft.toGraph, Target.arduino.backend⟩

theorem chainedJob_built : chainedJob.graph.Built :=
  chainedDraft_reachable.built rfl

/-- The preview of the condition reports it, and the delay with it. -/
theorem preview_of_orphan_chained :
    chainedJob.graph.Built ∧ 0 ∈ chainedJob.graph.roots ∧ 0 ∈ chainedJob.graph.chain 0 ∧
      chainedJob.isPlaced (chainedJob.node 0).type = false ∧
      0 ∉ Step.blocks (chainedJob.steps (chainedJob.fragmentScript 0) {}) ∧
      ((chainedJob.fragment 0).withReason .orphanedTopLevel).map (·.node) = ["X", "D"] ∧
      ∃ body, chainedJob.placeholder "controls_if" = body ++ "\n" ∧
        ∀ row ∈ Text.rows body, "// ".toList <+: row := by
  have hr : 0 ∈ chainedJob.graph.roots := by decide
  have hi : 0 ∈ chainedJob.graph.chain 0 := by decide
  have hplaced : chainedJob.isPlaced (chainedJob.node 0).type = false := by decide
  obtain ⟨-, hroot, -⟩ := preview_of_orphan chainedJob_built {} hr hi hplaced
  obtain ⟨hblocks, hreports, -, -, -, -, -, -, hcomment⟩ := hroot rfl
  refine ⟨chainedJob_built, hr, hi, hplaced, hblocks, ?_, hcomment Target.arduino.hasMark⟩
  rw [hreports]
  decide

/-- The delay follows a root, and the compilation reports it.  Its preview is code all the same. -/
theorem chained_orphan_previewed :
    1 ∈ chainedJob.graph.chain 0 ∧
      ((chainedJob.compile {}).withReason .orphanedTopLevel).map (·.node) = ["X", "D"] ∧
      (chainedJob.fragment 1).source = "delay(1000);\n" ∧
      (chainedJob.fragment 1).diagnostics = [] := by
  decide +kernel

end Job

end BlockCompiler
