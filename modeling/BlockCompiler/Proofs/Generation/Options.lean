import BlockCompiler.Proofs.Generation.Arrangement
import BlockCompiler.Proofs.Generation.Comments

/-!
# What options change

Options are asked in one place while blocks are generated: an orphan gets a placeholder
or nothing.  Both come after the orphan is reported, so the run goes on in the same way
(`topLevel_eq`), through each stack and from root to root (`Job.InTurn`).  One family of
pieces of text, one for each block at top level, therefore serves all options: they only
choose which pieces are shown (`Job.shown`).  The banner is put in afterwards.
-/

namespace BlockCompiler

open Text

namespace Job

variable {j : Job} {options : Options}

/-! ## Pieces of text -/

/-- The blocks that are shown, of some at top level: an orphan is shown by its placeholder. -/
def shown (j : Job) (options : Options) (blocks : List NodeId) : List NodeId :=
  if options.placeholders then blocks else blocks.filter fun i => j.isPlaced (j.node i).type

/-- The section of a root, from the pieces for the blocks of its stack. -/
def sectionOf (j : Job) (options : Options) (piece : NodeId → String) (root : NodeId) : String :=
  String.join ((j.shown options (j.graph.chain root)).map piece)

theorem play?_topLevel_orphan {i : NodeId} (h : j.isPlaced (j.node i).type = false) {s s' : Run}
    {text : String} (hplay : j.play? (j.topLevel {} i) s = some (text, s')) :
    text = j.placeholder (j.node i).type := by
  simp only [topLevel, h] at hplay
  cases hplay
  rfl

/-- Options only decide whether the piece of an orphan is shown. -/
theorem topLevel_eq (j : Job) (options : Options) (i : NodeId) :
    j.topLevel options i =
      (fun text => if options.placeholders || j.isPlaced (j.node i).type then text else "") <$>
        j.topLevel {} i := by
  simp only [topLevel]
  -- An orphan is reported before options are asked, so the requests are the same.
  by_cases hplaced : j.isPlaced (j.node i).type = true
  · simp only [hplaced, Bool.or_true]
    rfl
  · simp only [hplaced]
    cases options.placeholders <;> rfl

theorem join_map_ite (p : NodeId → Bool) (piece : NodeId → String) (blocks : List NodeId) :
    String.join (blocks.map fun i => if p i then piece i else "") =
      String.join ((blocks.filter p).map piece) := by
  induction blocks with
  | nil => rfl
  | cons i rest ih =>
    rw [List.map_cons, String.join_cons, ih, List.filter_cons]
    split
    · rw [List.map_cons, String.join_cons]
    · exact String.empty_append

theorem sectionOf_eq (j : Job) (options : Options) (piece : NodeId → String) (root : NodeId) :
    j.sectionOf options piece root = String.join ((j.graph.chain root).map fun i =>
      if options.placeholders || j.isPlaced (j.node i).type then piece i else "") := by
  rw [sectionOf, shown, join_map_ite]
  cases options.placeholders <;> simp

theorem inTurn_stack {piece : NodeId → String} {s s' : Run}
    (h : j.InTurn (j.topLevel {}) j.walk (j.walk.map piece) s s') (options : Options) :
    j.InTurn (j.stack options) j.entriesLast
      (j.entriesLast.map (j.sectionOf options piece)) s s' := by
  have hpieces := h.map_result (j.topLevel_eq options)
  rw [walk, generationOrder_eq] at hpieces
  have hstacks := hpieces.mapM.map_result (k := j.stack options) (r := fun _ => String.join)
    fun _ => rfl
  rwa [← funext (j.sectionOf_eq options piece)] at hstacks

/-! ## From stacks to the source -/

/-- What a compilation makes of the stacks that were generated in turn. -/
theorem compileRun_of_inTurn (h : j.graph.IsForest) {text : NodeId → String} {s : Run}
    (hturn : j.InTurn (j.stack options) j.entriesLast (j.entriesLast.map text) {} s) :
    j.compileRun options =
      (j.product s (if options.banner then some j.banner else none) (j.sectionOrder.map text),
        { s with notices := s.notices ++ j.closingNotices s }) := by
  have hsections := (hturn.map_result (k := j.rootSection options) (r := Prod.mk)
    fun _ => rfl).play?_mapM
  rw [← generationOrder_eq] at hsections
  rw [compileRun_of_play? hsections, generationOrder_eq, finish, arrange_map h]

theorem source_product (s : Run) (options : Options) (sections : List String) :
    (j.product s (if options.banner then some j.banner else none) sections).source =
      layOut ([s.declarations.flush].filter (!·.isEmpty) ++
        (if options.banner then [j.banner] else []) ++ sections.filter (!Text.blank ·)) := by
  show assemble s.declarations.flush _ sections = _
  have hbanner : (if options.banner then [j.banner] else []).filter (!·.isEmpty) =
      if options.banner then [j.banner] else [] := by
    split <;> simp [j.isEmpty_banner]
  rw [assemble_eq _ _ _ j.isEmpty_banner, ← List.singleton_append, List.filter_append, hbanner]

end Job

/-- **Options only add comments.**  All compilations of a program report the same and end on the
same run, with the same declarations and setup lines.  There is one piece of text for each block at
top level, the placeholder if the block is an orphan.  Every section is made of the pieces of its
stack; without placeholders those of orphans, and no others, are left out.  The banner, if it is
wanted, stands between the declarations and the sections, which do not depend on it.  Placeholders
and the banner are comments: each of their lines begins with the mark and a space, if the mark is
one that shows. -/
theorem Graph.Built.options_add_comments {j : Job} (h : j.graph.Built) :
    (∀ options options', (j.compile options).diagnostics = (j.compile options').diagnostics ∧
      (j.compileRun options).2 = (j.compileRun options').2) ∧
    ∃ (piece : NodeId → String) (s : Run),
      (∀ i ∈ j.walk, j.isPlaced (j.node i).type = false →
        piece i = j.placeholder (j.node i).type ∧ (j.formatting.HasMark →
          ∃ body, piece i = body ++ "\n" ∧
            ∀ row ∈ rows body, (j.formatting.commentMark ++ " ").toList <+: row)) ∧
      (j.formatting.HasMark → ∃ body, j.banner = body ++ "\n" ∧
        ∀ row ∈ rows body, (j.formatting.commentMark ++ " ").toList <+: row) ∧
      j.InTurn (j.topLevel {}) j.walk (j.walk.map piece) {} s ∧
      ∀ options,
        j.InTurn (j.stack options) j.entriesLast
          (j.entriesLast.map (j.sectionOf options piece)) {} s ∧
        (j.compileRun options).2.declarations = s.declarations ∧
        (j.compileRun options).2.setups = s.setups ∧
        (j.compile options).source = Job.layOut ([s.declarations.flush].filter (!·.isEmpty) ++
          (if options.banner then [j.banner] else []) ++
          (j.sectionOrder.map (j.sectionOf options piece)).filter (!Text.blank ·)) := by
  obtain ⟨texts, s, hplay⟩ :=
    Job.exists_play? (j := j) h.isForest (j.walk.mapM (j.topLevel {})) {}
  have hwalk := Job.inTurn_of_play? hplay
  obtain ⟨piece, rfl⟩ := hwalk.exists_eq_map (Job.nodup_walk h.isForest)
  -- One run serves all options, as these have no part in generating blocks.
  have hrun := fun options => Job.compileRun_of_inTurn h.isForest (Job.inTurn_stack hwalk options)
  refine ⟨fun options options' => ?_, piece, s, fun i hi horphan => ?_, fun hmark => ?_, hwalk,
    fun options => ?_⟩
  · rw [Job.compile, Job.compile, hrun options, hrun options']
    exact ⟨rfl, rfl⟩
  · obtain ⟨s₁, s₂, hplaced⟩ := hwalk.exists_of_mem hi
    have hpiece := Job.play?_topLevel_orphan horphan hplaced
    refine ⟨hpiece, fun hmark => ?_⟩
    obtain ⟨body, hbody, hmarks⟩ := Job.exists_marks_placeholder hmark (j.node i).type
    exact ⟨body, hpiece.trans hbody, hmarks.marked⟩
  · obtain ⟨body, hbody, hmarks⟩ := Job.exists_marks_banner hmark
    exact ⟨body, hbody, hmarks.marked⟩
  · rw [Job.compile, hrun options]
    exact ⟨Job.inTurn_stack hwalk options, rfl, rfl, Job.source_product s options _⟩

/-- A procedure that follows an orphan. -/
def passedOverDraft : Draft :=
  [.node "wait" "time_delay", .node "helper" "procedures_defnoreturn", .setNext 0 1].foldl
    (fun d e => Draft.Edit.apply e d) {}

theorem passedOverDraft_reachable : passedOverDraft.Reachable :=
  Draft.reachable_of_edits rfl

def passedOverJob : Job :=
  ⟨passedOverDraft.toGraph, Target.arduino.backend⟩

/-- The placeholder stands in front of the procedure, or is left out. -/
theorem Graph.Built.options_add_comments_passedOver :
    passedOverJob.graph.Built ∧ passedOverJob.walk = [0, 1] ∧
      ∃ (piece : NodeId → String) (s : Run),
        piece 0 = "// [ORPHANED_TOP_LEVEL] 'time_delay' skipped: place it inside one of: " ++
          "arduino_entry, procedures_defnoreturn, procedures_defreturn\n" ∧
        passedOverJob.InTurn (passedOverJob.stack {}) [0] [String.join [piece 0, piece 1]] {} s ∧
        passedOverJob.InTurn (passedOverJob.stack { placeholders := false }) [0]
          [String.join [piece 1]] {} s := by
  have hbuilt : passedOverJob.graph.Built := passedOverDraft_reachable.built rfl
  have hwalk : passedOverJob.walk = [0, 1] := by decide
  obtain ⟨-, piece, s, horphan, -, -, hoptions⟩ := Graph.Built.options_add_comments hbuilt
  have hmem : 0 ∈ passedOverJob.walk := by
    rw [hwalk]
    exact List.mem_cons_self
  obtain ⟨hpiece, -⟩ := horphan 0 hmem (by decide)
  exact ⟨hbuilt, hwalk, piece, s, hpiece.trans (by decide +kernel),
    (hoptions {}).1, (hoptions { placeholders := false }).1⟩

end BlockCompiler
