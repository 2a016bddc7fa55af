import BlockCompiler.Proofs.Generation.Sections
import BlockCompiler.Proofs.Graph.Forest

/-!
# The arrangement of sections

Three orders meet in a compilation: that of the roots in the graph, that in which their
stacks are generated, and that of the sections in the source.  Stacks are generated with
the entry points last (`Job.entriesLast`), block by block, each block on the run that the
one before left (`Run.InTurn`).  In the source the sections stand in the same order, or in
that of the roots, as the conventions of the target want it.  No root is lost or met twice
on the way, so each section is made of what the blocks of its own stack add to it
(`Graph.Built.sections_arranged`).

None of this depends on where the code of a block comes from.  It is shown of
`Job.compileBy`, for any function that gives code to blocks.
-/

namespace BlockCompiler

namespace Job

variable {j : Job} {options : Options}

/-- The roots with the entry points moved behind all others, otherwise in their order. -/
def entriesLast (j : Job) : List NodeId :=
  let (entries, others) := j.graph.roots.partition j.isEntry
  others ++ entries

/-- The roots in the order of their sections. -/
def sectionOrder (j : Job) : List NodeId :=
  if j.formatting.entryPointsLast then j.entriesLast else j.graph.roots

theorem generationOrder_eq (j : Job) : j.generationOrder = j.entriesLast := by
  rw [entriesLast, List.partition_eq_filter_filter]
  rfl

/-- Moving the entry points loses no root and adds none. -/
theorem perm_entriesLast (j : Job) : j.entriesLast.Perm j.graph.roots := by
  rw [entriesLast, List.partition_eq_filter_filter]
  exact List.perm_append_comm.trans (List.filter_append_perm j.isEntry j.graph.roots)

/-! ## Blocks at top level -/

variable {code : NodeId → Run → Option (Code × Run)} {i root : NodeId} {s s' : Run} {text : String}

/-- What a block at top level adds to its section, and the run after it.  A block that is placed
there adds its code.  An orphan is reported; it adds the comment in its place, if there is to be
one. -/
inductive Adds (j : Job) (options : Options) (code : NodeId → Run → Option (Code × Run))
    (i : NodeId) : String → Run → Run → Prop
  | placed {c : Code} {s s' : Run} (htype : j.isPlaced (j.node i).type = true)
      (hcode : code i (s.notice (.generatingRoot (j.node i).key (j.node i).type)) = some (c, s')) :
      Adds j options code i c.text s s'
  | orphan (s : Run) (htype : j.isPlaced (j.node i).type = false) :
      Adds j options code i (if options.placeholders then j.placeholder (j.node i).type else "") s
        ((s.notice (.orphanedRoot (j.node i).key (j.node i).type)).report
          (.orphanedTopLevel (j.node i).key (j.node i).type j.backend.containers.describe))

theorem run_topLevel_of_placed (htype : j.isPlaced (j.node i).type = true) (s : Run) :
    (j.topLevel options i).run code s =
      (code i (s.notice (.generatingRoot (j.node i).key (j.node i).type))).bind fun r =>
        some (r.1.text, r.2) := by
  simp only [topLevel, htype]
  rfl

theorem run_topLevel_iff :
    (j.topLevel options i).run code s = some (text, s') ↔ j.Adds options code i text s s' := by
  cases htype : j.isPlaced (j.node i).type with
  | true =>
    rw [run_topLevel_of_placed htype]
    constructor
    · intro h
      obtain ⟨⟨c, s₁⟩, hcode, hdone⟩ := Option.bind_eq_some_iff.mp h
      cases hdone
      exact .placed htype hcode
    · intro h
      cases h with
      | placed _ hcode => exact Option.bind_eq_some_iff.mpr ⟨_, hcode, rfl⟩
      | orphan _ horphan => exact absurd (htype.symm.trans horphan) (by decide)
  | false =>
    simp only [topLevel, htype]
    constructor
    · intro h
      cases h
      exact .orphan s htype
    · intro h
      cases h with
      | placed hplaced _ => exact absurd (htype.symm.trans hplaced) (by decide)
      | orphan => rfl

/-- The section of a root is what its blocks add, one after the other. -/
theorem run_rootSection {pieces : List String}
    (h : Run.InTurn (j.Adds options code) (j.graph.chain root) pieces s s') :
    (j.rootSection options root).run code s = some ((root, String.join pieces), s') := by
  have hpieces := Script.run_mapM_iff.mpr (h.imp fun _ _ _ _ => run_topLevel_iff.mpr)
  have hstack : (j.stack options root).run code s = some (String.join pieces, s') :=
    Script.run_map_of_run hpieces String.join
  exact Script.run_map_of_run hstack (Prod.mk root)

/-- The sections of all roots, from what their blocks add. -/
theorem run_sections {piece : NodeId → String}
    (h : Run.InTurn (j.Adds options code) (j.entriesLast.flatMap j.graph.chain)
      ((j.entriesLast.flatMap j.graph.chain).map piece) s s') :
    (j.sections options).run code s =
      some (j.entriesLast.map fun root => (root, String.join ((j.graph.chain root).map piece)),
        s') := by
  rw [sections, generationOrder_eq]
  refine Script.run_mapM_iff.mpr ?_
  exact h.grouped.map_function (r := fun root pieces => (root, String.join pieces))
    fun _ _ _ _ => run_rootSection

/-- Sections are made in no other way. -/
theorem exists_inTurn_adds (h : j.graph.IsForest) {sections : List (NodeId × String)}
    (hrun : (j.sections options).run code s = some (sections, s')) :
    ∃ piece : NodeId → String, Run.InTurn (j.Adds options code)
      (j.entriesLast.flatMap j.graph.chain) ((j.entriesLast.flatMap j.graph.chain).map piece)
      s s' := by
  rw [sections_eq, Script.run_map] at hrun
  obtain ⟨⟨groups, s₁⟩, hgroups, heq⟩ := Option.map_eq_some_iff.mp hrun
  cases heq
  have hwalk : (j.walk.mapM (j.topLevel options)).run code s = some (groups.flatten, s₁) := by
    rw [walk_mapM]
    exact Script.run_map_of_run hgroups List.flatten
  have hturn := Script.run_mapM_iff.mp hwalk
  obtain ⟨piece, hpiece⟩ := hturn.exists_eq_map (nodup_walk h)
  rw [hpiece, walk, generationOrder_eq] at hturn
  exact ⟨piece, hturn.imp fun _ _ _ _ => run_topLevel_iff.mp⟩

/-! ## Sections in the source -/

/-- Each section is found again under its root. -/
theorem arrange_map (h : j.graph.IsForest) (text : NodeId → String) :
    j.arrange (j.entriesLast.map fun root => (root, text root)) = j.sectionOrder.map text := by
  rw [arrange, sectionOrder]
  split
  · rw [List.map_map]
    rfl
  · refine List.map_congr_left fun root hroot => ?_
    have hroots : (j.entriesLast.map fun root => (root, text root)).map (·.1) = j.entriesLast := by
      rw [List.map_map]
      exact List.map_id _
    have hkeys : ((j.entriesLast.map fun root => (root, text root)).map (·.1)).Nodup := by
      rw [hroots]
      exact j.perm_entriesLast.nodup_iff.mpr h.nodup_roots
    have hmem : (root, text root) ∈ j.entriesLast.map fun root => (root, text root) :=
      List.mem_map.mpr ⟨root, j.perm_entriesLast.mem_iff.mpr hroot, rfl⟩
    rw [lookup_of_mem hkeys hmem]
    rfl

/-- Parts of a source, each without the line feeds at its end, with a blank line between any two and
a line feed after the last. -/
def layOut : List String → String
  | [] => ""
  | [part] => Text.trimLineFeeds part ++ "\n"
  | part :: next :: rest => Text.trimLineFeeds part ++ "\n\n" ++ layOut (next :: rest)

theorem layOut_eq (part : String) (rest : List String) :
    layOut (part :: rest) =
      "\n\n".intercalate ((part :: rest).map Text.trimLineFeeds) ++ "\n" := by
  induction rest generalizing part with
  | nil => rw [layOut, List.map_singleton, String.intercalate_singleton]
  | cons next rest ih =>
    rw [layOut, ih, List.map_cons, List.map_cons, List.map_cons, String.intercalate_cons_cons]
    simp only [String.append_assoc]

theorem isEmpty_banner (j : Job) : j.banner.isEmpty = false := by
  have hlines : Text.lines ("Generated by blockforge for " ++ j.backend.displayName) ≠ [] := by
    rw [Text.lines, Ne, List.map_eq_nil_iff, Text.splitLines_eq_nil_iff, String.toList_eq_nil_iff]
    intro hempty
    exact absurd (String.append_eq_empty_iff.mp hempty).1 (by decide)
  rw [banner, comment, Formatting.comment, Text.mapLines]
  obtain ⟨line, rest, hline⟩ := List.exists_cons_of_ne_nil hlines
  rw [hline, List.map_cons, String.join_cons]
  simp [String.append_eq_empty_iff]

theorem assemble_eq_layOut (declarations : String) (banner : Option String)
    (sections : List String) :
    assemble declarations banner sections =
      layOut ((if declarations.isEmpty then [] else [declarations]) ++ banner.toList ++
        sections.filter (!Text.blank ·)) := by
  rw [assemble]
  generalize (if declarations.isEmpty then [] else [declarations]) ++ banner.toList ++
    sections.filter (!Text.blank ·) = parts
  cases parts with
  | nil => rfl
  | cons part rest => exact (layOut_eq part rest).symm

theorem assemble_eq (declarations banner : String) (shown : Bool) (hbanner : banner.isEmpty = false)
    (sections : List String) :
    assemble declarations (if shown then some banner else none) sections =
      layOut ((declarations :: if shown then [banner] else []).filter (!·.isEmpty) ++
        sections.filter (!Text.blank ·)) := by
  have hparts : (if declarations.isEmpty then [] else [declarations]) ++
      (if shown then some banner else none).toList =
        (declarations :: if shown then [banner] else []).filter (!·.isEmpty) := by
    cases hdeclarations : declarations.isEmpty <;> cases shown <;> simp [hdeclarations, hbanner]
  rw [assemble_eq_layOut, hparts]

/-- The product, from a text for each root. -/
theorem finish_map (h : j.graph.IsForest) (text : NodeId → String) (s : Run) :
    j.finish options (j.entriesLast.map fun root => (root, text root)) s =
      ({ backend := j.backend.name
         source := layOut
          ((s.declarations.flush :: if options.banner then [j.banner] else []).filter (!·.isEmpty) ++
            (j.sectionOrder.map text).filter (!Text.blank ·))
         diagnostics := s.diagnostics.entries },
        { s with notices := s.notices ++ j.closingNotices s }) := by
  rw [← assemble_eq _ _ _ j.isEmpty_banner, ← arrange_map h]
  rfl

end Job

/-- **Sections are complete and in order.**  A compilation generates the stack of every root exactly
once, with the entry points last, and every block of a stack exactly once.  Whatever generators the
code of blocks comes from, the compilation has a result if and only if every block at top level can
be generated in turn.  The source is then made of the declarations and the banner, as far as there
are any, and of the sections that are not blank, in their order; a section is what the blocks of its
stack add, one after the other.  With the generators of the backend there is such a result. -/
theorem Graph.Built.sections_arranged {j : Job} (h : j.graph.Built) (options : Options) :
    j.graph.roots.Nodup ∧ j.entriesLast.Perm j.graph.roots ∧
    (j.entriesLast.flatMap j.graph.chain).Nodup ∧
    (∀ (code : NodeId → Run → Option (Code × Run)) (p : Product) (s' : Run),
      j.compileBy code options = some (p, s') ↔ ∃ (piece : NodeId → String) (s : Run),
        Run.InTurn (j.Adds options code) (j.entriesLast.flatMap j.graph.chain)
          ((j.entriesLast.flatMap j.graph.chain).map piece) {} s ∧
        s' = { s with notices := s.notices ++ j.closingNotices s } ∧
        p.backend = j.backend.name ∧ p.diagnostics = s.diagnostics.entries ∧
        p.source = Job.layOut
          ((s.declarations.flush :: if options.banner then [j.banner] else []).filter (!·.isEmpty) ++
            (j.sectionOrder.map fun root => String.join ((j.graph.chain root).map piece)).filter
              (!Text.blank ·))) ∧
    j.compileBy (emit j.blockScript j.depthBound) options = some (j.compileRun options) := by
  have hf := h.isForest
  refine ⟨hf.nodup_roots, j.perm_entriesLast, ?_, fun code p s' => ?_, ?_⟩
  · rw [← Job.generationOrder_eq]
    exact Job.nodup_walk hf
  · constructor
    · intro hcompile
      obtain ⟨⟨sections, s⟩, hrun, hfinish⟩ := Option.map_eq_some_iff.mp hcompile
      -- The pieces are read off the run; with them the run is what they say, so the sections agree.
      obtain ⟨piece, hturn⟩ := Job.exists_inTurn_adds hf hrun
      rw [Job.run_sections hturn] at hrun
      cases hrun
      rw [Job.finish_map hf] at hfinish
      cases hfinish
      exact ⟨piece, s, hturn, rfl, rfl, rfl, rfl⟩
    · rintro ⟨piece, s, hturn, rfl, hbackend, hdiagnostics, hsource⟩
      rw [Job.compileBy, Job.run_sections hturn, Option.map_some, Job.finish_map hf, ← hbackend,
        ← hdiagnostics, ← hsource]
  · obtain ⟨sections, s, hplay⟩ := Job.exists_play? (j := j) hf (j.sections options) {}
    rw [Job.compileRun_of_play? hplay]
    rw [Job.play?] at hplay
    rw [Job.compileBy, hplay]
    rfl

/-- An entry point with a procedure after it. -/
def sketchDraft : Draft :=
  [.node "main" "micropython_entry", .node "helper" "procedures_defnoreturn"].foldl
    (fun d e => Draft.Edit.apply e d) {}

theorem sketchDraft_reachable : sketchDraft.Reachable :=
  Draft.reachable_of_edits rfl

def sketchJob : Job :=
  ⟨sketchDraft.toGraph, Target.microPython.backend⟩

/-- The procedure is left to a generator that is none of the target's. -/
def ownScript : NodeId → Script Code
  | 1 => do
    Script.declare "board" "import board"
    return .statement "def helper():\n    board.start()\n"
  | i => sketchJob.blockScript i

/-- The procedure is generated first, and its section comes first in MicroPython, whether its code
comes from the target or not. -/
theorem Graph.Built.sections_arranged_sketch :
    sketchJob.graph.Built ∧ sketchJob.graph.roots = [0, 1] ∧
      (∃ s, sketchJob.compileBy (emit ownScript 2) { banner := false } = some
        (⟨"micropython",
          "import board\n\ndef helper():\n    board.start()\n\nwhile True:\n    pass\n", []⟩, s)) ∧
      sketchJob.compileBy (emit sketchJob.blockScript sketchJob.depthBound) { banner := false } =
        some (sketchJob.compileRun { banner := false }) ∧
      (sketchJob.compile { banner := false }).source =
        "def do_something():\n    pass\n\nwhile True:\n    pass\n" := by
  have hbuilt : sketchJob.graph.Built := sketchDraft_reachable.built rfl
  obtain ⟨-, -, -, hmade, htarget⟩ := Graph.Built.sections_arranged hbuilt { banner := false }
  have hwalk : sketchJob.entriesLast.flatMap sketchJob.graph.chain = [1, 0] := by decide
  rw [hwalk] at hmade
  have hturn : ∃ s, Run.InTurn (sketchJob.Adds { banner := false } (emit ownScript 2)) [1, 0]
      ["def helper():\n    board.start()\n", "while True:\n    pass\n"] {} s ∧
      s.diagnostics.entries = [] ∧ s.declarations.flush = "import board\n" :=
    ⟨_, .cons (.placed (c := .statement "def helper():\n    board.start()\n") rfl rfl)
      (.cons (.placed (c := .statement "while True:\n    pass\n") rfl rfl) (.nil _)),
      by decide, by decide⟩
  obtain ⟨s, hturn, hdiagnostics, hdeclared⟩ := hturn
  refine ⟨hbuilt, by decide, ⟨_, (hmade (emit ownScript 2) _ _).mpr
    ⟨fun i => if i = 1 then "def helper():\n    board.start()\n" else "while True:\n    pass\n", s,
      hturn, rfl, rfl, hdiagnostics.symm, ?_⟩⟩, htarget, by decide +kernel⟩
  rw [hdeclared]
  decide

end BlockCompiler
