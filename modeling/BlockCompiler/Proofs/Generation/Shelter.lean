import BlockCompiler.Proofs.Generation.Depth
import BlockCompiler.Proofs.Generation.Registry

/-!
# Guarded blocks stand inside containers

Conditionals, loops, loop exits, returns and timed repeats report that they are
orphaned when no container is above them.  A compilation never gets that far: it
generates a block only if the block is placed at top level or has a container above
it.  Such a block is called sheltered.  The blocks that a compilation itself asks for
are placed; a sheltered block asks for blocks that it contains, and these stand inside
it, or inside what it stands in; the always-emitted blocks are placed wherever they
stand.

This needs two things of a backend (`Backend.Orderly`): no placed type is guarded, and
an always-emitted type that is no container asks for no blocks.  The backends of both
targets are orderly.
-/

namespace BlockCompiler

/-- Placed types are not guarded, and those that are no containers have no blocks inside. -/
structure Backend.Orderly (b : Backend) : Prop where
  not_guarded : ∀ type g, b.generators.get? type = some g →
    b.containers.contains type = true ∨ b.alwaysEmitted.contains type = true →
      g.kind.isGuarded = false
  leaf : ∀ type g, b.generators.get? type = some g → b.alwaysEmitted.contains type = true →
    b.containers.contains type = false → g.kind.isLeaf = true

/-- The types whose blocks need a container above them. -/
def guardedTypes : List String :=
  ["controls_if", "controls_repeat_ext", "controls_whileUntil", "controls_for",
    "controls_flow_statements", "procedures_return", "time_every"]

namespace Target

theorem backend_orderly (t : Target) : t.backend.Orderly := by
  have hguarded : ∀ e ∈ t.typeKinds,
      e.1 ∈ [t.entryType, "procedures_defnoreturn", "procedures_defreturn"] ∨
        e.1 ∈ ["serial_setup", "servo_attach", "interrupt_attach"] → e.2.isGuarded = false := by
    cases t <;> decide
  have hleaf : ∀ e ∈ t.typeKinds, e.1 ∈ ["serial_setup", "servo_attach", "interrupt_attach"] →
      e.2.isLeaf = true := by
    cases t <;> decide
  constructor
  · intro type g hg hplaced
    simp only [backend, TypeSet.contains_ofList] at hplaced
    exact hguarded (type, g.kind) (mem_typeKinds_of_get? hg) hplaced
  · intro type g hg halways _
    simp only [backend, TypeSet.contains_ofList] at halways
    exact hleaf (type, g.kind) (mem_typeKinds_of_get? hg) halways

theorem exists_guarded {t : Target} {type : String} (h : type ∈ guardedTypes) :
    ∃ g, t.backend.generators.get? type = some g ∧ g.kind.isGuarded = true := by
  have hkind : ∀ type ∈ guardedTypes, ∃ e ∈ t.typeKinds, e.1 = type ∧ e.2.isGuarded = true := by
    cases t <;> decide
  obtain ⟨e, he, rfl, hguarded⟩ := hkind type h
  exact ⟨⟨t, e.2⟩, get?_of_mem_typeKinds he, hguarded⟩

end Target

/-! ## Reports -/

namespace Run

/-- No block has been reported for want of a container. -/
def NoNestedOrphan (s : Run) : Prop :=
  ∀ d ∈ s.diagnostics.entries, d.reason ≠ .orphanedNested

theorem NoNestedOrphan.report {s : Run} (h : s.NoNestedOrphan) {d : Diagnostic}
    (hd : d.reason ≠ .orphanedNested) : (s.report d).NoNestedOrphan := by
  intro e he
  simp only [Run.report, DiagnosticLog.push] at he
  split at he
  · exact h e he
  · rcases List.mem_append.mp he with he | he
    · exact h e he
    · rw [List.mem_singleton.mp he]
      exact hd

end Run

theorem Request.keeps_noNestedOrphan {Safe : NodeId → Prop} {r : Request}
    (hgenerate : ∀ i, r = .generate i → Safe i)
    (hreport : ∀ d, r = .report d → d.reason ≠ .orphanedNested) :
    r.Keeps Safe Run.NoNestedOrphan := by
  cases r with
  | generate i => exact hgenerate i rfl
  | report d =>
    intro code s reply s' hs hanswer
    cases hanswer
    exact hs.report (hreport d rfl)
  | setupBeside | enterProgram =>
    intro code s reply s' hs hanswer
    cases hanswer
    simpa [Run.NoNestedOrphan] using hs
  | declare | setup | notice | setupLines | beginPass =>
    intro code s reply s' hs hanswer
    cases hanswer
    exact hs

/-! ## Shelter -/

namespace Job

variable {j : Job}

/-- The block is placed at top level or has a container above it. -/
def Sheltered (j : Job) (i : NodeId) : Prop :=
  j.isPlaced (j.node i).type = true ∨ j.graph.isInside j.backend.containers i = true

theorem isPlaced_iff {type : String} :
    j.isPlaced type = true ↔
      j.backend.containers.contains type = true ∨ j.backend.alwaysEmitted.contains type = true := by
  rw [isPlaced, Bool.or_eq_true]

theorem sheltered_of_inPass {i : NodeId} (h : j.InPass (.generate i)) : j.Sheltered i :=
  Or.inl (isPlaced_iff.mpr (Or.inr (List.mem_filter.mp h).2))

theorem sheltered_of_permits (h : j.graph.Built) (hb : j.backend.Orderly) {i c : NodeId}
    (hi : j.Sheltered i) (hc : j.Permits i (.generate c)) : j.Sheltered c := by
  right
  rw [h.isInside_iff j.backend.containers (h.parent_eq_some_iff.mpr (contains_of_permits hc))]
  rcases hi with hplaced | hinside
  · left
    -- A placed block that is no container would be a leaf, and those ask for nothing.
    by_contra hcontainer
    rw [Bool.not_eq_true] at hcontainer
    have halways := (isPlaced_iff.mp hplaced).resolve_left (by simp [node, hcontainer])
    rcases hc with ⟨g, hg, hleaf, -⟩ | ⟨-, hplain | hreport⟩
    · have hleaf' := hb.leaf _ g hg halways hcontainer
      rw [hleaf'] at hleaf
      cases hleaf
    · exact hplain.elim
    · cases hreport
  · exact Or.inr hinside

theorem inside_of_guarded (hb : j.backend.Orderly) {i : NodeId} (hi : j.Sheltered i) {g : Generator}
    (hg : j.backend.generators.get? (j.node i).type = some g) (hguarded : g.kind.isGuarded = true) :
    j.graph.isInside j.backend.containers i = true := by
  refine hi.resolve_left fun hplaced => ?_
  have hnot := hb.not_guarded _ g hg (isPlaced_iff.mp hplaced)
  rw [hnot] at hguarded
  cases hguarded

theorem reason_of_permits (hb : j.backend.Orderly) {i : NodeId} (hi : j.Sheltered i)
    {d : Diagnostic} (hd : j.Permits i (.report d)) : d.reason ≠ .orphanedNested := by
  rcases hd with ⟨g, hg, hguarded, houtside, -⟩ | ⟨-, hplain | hreport⟩
  · rw [inside_of_guarded hb hi hg hguarded] at houtside
    cases houtside
  · exact hplain.elim
  · cases hreport
    simp [Diagnostic.missingGenerator, Diagnostic.ofReason]

theorem asks_blockScript_sheltered (h : j.graph.Built) (hb : j.backend.Orderly) {i : NodeId}
    (hi : j.Sheltered i) :
    (j.blockScript i).Asks (Request.Keeps j.Sheltered Run.NoNestedOrphan)
      (Request.Keeps j.Sheltered Run.NoNestedOrphan) false := by
  refine (j.asks_blockScript i).mono (fun r hr => ?_) (fun r hr => ?_) id
  · refine Request.keeps_noNestedOrphan ?_ ?_
    · rintro c rfl
      exact sheltered_of_permits h hb hi hr
    · rintro d rfl
      exact reason_of_permits hb hi hr
  · refine Request.keeps_noNestedOrphan ?_ ?_
    · rintro c rfl
      exact sheltered_of_inPass hr
    · rintro d rfl
      exact hr.elim

theorem asks_sections_sheltered (j : Job) (options : Options) :
    (j.sections options).Asks (Request.Keeps j.Sheltered Run.NoNestedOrphan)
      (Request.Keeps j.Sheltered Run.NoNestedOrphan) false := by
  refine (j.asks_sections options _ false).mono (fun r hr => ?_) (fun _ => id) id
  refine Request.keeps_noNestedOrphan ?_ ?_
  · rintro c rfl
    exact Or.inl hr.1
  · rintro d rfl
    obtain ⟨i, -, rfl⟩ := hr
    simp [Diagnostic.orphanedTopLevel, Diagnostic.ofReason]

/-- A compilation gets to the block at `i`, with the run being `s`: it asks for the block itself or
through the script of another one that it gets to. -/
inductive Reaches (j : Job) (options : Options) : NodeId → Run → Prop
  | top {i : NodeId} {s : Run}
      (h : (j.sections options).Makes (emit j.blockScript j.depthBound) {} (.generate i) s) :
      Reaches j options i s
  | inner {a i : NodeId} {s s' : Run} (ha : Reaches j options a s)
      (h : (j.blockScript a).Makes (emit j.blockScript j.depthBound) s (.generate i) s') :
      Reaches j options i s'

theorem Reaches.sheltered (h : j.graph.Built) (hb : j.backend.Orderly) {options : Options}
    {i : NodeId} {s : Run} (hi : j.Reaches options i s) : j.Sheltered i := by
  induction hi with
  | top hmakes => exact ((j.asks_sections_sheltered options).of_makes hmakes).elim id id
  | inner _ hmakes ih => exact ((asks_blockScript_sheltered h hb ih).of_makes hmakes).elim id id

theorem noNestedOrphan_sections (h : j.graph.Built) (hb : j.backend.Orderly) {options : Options}
    {sections : List (NodeId × String)} {s : Run}
    (hplay : j.play? (j.sections options) {} = some (sections, s)) : s.NoNestedOrphan := by
  refine Script.run_keeps ?_ (j.asks_sections_sheltered options) ?_ hplay
  · intro i hi s c s' hs hemit
    exact emit_keeps (fun _ => asks_blockScript_sheltered h hb) hi hs hemit
  · intro d hd
    cases hd

end Job

namespace Graph

/-- **No compilation reports a block for want of a container.**  It runs to its end, and each
guarded block that it gets to finds a container above it. -/
theorem Built.never_orphanedNested {g : Graph} (h : g.Built) (t : Target) (options : Options) :
    (∃ sections s, Job.play? ⟨g, t.backend⟩ (Job.sections ⟨g, t.backend⟩ options) {} =
      some (sections, s)) ∧
    (∀ d ∈ (Job.compile ⟨g, t.backend⟩ options).diagnostics, d.reason ≠ .orphanedNested) ∧
    ∀ i s, Job.Reaches ⟨g, t.backend⟩ options i s → (g.node i).type ∈ guardedTypes →
      g.isInside t.backend.containers i = true := by
  have hplay := Job.play?_eq_some_play (j := ⟨g, t.backend⟩) h.isForest
    (Job.sections ⟨g, t.backend⟩ options) {}
  refine ⟨⟨_, _, hplay⟩, ?_, ?_⟩
  · rw [Job.compile, Job.compileRun_eq]
    exact Job.noNestedOrphan_sections (j := ⟨g, t.backend⟩) h t.backend_orderly hplay
  · intro i s hreaches htype
    obtain ⟨gen, hgen, hguarded⟩ := Target.exists_guarded (t := t) htype
    exact Job.inside_of_guarded t.backend_orderly (hreaches.sheltered h t.backend_orderly) hgen
      hguarded

/-- A conditional in the loop of an entry point, and one that stands at top level. -/
def nestedDraft : Draft :=
  [.node "A" "arduino_entry", .node "B" "controls_if", .node "C" "controls_if",
    .setStatement 0 "LOOP" 1].foldl (fun d e => Draft.Edit.apply e d) {}

theorem nestedDraft_reachable : nestedDraft.Reachable :=
  Draft.reachable_of_edits rfl

theorem nestedDraft_built : nestedDraft.toGraph.Built :=
  nestedDraft_reachable.built rfl

/-- The compilation gets to the conditional in the loop: after the orphan at top level it asks for
the entry point, which counts itself, begins the pass and asks for the block in its loop. -/
theorem nestedDraft_reaches :
    ∃ s, Job.Reaches ⟨nestedDraft.toGraph, Target.arduino.backend⟩ {} 1 s :=
  ⟨_, .inner (a := 0) (.top (.later rfl (.later rfl (.later rfl (.here _ _ _)))))
    (.later rfl (.later rfl (.here _ _ _)))⟩

/-- The conditional in the loop is reached and finds the entry point above it; neither it nor the
one at top level is reported as nested. -/
theorem Built.never_orphanedNested_nested :
    nestedDraft.toGraph.Built ∧
      (∃ s, Job.Reaches ⟨nestedDraft.toGraph, Target.arduino.backend⟩ {} 1 s) ∧
      nestedDraft.toGraph.isInside Target.arduino.backend.containers 1 = true ∧
      ∀ d ∈ (Job.compile ⟨nestedDraft.toGraph, Target.arduino.backend⟩ {}).diagnostics,
        d.reason ≠ .orphanedNested := by
  obtain ⟨-, hreports, hinside⟩ := Built.never_orphanedNested nestedDraft_built .arduino {}
  obtain ⟨s, hreaches⟩ := nestedDraft_reaches
  exact ⟨nestedDraft_built, ⟨s, hreaches⟩, hinside 1 s hreaches (by decide), hreports⟩

end Graph

end BlockCompiler
