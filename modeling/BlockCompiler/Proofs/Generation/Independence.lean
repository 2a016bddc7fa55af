import BlockCompiler.Proofs.Generation.Footprint
import BlockCompiler.Proofs.Generation.Setup
import BlockCompiler.Proofs.Graph.Descent

/-!
# Generation does not depend on the run so far

Only entry points look at the run: they ask whether the pass over the always-emitted
blocks is still to be made, and they take over the lines of the setup.  A block without an
entry point in it therefore turns into the same code whenever it is generated, and leaves
the same footprint (`exists_leaves_generate`).

The same holds of a root with the blocks that follow it, so it does not matter which roots
are generated before it: its section in a source is the one that is shown for it alone
(`Job.section_independent`).
-/

namespace BlockCompiler.Job

open Relation

variable {j : Job} {t : Target}

/-- Neither the block nor a block inside of it begins a program. -/
def IsProgramFree (j : Job) (i : NodeId) : Prop :=
  j.isEntry i = false ∧ ∀ d ∈ j.graph.descendants i, j.isEntry d = false

instance (j : Job) (i : NodeId) : Decidable (j.IsProgramFree i) :=
  inferInstanceAs (Decidable (_ ∧ _))

theorem IsProgramFree.inside (h : j.graph.IsForest) {i c : NodeId} (hi : j.IsProgramFree i)
    (hic : j.graph.Contains i c) : j.IsProgramFree c := by
  refine ⟨hi.2 c (h.mem_descendants_iff.mpr (TransGen.single hic)), fun d hd => ?_⟩
  exact hi.2 d (h.mem_descendants_iff.mpr (TransGen.head hic (h.mem_descendants_iff.mp hd)))

/-- A block that begins no program makes no request that looks at the run, if the blocks inside of
it do not. -/
theorem blind_of_permits (hb : j.backend = t.backend) {i : NodeId} (hi : j.isEntry i = false)
    (hinside : ∀ c, j.graph.Contains i c → ∃ code f, j.Leaves (Script.generate c) code f)
    {r : Request} (hr : j.Permits i r) : j.Blind r := by
  cases r with
  | generate c => exact hinside c (contains_of_permits hr)
  | setupLines | beginPass =>
    rcases hr with ⟨gen, hget, hkind⟩ | ⟨-, hplain | hreport⟩
    · exact kind_ne_entry hb hi hget hkind
    · exact hplain
    · cases hreport
  | declare | setup | setupBeside | report | notice | enterProgram => trivial

/-- **The code of a block does not depend on the run**, nor does what it offers to the collectors,
if there is no entry point in it. -/
theorem exists_leaves_generate (h : j.graph.IsForest) (hb : j.backend = t.backend) {i : NodeId}
    (hi : j.IsProgramFree i) : ∃ c f, j.Leaves (Script.generate i) c f := by
  induction hn : j.graph.height i using Nat.strongRecOn generalizing i with
  | ind n ih =>
    have hinside : ∀ c, j.graph.Contains i c → ∃ code f, j.Leaves (Script.generate c) code f := by
      intro c hic
      exact ih _ (hn ▸ h.height_lt hic.transGen) (hi.inside h hic) rfl
    have hasks : (j.blockScript i).Asks j.Blind j.InPass false :=
      (j.asks_blockScript i).mono (fun _ => blind_of_permits hb hi.1 hinside) (fun _ => id) id
    obtain ⟨c, f, hleaves⟩ := exists_leaves hasks
    exact ⟨c, f, leaves_generate h hleaves⟩

/-! ## Top level -/

/-- At top level the options change what stands in the place of an orphan, but not what is offered
to the collectors. -/
theorem exists_leaves_topLevel (h : j.graph.IsForest) (hb : j.backend = t.backend) {i : NodeId}
    (hi : j.IsProgramFree i) :
    ∃ f, ∀ options, ∃ text, j.Leaves (j.topLevel options i) text f := by
  by_cases hplaced : j.isPlaced (j.node i).type = true
  · obtain ⟨c, f, hc⟩ := exists_leaves_generate h hb hi
    refine ⟨{} ++ f, fun options => ⟨c.text, ?_⟩⟩
    simp only [topLevel, if_pos hplaced]
    exact (leaves_notice _).bind (hc.result Code.text)
  · refine ⟨{} ++ {}, fun options =>
      ⟨if options.placeholders then j.placeholder (j.node i).type else "", ?_⟩⟩
    simp only [topLevel, if_neg hplaced]
    exact (leaves_notice _).bind ((leaves_report _).result _)

/-- Scripts of a list whose footprints do not depend on the options, played in turn. -/
theorem exists_leaves_mapM {γ β : Type} {script : Options → γ → Script β} {xs : List γ}
    (hscript : ∀ x ∈ xs, ∃ f, ∀ options, ∃ y, j.Leaves (script options x) y f) :
    ∃ f, ∀ options, ∃ ys, j.Leaves (xs.mapM (script options)) ys f := by
  induction xs with
  | nil => exact ⟨{}, fun _ => ⟨[], leaves_pure []⟩⟩
  | cons x rest ih =>
    obtain ⟨f, hfirst⟩ := hscript x List.mem_cons_self
    obtain ⟨g, hrest⟩ := ih fun y hy => hscript y (List.mem_cons_of_mem _ hy)
    refine ⟨f ++ g, fun options => ?_⟩
    obtain ⟨y, hy⟩ := hfirst options
    obtain ⟨ys, hys⟩ := hrest options
    refine ⟨y :: ys, ?_⟩
    rw [List.mapM_cons]
    exact hy.bind (hys.result (y :: ·))

theorem exists_leaves_stack (h : j.graph.IsForest) (hb : j.backend = t.backend) {root : NodeId}
    (hfree : ∀ i ∈ j.graph.chain root, j.IsProgramFree i) :
    ∃ f, ∀ options, ∃ text, j.Leaves (j.stack options root) text f := by
  obtain ⟨f, hstack⟩ :=
    exists_leaves_mapM fun i hi => exists_leaves_topLevel h hb (hfree i hi)
  refine ⟨f, fun options => ?_⟩
  obtain ⟨texts, htexts⟩ := hstack options
  exact ⟨String.join texts, htexts.result String.join⟩

/-- Only the placeholders matter to what a root turns into. -/
theorem stack_eq_of_placeholders {options options' : Options}
    (h : options.placeholders = options'.placeholders) (root : NodeId) :
    j.stack options root = j.stack options' root := by
  have htop : j.topLevel options = j.topLevel options' := by
    funext i
    simp only [topLevel, h]
  rw [stack, stack, htop]

/-! ## Sections -/

/-- Wherever a script stands in a list, its result is among the results. -/
theorem Leaves.mem_of_play?_mapM {γ β : Type} {script : γ → Script β} {xs : List γ} {x : γ} {y : β}
    {f : Footprint} (hscript : j.Leaves (script x) y f) (hx : x ∈ xs) {s s' : Run} {ys : List β}
    (hplay : j.play? (xs.mapM script) s = some (ys, s')) : y ∈ ys := by
  induction xs generalizing s ys with
  | nil => cases hx
  | cons z rest ih =>
    rw [List.mapM_cons, play?_bind] at hplay
    obtain ⟨⟨first, s₁⟩, hfirst, hplay⟩ := Option.bind_eq_some_iff.mp hplay
    rw [play?_bind] at hplay
    obtain ⟨⟨others, s₂⟩, hrest, hplay⟩ := Option.bind_eq_some_iff.mp hplay
    cases hplay
    rcases List.mem_cons.mp hx with rfl | hx
    · obtain ⟨s₃, hresult, -⟩ := hscript s
      rw [hresult] at hfirst
      cases hfirst
      exact List.mem_cons_self
    · exact List.mem_cons_of_mem _ (ih hx hrest)

theorem map_fst_sections {options : Options} {s s' : Run} {sections : List (NodeId × String)}
    (hplay : j.play? (j.sections options) s = some (sections, s')) :
    sections.map (·.1) = j.generationOrder := by
  rw [sections_eq, play?_map] at hplay
  obtain ⟨⟨groups, after⟩, hgroups, heq⟩ := Option.map_eq_some_iff.mp hplay
  cases heq
  have hlength := length_of_play?_mapM hgroups
  exact List.map_fst_zip (by simp [hlength])

/-- The section of a root is what the root turns into on every run. -/
theorem Leaves.lookup_sections (h : j.graph.IsForest) {options : Options} {root : NodeId}
    (hroot : root ∈ j.graph.roots) {text : String} {f : Footprint}
    (hstack : j.Leaves (j.stack options root) text f) {s s' : Run}
    {sections : List (NodeId × String)}
    (hplay : j.play? (j.sections options) s = some (sections, s')) :
    sections.lookup root = some text := by
  have hkeys : (sections.map (·.1)).Nodup := by
    rw [map_fst_sections hplay]
    exact nodup_generationOrder h
  have hsection : j.Leaves (j.rootSection options root) (root, text) f := hstack.result _
  exact lookup_of_mem hkeys (hsection.mem_of_play?_mapM (mem_generationOrder.mpr hroot) hplay)

/-- What is shown for a root alone: its section, after the declarations that it offers. -/
theorem Leaves.source_fragment {root : NodeId} (hroot : root ∈ j.graph.roots) {text : String}
    {f : Footprint} (hstack : j.Leaves (j.stack {} root) text f) :
    (j.fragment root).source =
      assemble (Collector.flush { entries := Collector.offered f.declarations }) none [text] := by
  obtain ⟨s, hplay, hmarks⟩ := hstack {}
  have hscript : j.fragmentScript root = j.stack {} root :=
    if_pos (List.contains_iff_mem.mpr hroot)
  have hdeclarations : s.declarations.entries = Collector.offered f.declarations :=
    congrArg Collector.entries hmarks.declarations
  rw [fragment, hscript, play, hplay, ← hdeclarations]
  rfl

/-- **The section of a root does not depend on what was generated before it.**  Let a root, the
blocks that follow it and those inside of them hold no entry point.  There are fixed lists of
declarations and of lines of the setup, with different symbols each, and for all options there is
a text, such that on every run the root turns into this text, and appends to the collectors those
entries of the two lists whose symbols they do not have yet, in the order of the lists.  So with
placeholders the section of the root in a source is the one that is shown for the root alone. -/
theorem section_independent (h : j.graph.Built) (hb : j.backend = t.backend) {root : NodeId}
    (hroot : root ∈ j.graph.roots) (hfree : ∀ i ∈ j.graph.chain root, j.IsProgramFree i) :
    ∃ declared prepared : List (String × String),
      (declared.map (·.1)).Nodup ∧ (prepared.map (·.1)).Nodup ∧
      ∀ options, ∃ text,
        (∀ s, ∃ s', j.play? (j.stack options root) s = some (text, s') ∧
          s'.declarations.entries = s.declarations.entries ++
            declared.filter (fun e => !s.declarations.contains e.1) ∧
          s'.setups.entries = s.setups.entries ++
            prepared.filter (fun e => !s.setups.contains e.1)) ∧
        (options.placeholders = true →
          (∃ sections s, j.play? (j.sections options) {} = some (sections, s) ∧
            sections.lookup root = some text ∧
            (j.compile options).source = assemble s.declarations.flush
              (if options.banner then some j.banner else none) (j.arrange sections)) ∧
          (j.fragment root).source = assemble (Collector.flush { entries := declared }) none [text]) := by
  have hf := h.isForest
  -- What the stack offers does not depend on the run, only what is still missing there.
  obtain ⟨f, hstack⟩ := exists_leaves_stack hf hb hfree
  refine ⟨Collector.offered f.declarations, Collector.offered f.setups,
    (Collector.inStep_empty.registerAll _).nodup, (Collector.inStep_empty.registerAll _).nodup, ?_⟩
  intro options
  obtain ⟨text, htext⟩ := hstack options
  refine ⟨text, fun s => ?_, fun hplaceholders => ⟨?_, ?_⟩⟩
  · obtain ⟨s', hplay, hmarks⟩ := htext s
    refine ⟨s', hplay, ?_, ?_⟩
    · rw [hmarks.declarations, Collector.entries_registerAll]
    · rw [hmarks.setups, Collector.entries_registerAll]
  · obtain ⟨sections, s, hplay⟩ := exists_play? hf (j.sections options) {}
    refine ⟨sections, s, hplay, htext.lookup_sections hf hroot hplay, ?_⟩
    rw [compile, compileRun_of_play? hplay]
    rfl
  · have hsame : j.stack options root = j.stack {} root :=
      stack_eq_of_placeholders hplaceholders root
    rw [hsame] at htext
    exact htext.source_fragment hroot

/-- A procedure that attaches a servo, with a stray block behind it, and an entry point with the
same servo in its loop. -/
def sweepDraft : Draft :=
  [.node "main" "arduino_entry", .node "arm" "servo_attach",
    .node "sweep" "procedures_defnoreturn", .node "hand" "servo_attach",
    .node "wait" "time_delay", .setField 2 "NAME" "sweep", .setStatement 0 "LOOP" 1,
    .setStatement 2 "STACK" 3, .setNext 2 4].foldl (fun d e => Draft.Edit.apply e d) {}

theorem sweepDraft_reachable : sweepDraft.Reachable :=
  Draft.reachable_of_edits rfl

/-- The compilation of the graph of `sweepDraft`. -/
def sweepJob : Job :=
  ⟨sweepDraft.toGraph, Target.arduino.backend⟩

theorem sweepJob_built : sweepJob.graph.Built :=
  sweepDraft_reachable.built rfl

/-- The declarations of the procedure, whatever has been declared before it. -/
theorem section_independent_sweep :
    sweepJob.graph.Built ∧ 2 ∈ sweepJob.graph.roots ∧
      (∀ i ∈ sweepJob.graph.chain 2, sweepJob.IsProgramFree i) ∧
      ∃ text, ∀ s, ∃ s', sweepJob.play? (sweepJob.stack {} 2) s = some (text, s') ∧
        s'.declarations.entries = s.declarations.entries ++
          [("proto_sweep", "void sweep();"), ("include_servo", "#include <Servo.h>"),
            ("servo_servo", "Servo servo;")].filter (fun e => !s.declarations.contains e.1) := by
  have hroot : 2 ∈ sweepJob.graph.roots := by decide
  have hfree : ∀ i ∈ sweepJob.graph.chain 2, sweepJob.IsProgramFree i := by decide
  obtain ⟨declared, prepared, -, -, hsection⟩ :=
    section_independent (t := .arduino) sweepJob_built rfl hroot hfree
  obtain ⟨text, hplays, -⟩ := hsection {}
  refine ⟨sweepJob_built, hroot, hfree, text, fun s => ?_⟩
  -- On the empty run all of the declarations are new, so there they can be read off.
  have hdeclared : declared = [("proto_sweep", "void sweep();"),
      ("include_servo", "#include <Servo.h>"), ("servo_servo", "Servo servo;")] := by
    obtain ⟨s₀, hplay, hentries, -⟩ := hplays {}
    have hrun : (sweepJob.play? (sweepJob.stack {} 2) {}).map (·.2.declarations.entries) =
        some [("proto_sweep", "void sweep();"), ("include_servo", "#include <Servo.h>"),
          ("servo_servo", "Servo servo;")] := by
      decide +kernel
    rw [hplay, Option.map_some, hentries] at hrun
    simpa [Collector.contains, KeySet.contains] using hrun
  obtain ⟨s', hplay, hentries, -⟩ := hplays s
  exact ⟨s', hplay, hdeclared ▸ hentries⟩

end BlockCompiler.Job
