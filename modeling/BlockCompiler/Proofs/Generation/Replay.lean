import BlockCompiler.Proofs.Generation.Setup
import BlockCompiler.Proofs.Registration
import BlockCompiler.Proofs.Text.Indent

/-!
# Entry points replay the setup

The blocks of the pass are generated by the first entry point, before its own slots, so by
the time its code is made their lines are all in the setup.  The first step towards that is an
invariant of runs: either the pass is still to be made, or everything that its blocks register is
there (`Job.Settled`).  It is broken only inside the pass, where no entry point is generated,
so every entry point finds it intact (`Course.settled`), inside of other blocks as well as
at top level, and whichever comes first.

A symbol never has two entries, and every entry is one piece of the code of an entry point:
its line with a single line feed at the end, on the Arduino one unit further in
(`Job.setupPiece`).  So each line that a block of the pass registers stands in the code of each
entry point exactly once, wherever the block stands in the graph (`Job.setup_replayed`).
-/

namespace BlockCompiler

namespace Collector

variable {c : Collector} {symbol : String}

/-- A registered symbol has one entry. -/
theorem InStep.count_eq_one (h : c.InStep) (hsymbol : c.contains symbol = true) :
    (c.entries.map (·.1)).count symbol = 1 :=
  List.count_eq_one_of_mem h.nodup (h.contains_iff.mp hsymbol)

/-- The entry of a registered symbol, and what stands before and after it. -/
theorem InStep.exists_split (h : c.InStep) (hsymbol : c.contains symbol = true) :
    ∃ before line after, c.entries = before ++ (symbol, line) :: after ∧
      symbol ∉ before.map (·.1) ∧ symbol ∉ after.map (·.1) := by
  obtain ⟨⟨_, line⟩, hmem, rfl⟩ := List.mem_map.mp (h.contains_iff.mp hsymbol)
  obtain ⟨before, after, hentries⟩ := List.append_of_mem hmem
  refine ⟨before, line, after, hentries, ?_⟩
  have hnodup := h.nodup
  rw [hentries, List.map_append, List.map_cons] at hnodup
  obtain ⟨-, hafter, hdisjoint⟩ := List.nodup_append.mp hnodup
  exact ⟨fun hbefore => hdisjoint _ hbefore _ List.mem_cons_self rfl,
    (List.nodup_cons.mp hafter).1⟩

end Collector

/-! ## The pieces of the setup -/

/-- A line of the setup in the code of an entry point: ended by a line feed, and on the Arduino one
unit further in. -/
def Job.setupPiece (j : Job) (t : Target) (line : String) : String :=
  match t with
  | .arduino =>
    Text.unlines ((Text.lines (line ++ "\n")).map (Text.furtherIn j.formatting.indentUnit))
  | .microPython => line ++ "\n"

/-- The lines are those of the entries, without the line feeds at their ends. -/
def Collector.AreLines (lines : List String) (entries : List (String × String)) : Prop :=
  List.Forall₂ (fun line e => Text.IsStem line e.2) lines entries

theorem Collector.areLines_trimLineFeeds (entries : List (String × String)) :
    AreLines (entries.map fun e => Text.trimLineFeeds e.2) entries := by
  rw [AreLines, List.forall₂_map_left_iff, List.forall₂_same]
  exact fun e _ => Text.isStem_trimLineFeeds e.2

/-- The setup is made of one piece for each of its entries. -/
theorem Job.inSetup_flush (j : Job) (t : Target) (c : Collector) :
    j.inSetup t c.flush =
      String.join (c.entries.map fun e => j.setupPiece t (Text.trimLineFeeds e.2)) := by
  have hwhole : ∀ line ∈ c.texts.map fun text => Text.trimLineFeeds text ++ "\n",
      Text.IsWhole line := by
    intro line hline
    obtain ⟨text, -, rfl⟩ := List.mem_map.mp hline
    exact Text.isWhole_line _
  cases t with
  | arduino =>
    have hpiece : ∀ line, j.setupPiece .arduino line =
        Text.indent j.formatting.indentUnit (line ++ "\n") := fun line =>
      (Text.indent_eq_unlines _ _).symm
    refine (Text.indent_join _ hwhole).trans ?_
    simp only [hpiece, Collector.texts, List.map_map, Function.comp_def]
  | microPython =>
    rw [inSetup, Collector.flush, Collector.texts, List.map_map]
    rfl

/-- What stands before an entry, its own piece, and what stands after it. -/
theorem Job.inSetup_flush_split (j : Job) (t : Target) {c : Collector}
    {before after : List (String × String)} {e : String × String}
    (hsplit : c.entries = before ++ e :: after) :
    ∃ lines line lines', Collector.AreLines lines before ∧ Text.IsStem line e.2 ∧
      Collector.AreLines lines' after ∧
      j.inSetup t c.flush = String.join (lines.map (j.setupPiece t)) ++ j.setupPiece t line ++
        String.join (lines'.map (j.setupPiece t)) := by
  refine ⟨_, Text.trimLineFeeds e.2, _, Collector.areLines_trimLineFeeds before,
    Text.isStem_trimLineFeeds e.2, Collector.areLines_trimLineFeeds after, ?_⟩
  rw [inSetup_flush, hsplit, List.map_append, List.map_cons, List.map_map, List.map_map,
    String.join_append, String.join_cons, String.append_assoc]
  rfl

namespace Request

theorem passMade_eq_of_answer {r : Request} (hr : r ≠ .beginPass) {s s' : Run} {reply : r.Reply}
    (h : r.answer (fun _ _ => none) s = some (reply, s')) : s'.passMade = s.passMade := by
  cases r with
  | generate i => cases h
  | beginPass => exact absurd rfl hr
  | setupBeside | enterProgram =>
    cases h
    simp
  | declare | setup | report | notice | setupLines =>
    cases h
    rfl

end Request

namespace Job

variable {j : Job} {t : Target} {α : Type}

/-- If the pass was made, all that its blocks register is there. -/
def Settled (j : Job) (s : Run) : Prop :=
  s.passMade = true → j.Prepared s ∧ j.Declared s

theorem Declared.mono {s s' : Run} (hs : j.Declared s) (hle : s.Precedes s') : j.Declared s' :=
  fun c hc symbol hsymbol => hle.contains_declarations (hs c hc symbol hsymbol)

theorem Settled.of_answer {s s' : Run} (hs : j.Settled s) {r : Request} (hr : r ≠ .beginPass)
    {reply : r.Reply} (h : r.answer (fun _ _ => none) s = some (reply, s')) : j.Settled s' := by
  intro hmade
  rw [Request.passMade_eq_of_answer hr h] at hmade
  have hle := Request.precedes_of_answer h
  exact ⟨(hs hmade).1.mono hle, (hs hmade).2.mono hle⟩

/-- The request is for no block other than an always-emitted one. -/
def AsksAside (j : Job) (r : Request) : Prop :=
  ∀ c, r = .generate c → j.backend.alwaysEmitted.contains (j.node c).type = true

theorem asksAside_of_inPass {r : Request} (hr : j.InPass r) : j.AsksAside r := by
  rintro c rfl
  exact (List.mem_filter.mp hr).2

theorem asksAside_pass (j : Job) : j.alwaysEmittedPass.Asks j.AsksAside j.AsksAside false := by
  have hplain : ∀ r : Request, r.IsPlain → j.AsksAside r := by
    rintro r hr c rfl
    exact hr.elim
  have hbegin : j.AsksAside .beginPass := nofun
  exact (Blocks.asks_alwaysEmittedPass hplain hbegin).mono (fun _ => id)
    (fun _ => asksAside_of_inPass) id

section Entry

variable (hb : j.backend = t.backend) (h : j.graph.IsForest)

include hb h

/-- After the pass, or where it was made before, all that its blocks register is there. -/
theorem exists_play?_pass_of_settled {s : Run} (hs : j.Settled s) :
    ∃ s', j.play? j.alwaysEmittedPass s = some ((), s') ∧ j.Prepared s' ∧ j.Declared s' := by
  cases hmade : s.passMade with
  | false => exact exists_play?_pass hb h hmade
  | true =>
    have hbegin : j.play? j.alwaysEmittedPass s =
        j.play? (if !s.passMade then j.alwaysEmitted.forM j.emitAside else pure ())
          { s with passMade := true } := rfl
    rw [hmade] at hbegin
    exact ⟨_, hbegin, hs hmade⟩

/-- The setup in the code of an entry point has all lines of the pass. -/
theorem exists_play?_of_isEntry {e : NodeId} (he : j.isEntry e = true) {s : Run}
    (hs : j.Settled s) :
    ∃ s₁ setup loop s', j.play? (Blocks.programSlots t j (j.node e)) s₁ =
        some ((setup, loop), s') ∧
      j.play? (Script.generate e) s =
        some (.statement (Blocks.program t (j.inSetup t s'.setups.flush) setup loop), s') ∧
      j.Prepared s' ∧ j.Declared s' := by
  have hs₀ : j.Settled (s.enterProgram (j.node e).key) :=
    hs.of_answer (r := .enterProgram (j.node e).key) nofun rfl
  obtain ⟨s₁, hpass, hprepared, hdeclared⟩ := exists_play?_pass_of_settled hb h hs₀
  obtain ⟨setup, loop, s', hslots, hplay⟩ := exists_play?_entry h t (j.node e) hpass
  have hle := precedes_of_play? hslots
  refine ⟨s₁, setup, loop, s', hslots, ?_, hprepared.mono hle, hdeclared.mono hle⟩
  rw [play?_generate h, blockScript_of_isEntry hb he, hplay]

omit h in
/-- The blocks of the pass ask for no other block. -/
theorem asksAside_blockScript {i : NodeId} (hi : j.AsksAside (.generate i)) :
    (j.blockScript i).Asks j.AsksAside j.AsksAside false := by
  refine (j.asks_blockScript i).mono ?_ (fun _ => asksAside_of_inPass) id
  rintro r hr c rfl
  rcases hr with ⟨gen, hget, hleaf, -⟩ | ⟨-, hplain | hreport⟩
  · have halways := hi i rfl
    rw [hb] at halways hget
    obtain ⟨kind, hkind⟩ := Target.exists_alwaysEmittedKind halways
    rw [Target.get?_of_mem_typeKinds (t.alwaysEmittedKinds_subset hkind)] at hget
    cases hget
    rw [BlockKind.isLeaf_of_mem_alwaysEmittedKinds (List.mem_map_of_mem hkind)] at hleaf
    cases hleaf
  · exact hplain.elim
  · cases hreport

omit h in
/-- No entry point is generated in the pass. -/
theorem Course.isEntry_of_pass {s s' : Run} {steps : List Step}
    (hcourse : j.Course j.alwaysEmittedPass s steps () s') {step : Step} (hstep : step ∈ steps)
    {e : NodeId} (he : step.request = .generate e) : j.isEntry e = false := by
  have halways := hcourse.forall_request_within (fun i => asksAside_blockScript hb)
    (asksAside_pass j) step hstep e he
  rw [← Bool.not_eq_true, isEntry_iff hb]
  intro htype
  rw [hb, htype, t.not_alwaysEmitted_entryType] at halways
  cases halways

/-- Inside of an entry point, any other one comes after the pass. -/
theorem Course.settled_entry {e : NodeId} (he : j.isEntry e = true) {s s' : Run} {c : Code}
    {steps : List Step} (hcourse : j.Course (j.blockScript e) s steps c s') (hs : j.Settled s) :
    j.Prepared s' ∧ j.Declared s' ∧ ∀ step ∈ steps, ∀ d, step.request = .generate d →
      j.isEntry d = true → j.Settled step.run := by
  have hplay : j.play? (Script.generate e) s = some (c, s') := by
    rw [play?_generate h]
    exact hcourse.play?_eq h
  obtain ⟨_, _, _, s₁, -, hentry, hprepared, hdeclared⟩ := exists_play?_of_isEntry hb h he hs
  rw [hplay] at hentry
  cases hentry
  refine ⟨hprepared, hdeclared, ?_⟩
  rw [blockScript_of_isEntry hb he, Blocks.entry_eq] at hcourse
  obtain ⟨enter, _, s₁, more, henter, hmore, rfl⟩ := hcourse.of_bind
  obtain ⟨pass, _, s₂, inside, hpass, hinside, rfl⟩ := hmore.of_bind
  cases henter with
  | plain hanswer hdone =>
    cases hdone
    have hs₁ : j.Settled s₁ := hs.of_answer (r := .enterProgram (j.node e).key) nofun hanswer
    obtain ⟨s₃, hplay, hready⟩ := exists_play?_pass_of_settled hb h hs₁
    rw [hpass.play?_eq h] at hplay
    cases hplay
    intro step hstep d hd hentry
    -- The steps are those of the entry itself, of the pass, and of the slots after it.
    rcases List.mem_append.mp hstep with hstep | hstep
    · obtain rfl := List.mem_singleton.mp hstep
      cases hd
    · rcases List.mem_append.mp hstep with hstep | hstep
      · rw [hpass.isEntry_of_pass hb hstep hd] at hentry
        cases hentry
      · have hle := hinside.precedes_at step hstep
        exact fun _ => ⟨hready.1.mono hle, hready.2.mono hle⟩

omit h in
/-- Blocks other than entry points leave the pass to them. -/
theorem asks_blockScript_of_not_isEntry {i : NodeId} (hi : j.isEntry i = false) :
    (j.blockScript i).Asks (· ≠ .beginPass) (· ≠ .beginPass) false := by
  refine (j.asks_blockScript i).mono (fun _ => ne_beginPass_of_permits hb hi) ?_ id
  rintro r hr rfl
  exact hr

/-- **Entry points find all that the pass registers, or make it themselves**, wherever a run gets to
them; once it has, all that the pass registers is there. -/
theorem Course.settled {script : Script α} {s s' : Run} {a : α} {steps : List Step}
    (hcourse : j.Course script s steps a s') {opened : Bool}
    (hscript : script.Asks (· ≠ .beginPass) (· ≠ .beginPass) opened) (hs : j.Settled s) :
    j.Settled s' ∧ ∀ step ∈ steps, ∀ e, step.request = .generate e → j.isEntry e = true →
      j.Settled step.run ∧ j.Prepared s' ∧ j.Declared s' := by
  induction hcourse generalizing opened with
  | done => exact ⟨hs, fun _ hstep => nomatch hstep⟩
  | @block _ i _ s s₁ s' _ _ inside rest hinside hrest ihinside ihrest =>
    -- Whatever comes after an entry point finds all that the pass registers.
    have hlater : j.Prepared s₁ ∧ j.Declared s₁ → j.Prepared s' ∧ j.Declared s' := fun hready =>
      ⟨hready.1.mono hrest.precedes, hready.2.mono hrest.precedes⟩
    have hblock : j.Settled s₁ ∧ ∀ step ∈ (⟨.generate i, s⟩ : Step) :: inside, ∀ e,
        step.request = .generate e → j.isEntry e = true →
          j.Settled step.run ∧ j.Prepared s₁ ∧ j.Declared s₁ := by
      by_cases hi : j.isEntry i = true
      · obtain ⟨hprepared, hdeclared, hsteps⟩ := hinside.settled_entry hb h hi hs
        refine ⟨fun _ => ⟨hprepared, hdeclared⟩, List.forall_mem_cons.mpr ⟨?_, ?_⟩⟩
        · exact fun _ _ _ => ⟨hs, hprepared, hdeclared⟩
        · exact fun step hstep e he hentry =>
            ⟨hsteps step hstep e he hentry, hprepared, hdeclared⟩
      · rw [Bool.not_eq_true] at hi
        obtain ⟨hs₁, hsteps⟩ := ihinside (asks_blockScript_of_not_isEntry hb hi) hs
        refine ⟨hs₁, List.forall_mem_cons.mpr ⟨?_, hsteps⟩⟩
        intro e he hentry
        cases he
        rw [hi] at hentry
        cases hentry
    obtain ⟨hs', hrests⟩ := ihrest (hscript.2 _) hblock.1
    refine ⟨hs', ?_⟩
    rw [← List.cons_append]
    refine List.forall_mem_append.mpr ⟨fun step hstep e he hentry => ?_, hrests⟩
    obtain ⟨hsettled, hready⟩ := hblock.2 step hstep e he hentry
    exact ⟨hsettled, hlater hready⟩
  | plain hanswer _ ih =>
    have hr := hscript.1.elim id And.right
    obtain ⟨hs', hrests⟩ := ih (hscript.2 _) (hs.of_answer hr hanswer)
    refine ⟨hs', List.forall_mem_cons.mpr ⟨?_, hrests⟩⟩
    rintro e rfl
    cases hanswer

end Entry

/-! ## Compilations -/

theorem settled_empty (j : Job) : j.Settled {} :=
  fun hmade => Bool.noConfusion hmade

theorem asks_sections_besides_pass (j : Job) (options : Options) :
    (j.sections options).Asks (· ≠ .beginPass) (· ≠ .beginPass) false := by
  refine (j.asks_sections options _ false).mono ?_ (fun _ => id) id
  rintro r hr rfl
  exact hr

theorem mem_alwaysEmitted (hb : j.backend = t.backend) {c : NodeId} (hc : c < j.graph.size)
    (htype : (j.node c).type ∈ ["serial_setup", "servo_attach", "interrupt_attach"]) :
    c ∈ j.alwaysEmitted := by
  refine List.mem_filter.mpr ⟨List.mem_range.mpr hc, ?_⟩
  rw [hb, Target.backend, TypeSet.contains_ofList]
  exact htype

/-- **Blocks of the pass are found anywhere, and replayed once.**  Let a compilation generate an
entry point, and let a block of the graph set up the serial line, a servo or an interrupt, wherever
it stands.  Whenever the entry point is generated, the setup holds exactly one entry for each symbol
of the block when its code is made, and the code consists of what the slots of the entry point turn
into and of one piece for each entry of the setup, in their order: the line of the entry, with a
single line feed in place of those at its end, and one unit further in on the Arduino.  In the end
there is exactly one declaration for each symbol that the block declares. -/
theorem setup_replayed (h : j.graph.Built) (hb : j.backend = t.backend) (options : Options)
    {e : NodeId} (hentry : j.isEntry e = true)
    (he : e ∈ Step.blocks (j.compilationSteps options)) {c : NodeId} (hc : c < j.graph.size)
    (htype : (j.node c).type ∈ ["serial_setup", "servo_attach", "interrupt_attach"]) :
    (∀ step ∈ j.compilationSteps options, step.request = .generate e →
      ∃ s₁ setup loop s' text,
        j.play? (Blocks.programSlots t j (j.node e)) s₁ = some ((setup, loop), s') ∧
        j.play? (Script.generate e) step.run = some (.statement text, s') ∧
        ∀ symbol ∈ j.setupSymbols c, ∃ before registered after lines line lines',
          s'.setups.entries = before ++ (symbol, registered) :: after ∧
          symbol ∉ before.map (·.1) ∧ symbol ∉ after.map (·.1) ∧
          Collector.AreLines lines before ∧ Text.IsStem line registered ∧
          Collector.AreLines lines' after ∧
          text = Blocks.program t
            (String.join (lines.map (j.setupPiece t)) ++ j.setupPiece t line ++
              String.join (lines'.map (j.setupPiece t))) setup loop) ∧
    ∀ symbol ∈ j.declarationSymbols c,
      ((j.compileRun options).2.declarations.entries.map (·.1)).count symbol = 1 := by
  have hf := h.isForest
  have hmem := mem_alwaysEmitted hb hc htype
  obtain ⟨sections, s, hplay⟩ := exists_play? hf (j.sections options) {}
  have hcourse : j.Course (j.sections options) {} (j.compilationSteps options) sections s :=
    course_of_play? hplay
  obtain ⟨-, hentries⟩ :=
    hcourse.settled hb hf (j.asks_sections_besides_pass options) j.settled_empty
  constructor
  · intro step hstep hrequest
    obtain ⟨hsettled, -⟩ := hentries step hstep e hrequest hentry
    obtain ⟨s₁, setup, loop, s', hslots, hcode, hprepared, -⟩ :=
      exists_play?_of_isEntry hb hf hentry hsettled
    refine ⟨s₁, setup, loop, s', _, hslots, hcode, fun symbol hsymbol => ?_⟩
    -- A symbol is collected once, so the entry for it splits the setup.
    have hle := (hcourse.precedes_at step hstep).trans (precedes_of_play? hcode)
    have hstep := hle.inStep_setups Collector.inStep_empty
    obtain ⟨before, registered, after, hsplit, hbefore, hafter⟩ :=
      hstep.exists_split (hprepared c hmem symbol hsymbol)
    obtain ⟨lines, line, lines', hlines, hline, hlines', hsetup⟩ := j.inSetup_flush_split t hsplit
    refine ⟨before, registered, after, lines, line, lines', hsplit, hbefore, hafter, hlines, hline,
      hlines', ?_⟩
    rw [hsetup]
  · intro symbol hsymbol
    obtain ⟨step, hstep, hrequest⟩ := Step.mem_blocks.mp he
    obtain ⟨-, -, hdeclared⟩ := hentries step hstep e hrequest hentry
    have hrun : (j.compileRun options).2.declarations = s.declarations := by
      rw [compileRun_of_play? hplay]
      rfl
    rw [hrun]
    have hinStep := hcourse.precedes.inStep_declarations Collector.inStep_empty
    exact hinStep.count_eq_one (hdeclared c hmem symbol hsymbol)

/-- Two entry points, the second in the loop of the first, and two servos of the same name: one in
the slot of a stray condition, where nothing is generated, and one behind the first entry point. -/
def hiddenDraft : Draft :=
  [.node "main" "arduino_entry", .node "again" "arduino_entry", .node "stray" "controls_if",
    .node "arm" "servo_attach", .node "hand" "servo_attach", .setField 3 "PIN" "5",
    .setStatement 0 "LOOP" 1, .setStatement 2 "DO0" 3, .setNext 0 4].foldl
      (fun d e => Draft.Edit.apply e d) {}

theorem hiddenDraft_reachable : hiddenDraft.Reachable :=
  Draft.reachable_of_edits rfl

/-- The compilation of the graph of `hiddenDraft`. -/
def hiddenJob : Job :=
  ⟨hiddenDraft.toGraph, Target.arduino.backend⟩

theorem hiddenJob_built : hiddenJob.graph.Built :=
  hiddenDraft_reachable.built rfl

/-- The code of the inner entry point. -/
def hiddenSketch : String :=
  "void setup() \x7b\n  servo.attach(5);\n\x7d\n\nvoid loop() \x7b\n\x7d\n"

/-- The inner entry point attaches the servo of the stray condition, and it is declared once. -/
theorem setup_replayed_hidden :
    hiddenJob.graph.Built ∧ hiddenJob.isEntry 1 = true ∧
      1 ∈ Step.blocks (hiddenJob.compilationSteps {}) ∧ 3 < hiddenJob.graph.size ∧
      (hiddenJob.node 3).type = "servo_attach" ∧
      (∃ step ∈ hiddenJob.compilationSteps {}, step.request = .generate 1 ∧
        ∃ s' line setup loop,
          hiddenJob.play? (Script.generate 1) step.run = some (.statement hiddenSketch, s') ∧
          s'.setups.entries = [("servo_attach_servo", "servo.attach(5);")] ∧
          Text.IsStem line "servo.attach(5);" ∧
          hiddenSketch = Blocks.program .arduino (hiddenJob.setupPiece .arduino line) setup loop) ∧
      hiddenJob.setupPiece .arduino "servo.attach(5);" = "  servo.attach(5);\n" ∧
      ((hiddenJob.compileRun {}).2.declarations.entries.map (·.1)).count "servo_servo" = 1 := by
  have hentry : hiddenJob.isEntry 1 = true := by decide
  have he : 1 ∈ Step.blocks (hiddenJob.compilationSteps {}) := by decide +kernel
  have hc : 3 < hiddenJob.graph.size := by decide
  have htype : (hiddenJob.node 3).type = "servo_attach" := by decide
  have hruns : ∀ step ∈ hiddenJob.compilationSteps {}, step.block? = some 1 →
      (hiddenJob.play? (Script.generate 1) step.run).map (fun e => (e.1, e.2.setups.entries)) =
        some (.statement hiddenSketch, [("servo_attach_servo", "servo.attach(5);")]) := by
    decide +kernel
  obtain ⟨hreplayed, hdeclared⟩ :=
    setup_replayed (t := .arduino) hiddenJob_built rfl {} hentry he hc (by rw [htype]; decide)
  obtain ⟨step, hstep, hrequest⟩ := Step.mem_blocks.mp he
  obtain ⟨-, setup, loop, s', text, -, hcode, hlines⟩ := hreplayed step hstep hrequest
  have hrun := hruns step hstep (by rw [Step.block?, hrequest])
  rw [hcode] at hrun
  obtain ⟨htext, hentries⟩ := Prod.ext_iff.mp (Option.some.inj hrun)
  obtain ⟨before, registered, after, lines, line, lines', hsplit, -, -, hbefore, hline, hafter,
    hprogram⟩ := hlines "servo_attach_servo" (by decide +kernel)
  obtain ⟨rfl, heq, rfl⟩ : before = [] ∧ registered = "servo.attach(5);" ∧ after = [] := by
    rw [show s'.setups.entries = _ from hentries] at hsplit
    cases before with
    | nil =>
      cases hsplit
      exact ⟨rfl, rfl, rfl⟩
    | cons _ before => simp at hsplit
  cases hbefore
  cases hafter
  cases htext
  subst heq
  refine ⟨hiddenJob_built, hentry, he, hc, htype, ⟨step, hstep, hrequest, s', line, setup, loop,
    hcode, hentries, hline, ?_⟩, by decide +kernel, hdeclared "servo_servo" (by decide +kernel)⟩
  rw [hprogram]
  simp

end Job

end BlockCompiler
