import BlockCompiler.Proofs.Generation.Statements

/-!
# The layout of MicroPython sources

The statements of all blocks are laid out by indentation, and so is the source that the
sections, the declarations and the banner make up.  A line that opens a block is therefore
followed by a statement one step further in (`Job.header_has_statement`).

Three things have to be asked of the program: fields hold no line feeds, a loop exit
stands in a loop, and the text of a number is no comment and does not end in a colon
(`Job.KeepsLayout`).  Without the second a body may consist of a comment alone
(`Job.header_without_statement`).
-/

namespace BlockCompiler

open Text Script

/-! ## All blocks -/

/-- The kinds of blocks that turn into expressions. -/
def BlockKind.isExpression : BlockKind → Bool
  | number | arithmetic | boolean | comparison | logic | negation | text | variableValue
  | digitalRead | analogRead | milliseconds | callExpression => true
  | _ => false

/-- No expression stands at top level. -/
theorem Job.isPlaced_eq_false {j : Job} {t : Target} (hb : j.backend = t.backend) {type : String}
    {kind : BlockKind} (hmem : (type, kind) ∈ t.typeKinds) (hkind : kind.isExpression = true) :
    j.isPlaced type = false := by
  have hlisted : ∀ e ∈ t.typeKinds, e.2.isExpression = true →
      e.1 ∉ [t.entryType, "procedures_defnoreturn", "procedures_defreturn"] ∧
      e.1 ∉ ["serial_setup", "servo_attach", "interrupt_attach"] := by
    cases t <;> decide
  obtain ⟨hcontainer, halways⟩ := hlisted _ hmem hkind
  rw [isPlaced, hb, Bool.or_eq_false_iff, Bool.eq_false_iff, Bool.eq_false_iff]
  exact ⟨fun h => hcontainer ((TypeSet.contains_ofList _ _).mp h),
    fun h => halways ((TypeSet.contains_ofList _ _).mp h)⟩

namespace Job

variable {j : Job} (hb : j.backend = Target.microPython.backend)

theorem obeys_guarded {i : NodeId} {script : Script Code}
    (h : j.graph.isInside j.backend.containers i = true →
      script.Obeys j.layout Code.IsStatements) :
    (j.guarded i script).Obeys j.layout Code.IsStatements :=
  obeys_guarded_of isBlock_empty h

/-- The fields of the block are of one line, a loop exit stands in a loop, and the text of a number
is no comment and does not end in a colon. -/
structure KeepsLayout (j : Job) (i : NodeId) : Prop where
  plain : (j.node i).IsPlain
  exit : (j.node i).type = "controls_flow_statements" →
    j.graph.isInside j.backend.containers i = true → j.standsInLoop i = true
  number : (j.node i).type = "math_number" →
    (trim ((j.node i).fieldOr "NUM" "0")).toList.head? ≠ some '#' ∧
      (trim ((j.node i).fieldOr "NUM" "0")).toList.getLast? ≠ some ':'

instance (j : Job) (i : NodeId) : Decidable (j.KeepsLayout i) :=
  have : Decidable (j.node i).IsPlain := inferInstanceAs (Decidable (∀ e ∈ _, _))
  decidable_of_iff (_ ∧ _ ∧ _)
    ⟨fun ⟨plain, exit, number⟩ => ⟨plain, exit, number⟩, fun h => ⟨h.plain, h.exit, h.number⟩⟩

include hb

theorem obeys_script {i : NodeId} (hi : j.KeepsLayout i) {kind : BlockKind}
    (hmem : ((j.node i).type, kind) ∈ Target.microPython.typeKinds) :
    (Generator.script ⟨.microPython, kind⟩ j i).Obeys j.layout (j.layout.code i) := by
  have hstatements : ∀ script : Script Code, script.Obeys j.layout Code.IsStatements →
      script.Obeys j.layout (j.layout.code i) := fun _ h => h.mono fun _ => Or.inl
  have hinline : kind.isExpression = true → ∀ script : Script Code,
      script.Obeys j.layout Code.IsInline → script.Obeys j.layout (j.layout.code i) :=
    fun hkind _ h => h.mono fun _ hc => Or.inr ⟨hc, isPlaced_eq_false hb hmem hkind⟩
  -- Expressions are no statements, so where one stands at top level it is not placed.
  cases kind with
  | entry => exact hstatements _ (Blocks.obeys_entry hb)
  | procedure => exact hstatements _ (Blocks.obeys_procedure hb i)
  | serialSetup => exact hstatements _ (Blocks.obeys_serialSetup hi.plain)
  | servoAttach => exact hstatements _ (Blocks.obeys_servoAttach hi.plain)
  | interruptAttach => exact hstatements _ (Blocks.obeys_interruptAttach hi.plain)
  | conditional => exact hstatements _ (obeys_guarded fun _ => Blocks.obeys_conditional hb)
  | repeatLoop => exact hstatements _ (obeys_guarded fun _ => Blocks.obeys_repeatLoop hb)
  | conditionLoop => exact hstatements _ (obeys_guarded fun _ => Blocks.obeys_conditionLoop hb)
  | countingLoop => exact hstatements _ (obeys_guarded fun _ => Blocks.obeys_countingLoop hb)
  | loopExit =>
    -- Outside of loops there is only a comment, which would leave a body without a statement.
    have htype : (j.node i).type = "controls_flow_statements" := by
      have hlisted : ∀ e ∈ Target.microPython.typeKinds, e.2 = .loopExit →
          e.1 = "controls_flow_statements" := by decide
      exact hlisted _ hmem rfl
    exact hstatements _ (obeys_guarded fun hinside =>
      Blocks.obeys_loopExit hb (hi.exit htype hinside))
  | returnStatement => exact hstatements _ (obeys_guarded fun _ => Blocks.obeys_returnStatement hb)
  | timedRepeat => exact hstatements _ (obeys_guarded fun _ => Blocks.obeys_timedRepeat hb)
  | assignment => exact hstatements _ (Blocks.obeys_assignment hb)
  | digitalWrite => exact hstatements _ (Blocks.obeys_digitalWrite hb hi.plain)
  | analogWrite => exact hstatements _ (Blocks.obeys_analogWrite hb hi.plain)
  | serialPrint => exact hstatements _ (Blocks.obeys_serialPrint hb)
  | delay => exact hstatements _ (Blocks.obeys_delay hb)
  | servoWrite => exact hstatements _ (Blocks.obeys_servoWrite hb)
  | callStatement => exact hstatements _ (Blocks.obeys_callStatement hb)
  | number =>
    have htype : (j.node i).type = "math_number" := by
      have hlisted : ∀ e ∈ Target.microPython.typeKinds, e.2 = .number →
          e.1 = "math_number" := by decide
      exact hlisted _ hmem rfl
    obtain ⟨hhead, hlast⟩ := hi.number htype
    have hline := hi.plain.oneLine_fieldOr "NUM" "0" (by decide)
    have hblank := (j.node i).blank_fieldOr "NUM" "0" rfl
    exact hinline rfl _ (obeys_pure (inline_trim hline hblank hhead hlast))
  | boolean => exact hinline rfl _ (obeys_pure (Blocks.isInline_boolean _))
  | text => exact hinline rfl _ (obeys_pure (inline_literal _))
  | variableValue => exact hinline rfl _ (obeys_pure (inline_nameField _ "VAR" "item" (by decide)))
  | arithmetic => exact hinline rfl _ Blocks.obeys_arithmetic
  | comparison => exact hinline rfl _ Blocks.obeys_comparison
  | logic => exact hinline rfl _ Blocks.obeys_logic
  | negation => exact hinline rfl _ Blocks.obeys_negation
  | digitalRead => exact hinline rfl _ (Blocks.obeys_digitalRead hi.plain)
  | analogRead => exact hinline rfl _ (Blocks.obeys_analogRead hi.plain)
  | milliseconds => exact hinline rfl _ Blocks.obeys_milliseconds
  | callExpression => exact hinline rfl _ (Blocks.obeys_call.result fun _ h => h)

theorem obeys_blockScript {i : NodeId} (hi : j.KeepsLayout i) :
    (j.blockScript i).Obeys j.layout (j.layout.code i) :=
  obeys_blockScript_of hb (Or.inl isBlock_empty) fun _ hmem => obeys_script hb hi hmem

/-! ## The source -/

theorem isLaid_jobComment (text : String) : IsLaid 4 (j.comment text) := by
  rw [comment, formatting, hb]
  exact isLaid_comment text

theorem obeys_topLevel (options : Options) (i : NodeId) :
    (j.topLevel options i).Obeys j.layout (IsLaid 4) := by
  simp only [topLevel]
  split
  · rename_i hplaced
    refine (obeys_notice _).bind fun _ _ => (obeys_generate i).result fun code hcode => ?_
    cases code with
    | statement text => exact (hcode.resolve_right fun h => h.1).toIsLaid
    | expression text order =>
      obtain ⟨-, hnot⟩ := hcode.resolve_left id
      rw [hplaced] at hnot
      cases hnot
  · refine (obeys_notice _).bind fun _ _ => (obeys_report _).result fun _ _ => ?_
    split
    · exact isLaid_jobComment hb _
    · exact isLaid_empty

theorem isLaid_source (h : j.graph.IsForest) (hlayout : ∀ i, j.KeepsLayout i) (options : Options) :
    IsLaid 4 (j.compile options).source := by
  refine source_of h (fun i => obeys_blockScript hb (hlayout i)) (obeys_topLevel hb options)
    (fun _ => isLaid_join) (fun parts hne hparts => ?_) (fun _ hc => (isBlock_flush hc).toIsLaid)
    (isLaid_jobComment hb _)
  refine isLaid_intercalate (fun hnil => hne (List.map_eq_nil_iff.mp hnil)) fun t ht => ?_
  obtain ⟨text, htext, rfl⟩ := List.mem_map.mp ht
  exact (hparts text htext).trimLineFeeds

omit hb in
/-- A position without a block gives no code. -/
theorem keepsLayout_of_size_le {i : NodeId} (h : j.graph.size ≤ i) : j.KeepsLayout i := by
  have hnode : j.node i = default := j.graph.node_of_size_le h
  refine ⟨?_, ?_, ?_⟩ <;> rw [hnode]
  · exact fun _ he => nomatch he
  · exact fun htype => nomatch htype
  · exact fun htype => nomatch htype

/-- **Every header has a statement below it.**  A line of a MicroPython source that ends in a colon
and is no comment is followed by a statement, one step of indentation further in. -/
theorem header_has_statement (h : j.graph.Built) (hlayout : ∀ i < j.graph.size, j.KeepsLayout i)
    (options : Options) {k : Nat} {header : String}
    (hheader : (lines (j.compile options).source)[k]? = some header)
    (hopens : opensBlock header.toList = true) :
    ∃ body, (lines (j.compile options).source)[k + 1]? = some body ∧
      isStatement body.toList = true ∧
      indentation body.toList = indentation header.toList + j.formatting.indentUnit.length := by
  have hall : ∀ i, j.KeepsLayout i := fun i =>
    (Nat.lt_or_ge i j.graph.size).elim (hlayout i) keepsLayout_of_size_le
  have hlaid := isLaid_source hb h.isForest hall options
  have hunit : j.formatting.indentUnit.length = 4 := by
    rw [formatting, hb]
    rfl
  rw [lines, List.getElem?_map] at hheader
  obtain ⟨line, hline, rfl⟩ := Option.map_eq_some_iff.mp hheader
  rw [String.toList_ofList] at hopens
  obtain ⟨next, hnext, hstatement, hindentation⟩ :=
    getElem?_succ_of_layered hlaid.layered hline hopens
  refine ⟨String.ofList next, ?_, ?_, ?_⟩
  · rw [lines, List.getElem?_map, hnext]
    rfl
  · rw [String.toList_ofList]
    exact hstatement
  · rw [String.toList_ofList, String.toList_ofList, hunit]
    exact hindentation

end Job

namespace Job

/-- A program with an empty conditional in its loop and a loop that is left at once. -/
def hollowDraft : Draft :=
  [.node "main" "micropython_entry", .node "test" "controls_if",
    .node "round" "controls_repeat_ext", .node "stop" "controls_flow_statements",
    .node "limit" "math_number", .setField 4 "NUM" " 3 ", .setStatement 0 "LOOP" 1, .setNext 1 2,
    .setStatement 2 "DO" 3, .setValue 2 "TIMES" 4].foldl (fun d e => Draft.Edit.apply e d) {}

theorem hollowDraft_reachable : hollowDraft.Reachable :=
  Draft.reachable_of_edits rfl

/-- The compilation of the graph of `hollowDraft`. -/
def hollowJob : Job :=
  ⟨hollowDraft.toGraph, Target.microPython.backend⟩

/-- The empty branch of the conditional gets its statement. -/
theorem header_has_statement_hollow :
    hollowJob.graph.Built ∧ (∀ i < hollowJob.graph.size, hollowJob.KeepsLayout i) ∧
      (lines (hollowJob.compile { banner := false }).source)[1]? = some "    if False:" ∧
      ∃ body, (lines (hollowJob.compile { banner := false }).source)[2]? = some body ∧
        isStatement body.toList = true ∧ indentation body.toList = 8 := by
  have hbuilt : hollowJob.graph.Built := hollowDraft_reachable.built rfl
  have hlayout : ∀ i < hollowJob.graph.size, hollowJob.KeepsLayout i := by
    decide +kernel
  have hheader : (lines (hollowJob.compile { banner := false }).source)[1]? =
      some "    if False:" := by
    decide +kernel
  exact ⟨hbuilt, hlayout, hheader,
    header_has_statement rfl hbuilt hlayout { banner := false } hheader (by decide)⟩

/-- A loop exit as the only block in the loop of a program. -/
def bareDraft : Draft :=
  [.node "main" "micropython_entry", .node "stop" "controls_flow_statements",
    .setStatement 0 "LOOP" 1].foldl (fun d e => Draft.Edit.apply e d) {}

theorem bareDraft_reachable : bareDraft.Reachable :=
  Draft.reachable_of_edits rfl

/-- The compilation of the graph of `bareDraft`. -/
def bareJob : Job :=
  ⟨bareDraft.toGraph, Target.microPython.backend⟩

/-- **A body can be without a statement.**  The loop of a program is no loop that can be left, so a
comment takes the place of the exit, and since that is not blank the body is not filled. -/
theorem header_without_statement :
    bareJob.graph.Built ∧ (∀ i < bareJob.graph.size, (bareJob.node i).fields.entries = []) ∧
      lines (bareJob.compile { banner := false }).source =
        ["while True:", "    # break outside of a loop"] ∧
      opensBlock "while True:".toList = true ∧
      isStatement "    # break outside of a loop".toList = false := by
  refine ⟨bareDraft_reachable.built rfl, ?_, ?_, by decide, by decide⟩
  · decide +kernel
  · decide +kernel

end Job

end BlockCompiler
