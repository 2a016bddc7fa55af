import BlockCompiler.Proofs.Generation.Blocks
import BlockCompiler.Proofs.Generation.Outline

/-!
# The outlines of blocks

A block of a kind visits the blocks at certain places of its node, one place after the
other: `BlockKind.places` lists them.  The list does not mention a target, and the
scripts of all targets keep to it.  Apart from these visits, an entry point makes the
pass over the always-emitted blocks before it goes on, a guarded block without a
container above it makes no visit and reports itself, and so does a block whose type
has no generator.  `Job.outline` says this for a block of a graph and
`outlines_blockScript` that it is the outline of its script.
-/

namespace BlockCompiler

/-- The blocks at a place of a node: the one in a value slot, and a whole sequence elsewhere. -/
def Graph.held (g : Graph) (n : Node) (p : Place) : List NodeId :=
  match p, n.target? p with
  | .value _, some child => [child]
  | _, some head => g.chain head
  | _, none => []

/-- Visits to the blocks at some places of a node, place by place. -/
def Graph.visits (g : Graph) (n : Node) (places : List Place) : List Move :=
  places.flatMap fun p => (g.held n p).map .visit

/-- The places of its node that a block of a kind visits, in order. -/
def BlockKind.places (n : Node) : BlockKind → List Place
  | entry => [.statement "SETUP", .statement "LOOP"]
  | procedure =>
    [.statement "STACK"] ++ if Blocks.returnsValue n then [.value "RETURN"] else []
  | conditional =>
    (List.range (Blocks.branchCount n)).flatMap
      (fun i => [.value ("IF" ++ i.repr), .statement ("DO" ++ i.repr)]) ++ [.statement "ELSE"]
  | repeatLoop => [.value "TIMES", .statement "DO"]
  | conditionLoop => [.value "BOOL", .statement "DO"]
  | countingLoop => [.value "FROM", .value "TO", .value "BY", .statement "DO"]
  | returnStatement => [.value "VALUE"]
  | timedRepeat => [.value "INTERVAL", .statement "DO"]
  | assignment => [.value "VALUE"]
  | digitalWrite => [.value "STATE"]
  | analogWrite => [.value "NUM"]
  | serialPrint => [.value "CONTENT"]
  | delay => [.value "DELAY_TIME"]
  | servoWrite => [.value "DEGREE"]
  | callStatement | callExpression =>
    (List.range (n.slotCount ["ARG"])).flatMap fun i => [.value ("ARG" ++ i.repr)]
  | arithmetic | comparison | logic => [.value "A", .value "B"]
  | negation => [.value "BOOL"]
  | serialSetup | servoAttach | interruptAttach | loopExit | number | boolean | text
  | variableValue | digitalRead | analogRead | milliseconds => []

/-! ## Scripts that visit places -/

/-- The moves of the script are visits to the blocks at the places, in order. -/
def Job.Visits {α : Type} (j : Job) (n : Node) (places : List Place) (script : Script α) : Prop :=
  script.Outlines (j.graph.visits n places)

section Closure

variable {α β γ : Type} {j : Job} {n : Node} {p q : List Place}

theorem Job.visits_pure (a : α) : j.Visits n [] (pure a : Script α) :=
  .pure a

/-- Scripts one after the other visit the places of both. -/
theorem Job.Visits.bind {script : Script α} {f : α → Script β} (h : j.Visits n p script)
    (hf : ∀ a, j.Visits n q (f a)) : j.Visits n (p ++ q) (script >>= f) := by
  rw [Visits, Graph.visits, List.flatMap_append]
  exact Script.Outlines.bind h hf

theorem Job.Visits.result {script : Script α} (h : j.Visits n p script) (f : α → β) :
    j.Visits n p (do return f (← script) : Script β) :=
  Script.Outlines.result h f

/-- A script for each member of a list visits the places of all members. -/
theorem Job.Visits.mapM {f : γ → Script β} {places : γ → List Place} {xs : List γ}
    (h : ∀ x ∈ xs, j.Visits n (places x) (f x)) : j.Visits n (xs.flatMap places) (xs.mapM f) := by
  rw [Visits, Graph.visits, List.flatMap_assoc]
  exact Script.Outlines.mapM h

end Closure

namespace Blocks

open Job

variable {t : Target} {j : Job} {n : Node} {i : NodeId}

theorem visits_declare (symbol text : String) : j.Visits n [] (Script.declare symbol text) :=
  .quiet trivial fun _ => .done _

theorem visits_setup (symbol text : String) : j.Visits n [] (Script.setup symbol text) :=
  .quiet trivial fun _ => .done _

theorem visits_notice (notice : Notice) : j.Visits n [] (Script.notice notice) :=
  .quiet trivial fun _ => .done _

theorem visits_setPinMode (pin : String) (mode : PinMode) : j.Visits n [] (setPinMode pin mode) :=
  .quiet trivial fun _ => .done _

theorem visits_setupLines : j.Visits n [] Script.setupLines :=
  .quiet trivial fun _ => .done _

/-! ## Slots -/

/-- The code of a value slot is asked for once. -/
theorem visits_valueCode? (slot : String) (outer : Order) :
    j.Visits n [.value slot] (j.valueCode? n slot outer) := by
  have hheld : j.graph.visits n [.value slot] = (n.values.get? slot).toList.map .visit := by
    simp only [Graph.visits, List.flatMap_singleton, Graph.held, Node.target?]
    cases n.values.get? slot <;> rfl
  rw [Visits, hheld, Job.valueCode?]
  cases n.values.get? slot with
  | none => exact .pure _
  | some child =>
    refine .visit fun code => ?_
    cases code with
    | expression text inner => exact .pure _
    | statement text =>
      show (if !text.isEmpty then _ else _ : Script _).Outlines []
      split
      · exact .quiet trivial fun _ => .pure _
      · exact .pure _

theorem visits_valueCode (slot : String) (outer : Order) (fallback : String) :
    j.Visits n [.value slot] (j.valueCode n slot outer fallback) :=
  (visits_valueCode? slot outer).result _

/-- A slot with statements stands for a visit to each block of the sequence in it. -/
theorem visits_statement_of_some {slot : String} {head : NodeId}
    (hhead : n.statements.get? slot = some head) :
    j.graph.visits n [.statement slot] = (j.graph.chain head).flatMap fun c => [.visit c] := by
  simp [Graph.visits, Graph.held, Node.target?, hhead, List.map_eq_flatMap]

theorem visits_statement_of_none {slot : String} (hnone : n.statements.get? slot = none) :
    j.graph.visits n [.statement slot] = [] := by
  simp [Graph.visits, Graph.held, Node.target?, hnone]

/-- The blocks of a sequence are visited in their order. -/
theorem visits_chainCode {slot : String} {head : NodeId}
    (hhead : n.statements.get? slot = some head) :
    j.Visits n [.statement slot] (j.chainCode head) := by
  rw [Visits, visits_statement_of_some hhead]
  refine Script.Outlines.result (Script.Outlines.mapM fun c _ => ?_) _
  exact .visit fun _ => .pure _

/-- An empty slot is not visited at all, as the outline has it. -/
theorem visits_slotCode (slot : String) : j.Visits n [.statement slot] (j.slotCode n slot) := by
  unfold Job.slotCode
  cases hhead : n.statements.get? slot with
  | none =>
    rw [Visits, visits_statement_of_none hhead]
    exact .pure _
  | some head => exact (visits_chainCode hhead).result _

theorem visits_bodyCode (slot : String) : j.Visits n [.statement slot] (j.bodyCode n slot) :=
  (visits_slotCode slot).result _

/-- A slot that is read only where it is filled is visited all the same. -/
theorem visits_otherwise {code : String → Script String} {slot : String}
    (hcode : j.Visits n [.statement slot] (code slot)) (f : String → String) :
    j.Visits n [.statement slot]
      (if n.statements.contains slot then do return f (← code slot) else return "") := by
  split
  · exact hcode.result f
  · rename_i hnot
    have hnone : n.statements.get? slot = none := by
      simpa [Dict.contains] using hnot
    rw [Visits, visits_statement_of_none hnone]
    exact .pure _

/-! ## Expressions -/

/-- Operands are visited from left to right. -/
theorem visits_binary (sign : String) (order : Order) (fallback : String) :
    j.Visits n [.value "A", .value "B"] (binary j n sign order fallback) :=
  (visits_valueCode _ _ _).bind fun _ => (visits_valueCode _ _ _).result _

/-- Whether an operator is written as a sign or as a call makes no difference to the visits. -/
theorem visits_applyArithmetic (op : ArithmeticOp) :
    j.Visits n [.value "A", .value "B"] (applyArithmetic t j n op) := by
  unfold applyArithmetic
  split
  · exact (visits_valueCode _ _ _).bind fun _ => (visits_valueCode _ _ _).result _
  · exact visits_binary _ _ _

theorem visits_arithmetic : j.Visits n [.value "A", .value "B"] (arithmetic t j n) := by
  simp only [arithmetic]
  cases ArithmeticOp.ofField? (n.fieldOr "OP" "ADD") with
  | some op => exact visits_applyArithmetic op
  | none => exact (visits_notice _).bind fun _ => visits_applyArithmetic .add

theorem visits_negation : j.Visits n [.value "BOOL"] (negation t j n) :=
  (visits_valueCode _ _ _).result _

/-- Arguments are visited in the order of their numbers. -/
theorem visits_call :
    j.Visits n (BlockKind.callExpression.places n) (call t j n) :=
  (Visits.mapM fun _ _ => visits_valueCode _ _ _).result _

theorem visits_digitalRead : j.Visits n [] (digitalRead t n) := by
  cases t with
  | arduino => exact (visits_setPinMode _ _).bind fun _ => visits_pure _
  | microPython =>
    exact (visits_declare _ _).bind fun _ => (visits_declare _ _).bind fun _ => visits_pure _

theorem visits_analogRead : j.Visits n [] (analogRead t n) := by
  cases t with
  | arduino => exact visits_pure _
  | microPython =>
    exact (visits_declare _ _).bind fun _ => (visits_declare _ _).bind fun _ =>
      (visits_declare _ _).bind fun _ => visits_pure _

theorem visits_milliseconds : j.Visits n [] (milliseconds t) := by
  cases t with
  | arduino => exact visits_pure _
  | microPython => exact (visits_declare _ _).bind fun _ => visits_pure _

/-! ## Statements -/

/-- Blocks that are generated wherever they stand visit no other. -/
theorem visits_serialSetup : j.Visits n [] (serialSetup t n) := by
  cases t with
  | arduino => exact (visits_setup _ _).bind fun _ => visits_pure _
  | microPython =>
    exact (visits_declare _ _).bind fun _ => (visits_setup _ _).bind fun _ => visits_pure _

theorem visits_servoAttach : j.Visits n [] (servoAttach t n) := by
  cases t <;>
    exact (visits_declare _ _).bind fun _ => (visits_declare _ _).bind fun _ =>
      (visits_setup _ _).bind fun _ => visits_pure _

theorem visits_interruptTrigger : j.Visits n [] (interruptTrigger t n) := by
  simp only [interruptTrigger]
  cases interruptTrigger? t (n.fieldOr "MODE" "RISING") with
  | some trigger => exact visits_pure _
  | none => exact (visits_notice _).bind fun _ => visits_pure _

theorem visits_interruptAttach : j.Visits n [] (interruptAttach t n) := by
  refine Visits.bind (q := []) visits_interruptTrigger fun trigger => ?_
  cases t with
  | arduino =>
    exact (visits_declare _ _).bind fun _ => (visits_setup _ _).bind fun _ => visits_pure _
  | microPython =>
    exact (visits_declare _ _).bind fun _ => (visits_setup _ _).bind fun _ =>
      (visits_setup _ _).bind fun _ => visits_pure _

theorem visits_digitalWrite : j.Visits n [.value "STATE"] (digitalWrite t j n) := by
  cases t with
  | arduino => exact (visits_setPinMode _ _).bind fun _ => (visits_valueCode _ _ _).result _
  | microPython =>
    exact (visits_declare _ _).bind fun _ => (visits_declare _ _).bind fun _ =>
      (visits_valueCode _ _ _).result _

theorem visits_analogWrite : j.Visits n [.value "NUM"] (analogWrite t j n) := by
  cases t with
  | arduino => exact (visits_setPinMode _ _).bind fun _ => (visits_valueCode _ _ _).result _
  | microPython =>
    exact (visits_declare _ _).bind fun _ => (visits_declare _ _).bind fun _ =>
      (visits_declare _ _).bind fun _ => (visits_valueCode _ _ _).result _

theorem visits_delay : j.Visits n [.value "DELAY_TIME"] (delay t j n) := by
  cases t with
  | arduino => exact (visits_valueCode _ _ _).result _
  | microPython => exact (visits_declare _ _).bind fun _ => (visits_valueCode _ _ _).result _

theorem visits_serialPrint : j.Visits n [.value "CONTENT"] (serialPrint t j n) := by
  cases t <;> exact (visits_valueCode _ _ _).result _

theorem visits_servoWrite : j.Visits n [.value "DEGREE"] (servoWrite t j n) := by
  cases t with
  | arduino => exact (visits_valueCode _ _ _).result _
  | microPython => exact (visits_declare _ _).bind fun _ => (visits_valueCode _ _ _).result _

theorem visits_assignment : j.Visits n [.value "VALUE"] (assignment t j n) := by
  cases t <;> exact (visits_declare _ _).bind fun _ => (visits_valueCode _ _ _).result _

/-! ## Control blocks -/

/-- Conditions and branches take turns, and the last branch comes after them. -/
theorem visits_conditional :
    j.Visits n (BlockKind.conditional.places n) (conditional t j n) := by
  cases t with
  | arduino =>
    refine Visits.bind (Visits.mapM fun k _ => ?_) fun _ => Visits.result ?_ _
    · exact (visits_valueCode _ _ _).bind fun _ => (visits_slotCode _).result _
    · exact visits_otherwise (visits_slotCode "ELSE") _
  | microPython =>
    refine Visits.bind (Visits.mapM fun k _ => ?_) fun _ => Visits.result ?_ _
    · exact (visits_valueCode _ _ _).bind fun _ => (visits_bodyCode _).result _
    · exact visits_otherwise (visits_bodyCode "ELSE") _

theorem visits_repeatLoop :
    j.Visits n [.value "TIMES", .statement "DO"] (repeatLoop t j n) := by
  cases t with
  | arduino => exact (visits_valueCode _ _ _).bind fun _ => (visits_slotCode _).result _
  | microPython => exact (visits_valueCode _ _ _).bind fun _ => (visits_bodyCode _).result _

theorem visits_loopCondition : j.Visits n [.value "BOOL"] (loopCondition t j n) := by
  unfold loopCondition
  split
  · exact (visits_valueCode _ _ _).result _
  · exact visits_valueCode _ _ _

theorem visits_conditionLoop :
    j.Visits n [.value "BOOL", .statement "DO"] (conditionLoop t j n) := by
  refine visits_loopCondition.bind (q := [.statement "DO"]) fun _ => ?_
  cases t with
  | arduino => exact (visits_slotCode _).result _
  | microPython => exact (visits_bodyCode _).result _

/-- The bounds and the step come before the body. -/
theorem visits_countingLoop :
    j.Visits n [.value "FROM", .value "TO", .value "BY", .statement "DO"]
      (countingLoop t j n) := by
  cases t with
  | arduino =>
    exact (visits_declare _ _).bind fun _ => (visits_valueCode _ _ _).bind fun _ =>
      (visits_valueCode _ _ _).bind fun _ => (visits_valueCode _ _ _).bind fun _ =>
        (visits_slotCode _).result _
  | microPython =>
    exact (visits_declare _ _).bind fun _ => (visits_valueCode _ _ _).bind fun _ =>
      (visits_valueCode _ _ _).bind fun _ => (visits_valueCode _ _ _).bind fun _ =>
        (visits_bodyCode _).result _

theorem visits_loopExit : j.Visits n [] (loopExit j i n) := by
  unfold loopExit
  cases j.standsInLoop i with
  | true => exact visits_pure _
  | false => exact (visits_notice _).bind fun _ => visits_pure _

theorem visits_returnStatement : j.Visits n [.value "VALUE"] (returnStatement j n) := by
  refine (visits_valueCode? _ _).bind (q := []) fun value => ?_
  cases value <;> exact visits_pure _

theorem visits_timedRepeat :
    j.Visits n [.value "INTERVAL", .statement "DO"] (timedRepeat t j n) := by
  cases t with
  | arduino =>
    exact (visits_declare _ _).bind fun _ => (visits_valueCode _ _ _).bind fun _ =>
      (visits_slotCode _).result _
  | microPython =>
    exact (visits_declare _ _).bind fun _ => (visits_declare _ _).bind fun _ =>
      (visits_valueCode _ _ _).bind fun _ => (visits_slotCode _).result _

/-! ## Routines -/

/-- Only a procedure that returns a value visits the slot for it. -/
theorem visits_returnLine :
    j.Visits n (if returnsValue n then [.value "RETURN"] else []) (returnLine j n) := by
  unfold returnLine
  cases returnsValue n with
  | true =>
    refine (visits_valueCode? _ _).bind (q := []) fun value => ?_
    cases value <;> exact visits_pure _
  | false => exact visits_pure _

/-- The statements of a procedure are visited before the value that it returns. -/
theorem visits_procedure : j.Visits n (BlockKind.procedure.places n) (procedure t j i n) := by
  cases t with
  | arduino =>
    exact (visits_declare _ _).bind fun _ => (visits_slotCode _).bind fun _ =>
      visits_returnLine.result _
  | microPython => exact (visits_slotCode _).bind fun _ => visits_returnLine.result _

/-- The pass is one move, to all blocks that are generated wherever they stand. -/
theorem outlines_alwaysEmittedPass : j.alwaysEmittedPass.Outlines [.pass j.alwaysEmitted] := by
  refine .pass (.pure _) ?_
  have hforM : (j.alwaysEmitted.forM j.emitAside).Outlines
      (j.alwaysEmitted.flatMap fun c => [.visit c]) := by
    refine Script.Outlines.forM fun c _ => .visit fun code => ?_
    show (if !code.isEmpty then _ else _ : Script _).Outlines []
    split
    · exact .quiet trivial fun _ => .done _
    · exact .pure _
  rw [List.append_nil, List.map_eq_flatMap]
  exact hforM

/-- An entry point makes the pass before it visits its own slots. -/
theorem outlines_entry :
    (entry t j n).Outlines
      (.pass j.alwaysEmitted :: j.graph.visits n (BlockKind.entry.places n)) := by
  refine .quiet trivial fun _ => outlines_alwaysEmittedPass.bind fun _ => ?_
  cases t with
  | arduino =>
    exact (visits_slotCode (j := j) "SETUP").bind fun _ => (visits_slotCode "LOOP").bind
      (q := []) fun _ => visits_setupLines.result _
  | microPython =>
    -- The loop comes last, whether or not there is a setup before it.
    have hrest : ∀ f : String → String → Code, j.Visits n [.statement "LOOP"]
        (do return f (← j.bodyCode n "LOOP") (← Script.setupLines)) := fun f =>
      (visits_bodyCode _).bind (q := []) fun _ => visits_setupLines.result _
    dsimp only
    cases hhead : n.statements.get? "SETUP" with
    | none =>
      have hplaces : j.graph.visits n (BlockKind.entry.places n) =
          j.graph.visits n [.statement "LOOP"] := by
        simp [BlockKind.places, Graph.visits, Graph.held, Node.target?, hhead]
      show Script.Outlines _ (j.graph.visits n (BlockKind.entry.places n))
      rw [hplaces]
      exact hrest _
    | some head => exact (visits_chainCode (j := j) hhead).bind fun _ => hrest _

end Blocks

/-! ## The outline of a block -/

/-- The outline of a block whose type has a generator of the kind. -/
def BlockKind.outline (kind : BlockKind) (j : Job) (i : NodeId) : List Move :=
  if kind.isGuarded && !j.graph.isInside j.backend.containers i then
    [.remark .orphanedNested (j.node i).key]
  else
    (if kind = .entry then [.pass j.alwaysEmitted] else []) ++
      j.graph.visits (j.node i) (kind.places (j.node i))

/-- Outside of containers a guarded block reports that, and visits nothing. -/
theorem Job.outlines_guarded {j : Job} {i : NodeId} {kind : BlockKind}
    (hguarded : kind.isGuarded = true) {code : Script Code}
    (hcode : j.Visits (j.node i) (kind.places (j.node i)) code) :
    (j.guarded i code).Outlines (kind.outline j i) := by
  have hentry : kind ≠ .entry := by
    rintro rfl
    cases hguarded
  unfold guarded standsInContainer
  rw [BlockKind.outline, hguarded, if_neg hentry]
  cases j.graph.isInside j.backend.containers i with
  | true => exact hcode
  | false => exact .quiet trivial fun _ => .remark (.pure _)

/-- **The script of a kind has the outline of that kind**, for every target. -/
theorem Generator.outlines_script (g : Generator) (j : Job) (i : NodeId) :
    (g.script j i).Outlines (g.kind.outline j i) := by
  obtain ⟨t, kind⟩ := g
  cases kind with
  | entry => exact Blocks.outlines_entry
  | procedure => exact Blocks.visits_procedure (j := j)
  | serialSetup => exact Blocks.visits_serialSetup (j := j)
  | servoAttach => exact Blocks.visits_servoAttach (j := j)
  | interruptAttach => exact Blocks.visits_interruptAttach (j := j)
  | conditional => exact Job.outlines_guarded rfl Blocks.visits_conditional
  | repeatLoop => exact Job.outlines_guarded rfl Blocks.visits_repeatLoop
  | conditionLoop => exact Job.outlines_guarded rfl Blocks.visits_conditionLoop
  | countingLoop => exact Job.outlines_guarded rfl Blocks.visits_countingLoop
  | loopExit => exact Job.outlines_guarded rfl Blocks.visits_loopExit
  | returnStatement => exact Job.outlines_guarded rfl Blocks.visits_returnStatement
  | timedRepeat => exact Job.outlines_guarded rfl Blocks.visits_timedRepeat
  | assignment => exact Blocks.visits_assignment (j := j)
  | digitalWrite => exact Blocks.visits_digitalWrite (j := j)
  | analogWrite => exact Blocks.visits_analogWrite (j := j)
  | serialPrint => exact Blocks.visits_serialPrint (j := j)
  | delay => exact Blocks.visits_delay (j := j)
  | servoWrite => exact Blocks.visits_servoWrite (j := j)
  | callStatement | callExpression => exact (Blocks.visits_call (j := j)).result _
  | arithmetic => exact Blocks.visits_arithmetic (j := j)
  | comparison | logic => exact Blocks.visits_binary (j := j) _ _ _
  | negation => exact Blocks.visits_negation (j := j)
  | number | boolean | text | variableValue => exact .pure _
  | digitalRead => exact Blocks.visits_digitalRead (j := j)
  | analogRead => exact Blocks.visits_analogRead (j := j)
  | milliseconds => exact Blocks.visits_milliseconds (j := j) (n := j.node i)

namespace Job

/-- The outline of a block of a graph. -/
def outline (j : Job) (i : NodeId) : List Move :=
  match j.backend.generators.get? (j.node i).type with
  | some g => g.kind.outline j i
  | none => [.remark .missingGenerator (j.node i).key]

/-- The moves that the script of a block makes are those of its outline. -/
theorem outlines_blockScript (j : Job) (i : NodeId) : (j.blockScript i).Outlines (j.outline i) := by
  simp only [blockScript, outline]
  cases j.backend.generators.get? (j.node i).type with
  | some g => exact g.outlines_script j i
  | none => exact .quiet trivial fun _ => .remark (.pure _)

/-! ## Top level -/

/-- The outline of a block at top level. -/
def topOutline (j : Job) (i : NodeId) : List Move :=
  if j.isPlaced (j.node i).type then [.visit i]
  else [.remark .orphanedTopLevel (j.node i).key]

/-- At top level a block is visited or reported, as its type tells. -/
theorem outlines_topLevel (j : Job) (options : Options) (i : NodeId) :
    (j.topLevel options i).Outlines (j.topOutline i) := by
  simp only [topLevel, topOutline]
  cases j.isPlaced (j.node i).type with
  | true => exact .quiet trivial fun _ => .visit fun _ => .pure _
  | false => exact .quiet trivial fun _ => .remark (.pure _)

theorem outlines_stack (j : Job) (options : Options) (root : NodeId) :
    (j.stack options root).Outlines ((j.graph.chain root).flatMap j.topOutline) :=
  (Script.Outlines.mapM fun i _ => j.outlines_topLevel options i).result _

/-- The outline of a compilation. -/
def compilationOutline (j : Job) : List Move :=
  j.generationOrder.flatMap fun root => (j.graph.chain root).flatMap j.topOutline

/-- A compilation goes through the blocks at top level, root by root. -/
theorem outlines_sections (j : Job) (options : Options) :
    (j.sections options).Outlines j.compilationOutline :=
  Script.Outlines.mapM fun root _ => (j.outlines_stack options root).result _

/-- The outline of a fragment. -/
def fragmentOutline (j : Job) (i : NodeId) : List Move :=
  if j.graph.roots.contains i then (j.graph.chain i).flatMap j.topOutline else [.visit i]

/-- A preview goes through the stack of a root, and visits any other block on its own. -/
theorem outlines_fragmentScript (j : Job) (i : NodeId) :
    (j.fragmentScript i).Outlines (j.fragmentOutline i) := by
  unfold fragmentScript fragmentOutline
  split
  · exact j.outlines_stack {} i
  · exact .visit fun _ => .pure _

/-- Playing a script of a job comes to the same, on the tally, as following its outline. -/
theorem map_tally_play? {α : Type} (j : Job) {script : Script α} {moves : List Move}
    (h : script.Outlines moves) (s : Run) :
    (j.play? script s).map (·.2.tally) =
      Tally.moves (Tally.visit j.outline j.depthBound) moves s.tally :=
  h.map_tally_run (map_tally_emit j.outlines_blockScript j.depthBound) s

end Job

end BlockCompiler
