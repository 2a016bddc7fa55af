import BlockCompiler.Proofs.Generation.Blocks
import BlockCompiler.Proofs.Generation.Parallel

/-!
# Blocks in the same position

What a generator looks at is little: the key, the type and the fields of its block, what
is in the slots, the nodes around the block, and for a procedure the variables assigned
below it.  Two blocks of two graphs that agree in all this are *counterparts*
(`Job.Counterparts`), and their scripts run in parallel (`Job.parallel_blockScript`).

For the blocks that are generated wherever they stand, the type and the fields are
enough (`Job.Twins`).

On the way, what the scripts of generators ask for is restricted further than in
`Generator.Permits`: nothing that stands for a missing generator is reported or written
to the log (`Request.IsOrdinary`).
-/

namespace BlockCompiler

/-- The request is none that a missing generator gives rise to, and none for a block. -/
def Request.IsOrdinary : Request → Prop
  | .notice n | .setupBeside _ _ _ n => n.severity ≠ .error
  | .report d => d.reason ≠ .missingGenerator
  | .generate _ => False
  | .declare .. | .setup .. | .setupLines | .beginPass | .enterProgram _ => True

/-- The job for another graph. -/
@[reducible] def Job.on (j : Job) (g : Graph) : Job :=
  { j with graph := g }

/-- The blocks of two sequences are related one by one, apart from silent ones in the first. -/
inductive SequenceMatch (B : NodeId → NodeId → Prop) (Z : NodeId → Prop) :
    List NodeId → List NodeId → Prop
  | nil : SequenceMatch B Z [] []
  | cons {i i' : NodeId} {blocks blocks' : List NodeId} (hi : B i i')
      (h : SequenceMatch B Z blocks blocks') : SequenceMatch B Z (i :: blocks) (i' :: blocks')
  | skip {i : NodeId} {blocks blocks' : List NodeId} (hi : Z i)
      (h : SequenceMatch B Z blocks blocks') : SequenceMatch B Z (i :: blocks) blocks'

/-- Sequences whose blocks are related one by one match, with no silent block between them. -/
theorem SequenceMatch.of_forall₂ {B : NodeId → NodeId → Prop} {Z : NodeId → Prop}
    {blocks blocks' : List NodeId} (h : List.Forall₂ B blocks blocks') :
    SequenceMatch B Z blocks blocks' := by
  induction h with
  | nil => exact .nil
  | cons hi _ ih => exact .cons hi ih

/-- The slots of two nodes hold related blocks. -/
structure SlotsMatch (g g' : Graph) (B : NodeId → NodeId → Prop) (Z : NodeId → Prop)
    (n m : Node) : Prop where
  values : ∀ slot, Option.Rel B (n.values.get? slot) (m.values.get? slot)
  statements : ∀ slot, Option.Rel (fun a a' => SequenceMatch B Z (g.chain a) (g'.chain a'))
    (n.statements.get? slot) (m.statements.get? slot)
  slotCount : ∀ starts, m.slotCount starts = n.slotCount starts

namespace Blocks

open Script

variable {t : Target} {j : Job} {g' : Graph} {n m : Node} {i i' : NodeId}
  {B : NodeId → NodeId → Prop} {Z : NodeId → Prop} {P : Request → Prop}

/-! ## Leaves -/

section Leaves

variable (hord : ∀ r : Request, r.IsOrdinary → P r)

include hord

theorem parallel_declare (symbol text : String) :
    (Script.declare symbol text).Parallel B Z P (Script.declare symbol text) :=
  .same (hord _ trivial) (fun _ => Request.noConfusion) .done

theorem parallel_setup (symbol text : String) :
    (Script.setup symbol text).Parallel B Z P (Script.setup symbol text) :=
  .same (hord _ trivial) (fun _ => Request.noConfusion) .done

/-- The log may tell different things, apart from errors. -/
theorem parallel_notice {notice notice' : Notice} (h : notice.severity ≠ .error)
    (h' : notice'.severity ≠ .error) :
    (Script.notice notice).Parallel B Z P (Script.notice notice') :=
  .notice (hord _ h) (hord _ h') (.done _)

theorem parallel_setPinMode (pin : String) (mode : PinMode) :
    (setPinMode pin mode).Parallel B Z P (setPinMode pin mode) :=
  .same (hord _ Severity.noConfusion) (fun _ => Request.noConfusion) .done

/-- A leaf reads its fields, which do not change with the links of its node. -/
theorem parallel_digitalRead : (digitalRead t n).Parallel B Z P (digitalRead t (n.relink m)) := by
  cases t with
  | arduino => exact (parallel_setPinMode hord _ _).bind fun _ => .pure _
  | microPython =>
    exact (parallel_declare hord _ _).bind fun _ => (parallel_declare hord _ _).bind fun _ =>
      .pure _

theorem parallel_analogRead : (analogRead t n).Parallel B Z P (analogRead t (n.relink m)) := by
  cases t with
  | arduino => exact .pure _
  | microPython =>
    exact (parallel_declare hord _ _).bind fun _ => (parallel_declare hord _ _).bind fun _ =>
      (parallel_declare hord _ _).bind fun _ => .pure _

theorem parallel_milliseconds : (milliseconds t).Parallel B Z P (milliseconds t) := by
  cases t with
  | arduino => exact .pure _
  | microPython => exact (parallel_declare hord _ _).bind fun _ => .pure _

/-! The three kinds that are always emitted do not look at the key either, except for the log. -/

variable (hfields : m.fields = n.fields)

include hfields

/-- An equal type and equal fields are enough for such a block. -/
theorem parallel_serialSetup : (serialSetup t n).Parallel B Z P (serialSetup t m) := by
  obtain ⟨key, type, fields, values, statements, next, parent⟩ := m
  subst hfields
  cases t with
  | arduino => exact (parallel_setup hord _ _).bind fun _ => .pure _
  | microPython =>
    exact (parallel_declare hord _ _).bind fun _ => (parallel_setup hord _ _).bind fun _ => .pure _

theorem parallel_servoAttach : (servoAttach t n).Parallel B Z P (servoAttach t m) := by
  obtain ⟨key, type, fields, values, statements, next, parent⟩ := m
  subst hfields
  cases t <;>
    exact (parallel_declare hord _ _).bind fun _ => (parallel_declare hord _ _).bind fun _ =>
      (parallel_setup hord _ _).bind fun _ => .pure _

theorem parallel_interruptTrigger :
    (interruptTrigger t n).Parallel B Z P (interruptTrigger t m) := by
  have hmode : m.fieldOr "MODE" "RISING" = n.fieldOr "MODE" "RISING" := by
    simp only [Node.fieldOr, hfields]
  simp only [interruptTrigger, hmode]
  cases interruptTrigger? t (n.fieldOr "MODE" "RISING") with
  | some trigger => exact .pure _
  | none =>
    exact (parallel_notice hord Severity.noConfusion Severity.noConfusion).bind fun _ => .pure _

theorem parallel_interruptAttach : (interruptAttach t n).Parallel B Z P (interruptAttach t m) := by
  refine (parallel_interruptTrigger hord hfields).bind fun trigger => ?_
  obtain ⟨key, type, fields, values, statements, next, parent⟩ := m
  subst hfields
  cases t with
  | arduino =>
    exact (parallel_declare hord _ _).bind fun _ => (parallel_setup hord _ _).bind fun _ => .pure _
  | microPython =>
    exact (parallel_declare hord _ _).bind fun _ => (parallel_setup hord _ _).bind fun _ =>
      (parallel_setup hord _ _).bind fun _ => .pure _

end Leaves

/-! ## Slots -/

/-- The code of a sequence is made block by block. -/
theorem sequence_cons (j : Job) (i : NodeId) (rest : List NodeId) :
    ((i :: rest).mapM j.statementCode >>= fun texts => pure (String.join texts)) =
      Script.generate i >>= fun code =>
        (rest.mapM j.statementCode >>= fun texts => pure (String.join texts)) >>= fun text =>
          pure (j.statementText code ++ text) := by
  rw [List.mapM_cons]
  simp only [Job.statementCode, bind_assoc, pure_bind, String.join_cons]

/-- A silent block adds nothing to the text of its sequence. -/
theorem parallel_sequence {blocks blocks' : List NodeId} (h : SequenceMatch B Z blocks blocks') :
    (blocks.mapM j.statementCode >>= fun texts => pure (String.join texts)).Parallel B Z P
      (blocks'.mapM (j.on g').statementCode >>= fun texts => pure (String.join texts)) := by
  induction h with
  | nil => exact .pure _
  | cons hi _ ih =>
    rw [sequence_cons, sequence_cons]
    exact .block hi fun code => ih.bind fun text => .pure _
  | skip hi _ ih =>
    have hnothing : ∀ script : Script String,
        (script >>= fun text => pure (j.statementText Code.empty ++ text)) = script := by
      have hempty : ∀ text : String, j.statementText Code.empty ++ text = text :=
        fun _ => String.empty_append
      simp only [hempty, bind_pure, implies_true]
    rw [← hnothing (List.mapM _ _ >>= _)] at ih
    rw [sequence_cons]
    exact .skip hi ih

/-- Blocks of matching sequences are asked for one by one; what silent ones turn into can be left
out. -/
theorem parallel_chainCode {head head' : NodeId}
    (h : SequenceMatch B Z (j.graph.chain head) (g'.chain head')) :
    (j.chainCode head).Parallel B Z P ((j.on g').chainCode head') :=
  parallel_sequence h

/-- A slot is filled in one graph if it is in the other. -/
theorem contains_statements (h : SlotsMatch j.graph g' B Z n m) (slot : String) :
    (n.relink m).statements.contains slot = n.statements.contains slot := by
  have hslot := h.statements slot
  unfold Dict.contains
  dsimp only
  generalize n.statements.get? slot = o, m.statements.get? slot = o' at hslot ⊢
  cases hslot <;> rfl

/-- Slots with matching sequences give the same code. -/
theorem parallel_slotCode (h : SlotsMatch j.graph g' B Z n m) (slot : String) :
    (j.slotCode n slot).Parallel B Z P ((j.on g').slotCode (n.relink m) slot) := by
  have hslot := h.statements slot
  unfold Job.slotCode
  dsimp only
  generalize n.statements.get? slot = o, m.statements.get? slot = o' at hslot ⊢
  cases hslot with
  | none => exact .pure _
  | some hchain => exact (parallel_chainCode hchain).bind fun _ => .pure _

theorem parallel_bodyCode (h : SlotsMatch j.graph g' B Z n m) (slot : String) :
    (j.bodyCode n slot).Parallel B Z P ((j.on g').bodyCode (n.relink m) slot) :=
  (parallel_slotCode h slot).bind fun _ => .pure _

section Slots

variable (hord : ∀ r : Request, r.IsOrdinary → P r) (h : SlotsMatch j.graph g' B Z n m)

include hord h

/-- Related blocks in a value slot give the same code. -/
theorem parallel_valueCode? (slot : String) (outer : Order) :
    (j.valueCode? n slot outer).Parallel B Z P ((j.on g').valueCode? (n.relink m) slot outer) := by
  have hslot := h.values slot
  unfold Job.valueCode?
  dsimp only
  generalize n.values.get? slot = o, m.values.get? slot = o' at hslot ⊢
  cases hslot with
  | none => exact .pure _
  | some hchild =>
    refine .block hchild fun code => ?_
    cases code with
    | expression text inner => exact .pure _
    | statement text =>
      refine .ite (c := (!text.isEmpty) = true) ?_ (.pure _)
      exact (parallel_notice hord Severity.noConfusion Severity.noConfusion).bind fun _ => .pure _

theorem parallel_valueCode (slot : String) (outer : Order) (fallback : String) :
    (j.valueCode n slot outer fallback).Parallel B Z P
      ((j.on g').valueCode (n.relink m) slot outer fallback) :=
  (parallel_valueCode? hord h slot outer).bind fun _ => .pure _

/-! ## Expressions -/

theorem parallel_binary (sign : String) (order : Order) (fallback : String) :
    (binary j n sign order fallback).Parallel B Z P
      (binary (j.on g') (n.relink m) sign order fallback) :=
  (parallel_valueCode hord h _ _ _).bind fun _ => (parallel_valueCode hord h _ _ _).bind fun _ =>
    .pure _

theorem parallel_applyArithmetic (op : ArithmeticOp) :
    (applyArithmetic t j n op).Parallel B Z P (applyArithmetic t (j.on g') (n.relink m) op) := by
  unfold applyArithmetic
  split
  · exact (parallel_valueCode hord h _ _ _).bind fun _ =>
      (parallel_valueCode hord h _ _ _).bind fun _ => .pure _
  · exact parallel_binary hord h _ _ _

theorem parallel_arithmetic :
    (arithmetic t j n).Parallel B Z P (arithmetic t (j.on g') (n.relink m)) := by
  have hfield : (n.relink m).fieldOr "OP" "ADD" = n.fieldOr "OP" "ADD" := rfl
  simp only [arithmetic, hfield]
  cases ArithmeticOp.ofField? (n.fieldOr "OP" "ADD") with
  | some op => exact parallel_applyArithmetic hord h op
  | none =>
    exact (parallel_notice hord Severity.noConfusion Severity.noConfusion).bind fun _ =>
      parallel_applyArithmetic hord h .add

theorem parallel_comparison :
    (comparison t j n).Parallel B Z P (comparison t (j.on g') (n.relink m)) :=
  parallel_binary hord h _ _ _

theorem parallel_logic : (logic t j n).Parallel B Z P (logic t (j.on g') (n.relink m)) :=
  parallel_binary hord h _ _ _

theorem parallel_negation : (negation t j n).Parallel B Z P (negation t (j.on g') (n.relink m)) :=
  (parallel_valueCode hord h _ _ _).bind fun _ => .pure _

/-- As many arguments are asked for in one graph as in the other. -/
theorem parallel_call : (call t j n).Parallel B Z P (call t (j.on g') (n.relink m)) := by
  refine Parallel.bind ?_ fun _ => .pure _
  have hcount : (n.relink m).slotCount ["ARG"] = n.slotCount ["ARG"] := h.slotCount _
  rw [arguments, arguments, hcount]
  exact .mapM_same fun _ => parallel_valueCode hord h _ _ _

theorem parallel_callExpression :
    (callExpression t j n).Parallel B Z P (callExpression t (j.on g') (n.relink m)) :=
  (parallel_call hord h).bind fun _ => .pure _

/-! ## Statements -/

theorem parallel_digitalWrite :
    (digitalWrite t j n).Parallel B Z P (digitalWrite t (j.on g') (n.relink m)) := by
  cases t with
  | arduino =>
    exact (parallel_setPinMode hord _ _).bind fun _ =>
      (parallel_valueCode hord h _ _ _).bind fun _ => .pure _
  | microPython =>
    exact (parallel_declare hord _ _).bind fun _ => (parallel_declare hord _ _).bind fun _ =>
      (parallel_valueCode hord h _ _ _).bind fun _ => .pure _

theorem parallel_analogWrite :
    (analogWrite t j n).Parallel B Z P (analogWrite t (j.on g') (n.relink m)) := by
  cases t with
  | arduino =>
    exact (parallel_setPinMode hord _ _).bind fun _ =>
      (parallel_valueCode hord h _ _ _).bind fun _ => .pure _
  | microPython =>
    exact (parallel_declare hord _ _).bind fun _ => (parallel_declare hord _ _).bind fun _ =>
      (parallel_declare hord _ _).bind fun _ => (parallel_valueCode hord h _ _ _).bind fun _ =>
        .pure _

theorem parallel_delay : (delay t j n).Parallel B Z P (delay t (j.on g') (n.relink m)) := by
  cases t with
  | arduino => exact (parallel_valueCode hord h _ _ _).bind fun _ => .pure _
  | microPython =>
    exact (parallel_declare hord _ _).bind fun _ => (parallel_valueCode hord h _ _ _).bind fun _ =>
      .pure _

theorem parallel_serialPrint :
    (serialPrint t j n).Parallel B Z P (serialPrint t (j.on g') (n.relink m)) := by
  cases t <;> exact (parallel_valueCode hord h _ _ _).bind fun _ => .pure _

theorem parallel_servoWrite :
    (servoWrite t j n).Parallel B Z P (servoWrite t (j.on g') (n.relink m)) := by
  cases t with
  | arduino => exact (parallel_valueCode hord h _ _ _).bind fun _ => .pure _
  | microPython =>
    exact (parallel_declare hord _ _).bind fun _ => (parallel_valueCode hord h _ _ _).bind fun _ =>
      .pure _

theorem parallel_assignment :
    (assignment t j n).Parallel B Z P (assignment t (j.on g') (n.relink m)) := by
  cases t <;>
    exact (parallel_declare hord _ _).bind fun _ =>
      (parallel_valueCode hord h _ _ _).bind fun _ => .pure _

theorem parallel_callStatement :
    (callStatement t j n).Parallel B Z P (callStatement t (j.on g') (n.relink m)) :=
  (parallel_call hord h).bind fun _ => .pure _

/-! ## Control blocks -/

/-- The number of branches is read off the slots. -/
theorem parallel_conditional :
    (conditional t j n).Parallel B Z P (conditional t (j.on g') (n.relink m)) := by
  have hcount : branchCount (n.relink m) = branchCount n :=
    congrArg (max · 1) (h.slotCount ["IF", "DO"])
  have helse := contains_statements h "ELSE"
  cases t with
  | arduino =>
    simp only [conditional, hcount, braceOtherwise, helse]
    refine Parallel.bind (.mapM_same fun k => ?_) fun _ => Parallel.bind ?_ fun _ => .pure _
    · exact (parallel_valueCode hord h _ _ _).bind fun _ =>
        (parallel_slotCode h _).bind fun _ => .pure _
    · exact .ite ((parallel_slotCode h _).bind fun _ => .pure _) (.pure _)
  | microPython =>
    simp only [conditional, hcount, colonOtherwise, helse]
    refine Parallel.bind (.mapM_same fun k => ?_) fun _ => Parallel.bind ?_ fun _ => .pure _
    · exact (parallel_valueCode hord h _ _ _).bind fun _ =>
        (parallel_bodyCode h _).bind fun _ => .pure _
    · exact .ite ((parallel_bodyCode h _).bind fun _ => .pure _) (.pure _)

theorem parallel_repeatLoop :
    (repeatLoop t j n).Parallel B Z P (repeatLoop t (j.on g') (n.relink m)) := by
  cases t with
  | arduino =>
    exact (parallel_valueCode hord h _ _ _).bind fun _ => (parallel_slotCode h _).bind fun _ =>
      .pure _
  | microPython =>
    exact (parallel_valueCode hord h _ _ _).bind fun _ => (parallel_bodyCode h _).bind fun _ =>
      .pure _

theorem parallel_loopCondition :
    (loopCondition t j n).Parallel B Z P (loopCondition t (j.on g') (n.relink m)) :=
  .ite ((parallel_valueCode hord h _ _ _).bind fun _ => .pure _) (parallel_valueCode hord h _ _ _)

theorem parallel_conditionLoop :
    (conditionLoop t j n).Parallel B Z P (conditionLoop t (j.on g') (n.relink m)) := by
  refine (parallel_loopCondition hord h).bind fun _ => ?_
  cases t with
  | arduino => exact (parallel_slotCode h _).bind fun _ => .pure _
  | microPython => exact (parallel_bodyCode h _).bind fun _ => .pure _

theorem parallel_countingLoop :
    (countingLoop t j n).Parallel B Z P (countingLoop t (j.on g') (n.relink m)) := by
  cases t with
  | arduino =>
    exact (parallel_declare hord _ _).bind fun _ => (parallel_valueCode hord h _ _ _).bind fun _ =>
      (parallel_valueCode hord h _ _ _).bind fun _ =>
        (parallel_valueCode hord h _ _ _).bind fun _ =>
          (parallel_slotCode h _).bind fun _ => .pure _
  | microPython =>
    exact (parallel_declare hord _ _).bind fun _ => (parallel_valueCode hord h _ _ _).bind fun _ =>
      (parallel_valueCode hord h _ _ _).bind fun _ =>
        (parallel_valueCode hord h _ _ _).bind fun _ =>
          (parallel_bodyCode h _).bind fun _ => .pure _

theorem parallel_returnStatement :
    (returnStatement j n).Parallel B Z P (returnStatement (j.on g') (n.relink m)) := by
  refine (parallel_valueCode? hord h _ _).bind fun value => ?_
  cases value <;> exact .pure _

theorem parallel_timedRepeat :
    (timedRepeat t j n).Parallel B Z P (timedRepeat t (j.on g') (n.relink m)) := by
  cases t with
  | arduino =>
    exact (parallel_declare hord _ _).bind fun _ => (parallel_valueCode hord h _ _ _).bind fun _ =>
      (parallel_slotCode h _).bind fun _ => .pure _
  | microPython =>
    exact (parallel_declare hord _ _).bind fun _ => (parallel_declare hord _ _).bind fun _ =>
      (parallel_valueCode hord h _ _ _).bind fun _ => (parallel_slotCode h _).bind fun _ =>
        .pure _

/-! ## Routines -/

theorem parallel_returnLine :
    (returnLine j n).Parallel B Z P (returnLine (j.on g') (n.relink m)) := by
  refine .ite ?_ (.pure _)
  refine (parallel_valueCode? hord h _ _).bind fun value => ?_
  cases value <;> exact .pure _

/-- Besides its slots, a procedure looks for the globals assigned below it. -/
theorem parallel_procedure
    (hglobals : ∀ params, assignedGlobals (j.on g') i' params = assignedGlobals j i params) :
    (procedure t j i n).Parallel B Z P (procedure t (j.on g') i' (n.relink m)) := by
  cases t with
  | arduino =>
    exact (parallel_declare hord _ _).bind fun _ => (parallel_slotCode h _).bind fun _ =>
      (parallel_returnLine hord h).bind fun _ => .pure _
  | microPython =>
    refine (parallel_slotCode h _).bind fun _ => (parallel_returnLine hord h).bind fun _ => ?_
    rw [hglobals]
    exact .pure _

omit h in
/-- The passes are parallel if their blocks are related one by one. -/
theorem parallel_alwaysEmittedPass
    (hpass : List.Forall₂ B j.alwaysEmitted (j.on g').alwaysEmitted) :
    j.alwaysEmittedPass.Parallel B Z P (j.on g').alwaysEmittedPass := by
  refine .same (hord _ trivial) (fun _ => Request.noConfusion) fun reply => ?_
  cases reply with
  | false => exact .pure _
  | true =>
    refine .forM (fun c c' hc => ?_) hpass
    refine .block hc fun code => .ite (c := (!Code.isEmpty code) = true) ?_ (.pure _)
    exact parallel_notice hord Severity.noConfusion Severity.noConfusion

/-- An entry point depends on the pass as well as on its own slots. -/
theorem parallel_entry (hpass : List.Forall₂ B j.alwaysEmitted (j.on g').alwaysEmitted) :
    (entry t j n).Parallel B Z P (entry t (j.on g') (n.relink m)) := by
  have hlines : ∀ f : String → Code, Parallel B Z P (do return f (← Script.setupLines))
      (do return f (← Script.setupLines)) := fun f =>
    .same (hord _ trivial) (fun _ => Request.noConfusion) fun lines => .pure (f lines)
  refine .same (hord _ trivial) (fun _ => Request.noConfusion) fun _ =>
    (parallel_alwaysEmittedPass hord hpass).bind fun _ => ?_
  cases t with
  | arduino =>
    exact (parallel_slotCode h _).bind fun _ => (parallel_slotCode h _).bind fun _ =>
      hlines _
  | microPython =>
    have hrest : ∀ f : String → String → Code, Parallel B Z P
        (do return f (← j.bodyCode n "LOOP") (← Script.setupLines))
        (do return f (← (j.on g').bodyCode (n.relink m) "LOOP") (← Script.setupLines)) := fun f =>
      (parallel_bodyCode h _).bind fun body => hlines (f body)
    have hslot := h.statements "SETUP"
    dsimp only
    generalize n.statements.get? "SETUP" = o, m.statements.get? "SETUP" = o' at hslot ⊢
    cases hslot with
    | none => exact hrest _
    | some hchain => exact (parallel_chainCode hchain).bind fun _ => hrest _

end Slots

end Blocks

/-! ## Counterparts -/

namespace Job

variable {j : Job} {g' : Graph} {i i' : NodeId} {B : NodeId → NodeId → Prop} {Z : NodeId → Prop} {P : Request → Prop}

/-- The blocks agree in what generators look at. -/
structure Counterparts (j : Job) (g' : Graph) (B : NodeId → NodeId → Prop) (Z : NodeId → Prop)
    (i i' : NodeId) : Prop where
  key : (g'.node i').key = (j.node i).key
  type : (g'.node i').type = (j.node i).type
  fields : (g'.node i').fields = (j.node i).fields
  slots : SlotsMatch j.graph g' B Z (j.node i) (g'.node i')
  inside : g'.isInside j.backend.containers i' = j.graph.isInside j.backend.containers i
  inLoop : (j.on g').standsInLoop i' = j.standsInLoop i
  globals : ∀ params, Blocks.assignedGlobals (j.on g') i' params = Blocks.assignedGlobals j i params

/-- The blocks have the same type and the same fields, and ask for nothing else. -/
structure Twins (j : Job) (g' : Graph) (i i' : NodeId) : Prop where
  type : (g'.node i').type = (j.node i).type
  fields : (g'.node i').fields = (j.node i).fields
  aside : ∃ g, j.backend.generators.get? (j.node i).type = some g ∧
    g.kind ∈ [.serialSetup, .servoAttach, .interruptAttach]

/-- Counterparts differ in their links only. -/
theorem Counterparts.node_eq (h : j.Counterparts g' B Z i i') :
    g'.node i' = (j.node i).relink (g'.node i') := by
  obtain ⟨hkey, htype, hfields, -⟩ := h
  generalize g'.node i' = m at *
  obtain ⟨key, type, fields, values, statements, next, parent⟩ := m
  subst hkey htype hfields
  rfl

/-- Counterparts are inside of a container together or not at all. -/
theorem parallel_guarded (hord : ∀ r : Request, r.IsOrdinary → P r)
    (h : j.Counterparts g' B Z i i') {code code' : Script Code}
    (hcode : code.Parallel B Z P code') :
    (j.guarded i code).Parallel B Z P ((j.on g').guarded i' code') := by
  have hkey : ((j.on g').node i').key = (j.node i).key := h.key
  have htype : ((j.on g').node i').type = (j.node i).type := h.type
  simp only [guarded, standsInContainer, h.inside, hkey, htype]
  refine Script.Parallel.bind (.ite (.pure _) ?_) fun stands => .ite hcode (.pure _)
  refine (Blocks.parallel_notice hord Severity.noConfusion Severity.noConfusion).bind fun _ => ?_
  exact .same (hord _ Reason.noConfusion) (fun _ => Request.noConfusion) fun _ => .pure _

/-- Counterparts are inside of a loop together or not at all. -/
theorem parallel_loopExit (hord : ∀ r : Request, r.IsOrdinary → P r)
    (h : j.Counterparts g' B Z i i') (n m : Node) :
    (Blocks.loopExit j i n).Parallel B Z P (Blocks.loopExit (j.on g') i' (n.relink m)) := by
  simp only [Blocks.loopExit, h.inLoop]
  refine .ite (.pure _) ?_
  exact (Blocks.parallel_notice hord Severity.noConfusion Severity.noConfusion).bind fun _ =>
    .pure _

end Job

namespace Generator

variable {j : Job} {g' : Graph} {i i' : NodeId} {B : NodeId → NodeId → Prop} {Z : NodeId → Prop} {P : Request → Prop}

/-- **Generators treat counterparts alike.** -/
theorem parallel_script (g : Generator) (hord : ∀ r : Request, r.IsOrdinary → P r)
    (hpass : List.Forall₂ B j.alwaysEmitted (j.on g').alwaysEmitted)
    (h : j.Counterparts g' B Z i i') : (g.script j i).Parallel B Z P (g.script (j.on g') i') := by
  obtain ⟨t, kind⟩ := g
  have hslots := h.slots
  have hguard : ∀ {code code' : Script Code}, code.Parallel B Z P code' →
      (j.guarded i code).Parallel B Z P ((j.on g').guarded i' code') := Job.parallel_guarded hord h
  have hexit := Job.parallel_loopExit hord h (j.node i) (g'.node i')
  have hnode : (j.on g').node i' = (j.node i).relink (g'.node i') := h.node_eq
  unfold script
  simp only [hnode]
  cases kind with
  | entry => exact Blocks.parallel_entry hord hslots hpass
  | procedure => exact Blocks.parallel_procedure hord hslots h.globals
  | serialSetup => exact Blocks.parallel_serialSetup hord rfl
  | servoAttach => exact Blocks.parallel_servoAttach hord rfl
  | interruptAttach => exact Blocks.parallel_interruptAttach hord rfl
  | conditional => exact hguard (Blocks.parallel_conditional hord hslots)
  | repeatLoop => exact hguard (Blocks.parallel_repeatLoop hord hslots)
  | conditionLoop => exact hguard (Blocks.parallel_conditionLoop hord hslots)
  | countingLoop => exact hguard (Blocks.parallel_countingLoop hord hslots)
  | loopExit => exact hguard hexit
  | returnStatement => exact hguard (Blocks.parallel_returnStatement hord hslots)
  | timedRepeat => exact hguard (Blocks.parallel_timedRepeat hord hslots)
  | assignment => exact Blocks.parallel_assignment hord hslots
  | digitalWrite => exact Blocks.parallel_digitalWrite hord hslots
  | analogWrite => exact Blocks.parallel_analogWrite hord hslots
  | serialPrint => exact Blocks.parallel_serialPrint hord hslots
  | delay => exact Blocks.parallel_delay hord hslots
  | servoWrite => exact Blocks.parallel_servoWrite hord hslots
  | callStatement => exact Blocks.parallel_callStatement hord hslots
  | arithmetic => exact Blocks.parallel_arithmetic hord hslots
  | comparison => exact Blocks.parallel_comparison hord hslots
  | logic => exact Blocks.parallel_logic hord hslots
  | negation => exact Blocks.parallel_negation hord hslots
  | callExpression => exact Blocks.parallel_callExpression hord hslots
  | number | boolean | text | variableValue => exact .pure _
  | digitalRead => exact Blocks.parallel_digitalRead hord
  | analogRead => exact Blocks.parallel_analogRead hord
  | milliseconds => exact Blocks.parallel_milliseconds hord

end Generator

namespace Job

variable {j : Job} {g' : Graph} {i i' : NodeId} {B : NodeId → NodeId → Prop} {Z : NodeId → Prop} {P : Request → Prop}

/-- The scripts of twins run in parallel, wherever they stand. -/
theorem Twins.parallel_blockScript (hord : ∀ r : Request, r.IsOrdinary → P r)
    (h : j.Twins g' i i') : (j.blockScript i).Parallel B Z P ((j.on g').blockScript i') := by
  obtain ⟨htype, hfields, ⟨t, kind⟩, hg, hkind⟩ := h
  have htype' : ((j.on g').node i').type = (j.node i).type := htype
  simp only [blockScript, htype', hg]
  simp only [List.mem_cons, List.not_mem_nil, or_false] at hkind
  rcases hkind with rfl | rfl | rfl
  · exact Blocks.parallel_serialSetup hord hfields
  · exact Blocks.parallel_servoAttach hord hfields
  · exact Blocks.parallel_interruptAttach hord hfields

/-- **The scripts of counterparts run in parallel**, if the report that a generator is missing is
allowed for. -/
theorem Counterparts.parallel_blockScript (hord : ∀ r : Request, r.IsOrdinary → P r)
    (hpass : List.Forall₂ B j.alwaysEmitted (j.on g').alwaysEmitted)
    (h : j.Counterparts g' B Z i i')
    (hnotice : P (.notice (.missingGenerator (j.node i).type (j.node i).key j.backend.name)))
    (hreport : P (.report (.missingGenerator (j.node i).key (j.node i).type j.backend.name))) :
    (j.blockScript i).Parallel B Z P ((j.on g').blockScript i') := by
  have hkey : ((j.on g').node i').key = (j.node i).key := h.key
  have htype : ((j.on g').node i').type = (j.node i).type := h.type
  simp only [blockScript, hkey, htype]
  cases j.backend.generators.get? (j.node i).type with
  | some g => exact g.parallel_script hord hpass h
  | none =>
    exact .notice hnotice hnotice (.same hreport (fun _ => Request.noConfusion) fun _ => .pure _)

end Job

end BlockCompiler
