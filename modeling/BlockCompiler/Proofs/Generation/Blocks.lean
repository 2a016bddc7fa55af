import BlockCompiler.Compile
import BlockCompiler.Proofs.Generation.Requests
import BlockCompiler.Proofs.Graph.Containment

/-!
# What the scripts of blocks ask for

Every block asks only for the code of blocks that it contains.  Apart from that it
registers pieces of output and writes to the log; only an entry point makes the pass
over the always-emitted blocks and looks at the setup, and only a block that needs a
container reports that it has none.  `Generator.Permits` says this for each kind of
block, and `asks_script` that the scripts keep to it; `asks_blockScript` is the same
for a block of a graph, whatever its backend has to generate it with, and
`asks_sections` for a compilation, which asks for the placed blocks at top level.
-/

namespace BlockCompiler

/-- Blocks of this kind need a container above them. -/
def BlockKind.isGuarded : BlockKind → Bool
  | conditional | repeatLoop | conditionLoop | countingLoop | loopExit | returnStatement
  | timedRepeat => true
  | _ => false

/-- Blocks of this kind ask for no other block. -/
def BlockKind.isLeaf : BlockKind → Bool
  | serialSetup | servoAttach | interruptAttach | number | boolean | text | variableValue
  | digitalRead | analogRead | milliseconds => true
  | _ => false

/-- The request registers a piece of output or writes to the log. -/
def Request.IsPlain : Request → Prop
  | .declare .. | .setup .. | .setupBeside .. | .notice _ => True
  | .generate _ | .report _ | .setupLines | .beginPass | .enterProgram _ => False

/-- `P` holds of plain requests and of those for the blocks in the slots of a node. -/
structure Job.Serves (j : Job) (n : Node) (P : Request → Prop) : Prop where
  plain : ∀ r, r.IsPlain → P r
  value : ∀ slot c, n.values.get? slot = some c → P (.generate c)
  chain : ∀ slot head c, n.statements.get? slot = some head → c ∈ j.graph.chain head →
    P (.generate c)

/-- The request is for an always-emitted block. -/
def Job.InPass (j : Job) : Request → Prop
  | .generate c => c ∈ j.alwaysEmitted
  | _ => False

namespace Blocks

open Script

variable {t : Target} {j : Job} {n : Node} {i : NodeId} {P Q : Request → Prop} {opened : Bool}

/-! ## Leaves -/

section Leaves

variable (hplain : ∀ r, r.IsPlain → P r)

include hplain

/-- Registering a declaration is a plain request. -/
theorem asks_declare (symbol text : String) : (Script.declare symbol text).Asks P Q opened :=
  .single (hplain _ trivial) fun _ => .done _

theorem asks_setup (symbol text : String) : (Script.setup symbol text).Asks P Q opened :=
  .single (hplain _ trivial) fun _ => .done _

theorem asks_notice (notice : Notice) : (Script.notice notice).Asks P Q opened :=
  .single (hplain _ trivial) fun _ => .done _

theorem asks_setPinMode (pin : String) (mode : PinMode) :
    (setPinMode pin mode).Asks P Q opened :=
  .single (hplain _ trivial) fun _ => .done _

theorem asks_digitalRead : (digitalRead t n).Asks P Q opened := by
  cases t with
  | arduino => exact (asks_setPinMode hplain _ _).bind fun _ => .pure _
  | microPython =>
    exact (asks_declare hplain _ _).bind fun _ => (asks_declare hplain _ _).bind fun _ => .pure _

theorem asks_analogRead : (analogRead t n).Asks P Q opened := by
  cases t with
  | arduino => exact .pure _
  | microPython =>
    exact (asks_declare hplain _ _).bind fun _ => (asks_declare hplain _ _).bind fun _ =>
      (asks_declare hplain _ _).bind fun _ => .pure _

theorem asks_milliseconds : (milliseconds t).Asks P Q opened := by
  cases t with
  | arduino => exact .pure _
  | microPython => exact (asks_declare hplain _ _).bind fun _ => .pure _

theorem asks_serialSetup : (serialSetup t n).Asks P Q opened := by
  cases t with
  | arduino => exact (asks_setup hplain _ _).bind fun _ => .pure _
  | microPython =>
    exact (asks_declare hplain _ _).bind fun _ => (asks_setup hplain _ _).bind fun _ => .pure _

theorem asks_servoAttach : (servoAttach t n).Asks P Q opened := by
  cases t <;>
    exact (asks_declare hplain _ _).bind fun _ => (asks_declare hplain _ _).bind fun _ =>
      (asks_setup hplain _ _).bind fun _ => .pure _

/-- A trigger that is not known is noticed, which is a plain request. -/
theorem asks_interruptTrigger : (interruptTrigger t n).Asks P Q opened := by
  simp only [interruptTrigger]
  cases interruptTrigger? t (n.fieldOr "MODE" "RISING") with
  | some trigger => exact .pure _
  | none => exact (asks_notice hplain _).bind fun _ => .pure _

theorem asks_interruptAttach : (interruptAttach t n).Asks P Q opened := by
  refine (asks_interruptTrigger hplain).bind fun trigger => ?_
  cases t with
  | arduino =>
    exact (asks_declare hplain _ _).bind fun _ => (asks_setup hplain _ _).bind fun _ => .pure _
  | microPython =>
    exact (asks_declare hplain _ _).bind fun _ => (asks_setup hplain _ _).bind fun _ =>
      (asks_setup hplain _ _).bind fun _ => .pure _

/-- The pass asks for always-emitted blocks only, once it has begun. -/
theorem asks_alwaysEmittedPass (hbegin : P .beginPass) :
    j.alwaysEmittedPass.Asks P j.InPass opened := by
  refine .single hbegin fun reply => ?_
  cases reply with
  | false => exact .pure _
  | true =>
    -- From here on the pass is open, and its blocks may be asked for.
    refine Asks.forM fun c hc =>
      ⟨Or.inr ⟨by simp [Request.opens], hc⟩, fun code => ?_⟩
    show (if !code.isEmpty then _ else _ : Script _).Asks P j.InPass _
    split
    · exact asks_notice hplain _
    · exact .pure _

end Leaves

/-! ## Slots -/

section Slots

variable (h : j.Serves n P)

include h

/-- The block in a value slot is one that the node contains. -/
theorem asks_valueCode? (slot : String) (outer : Order) :
    (j.valueCode? n slot outer).Asks P Q opened := by
  unfold Job.valueCode?
  cases hchild : n.values.get? slot with
  | none => exact .pure _
  | some child =>
    refine .single (h.value slot child hchild) fun code => ?_
    cases code with
    | expression text inner => exact .pure _
    | statement text =>
      show (if !text.isEmpty then _ else _ : Script _).Asks P Q _
      split
      · exact (asks_notice h.plain _).bind fun _ => .pure _
      · exact .pure _

theorem asks_valueCode (slot : String) (outer : Order) (fallback : String) :
    (j.valueCode n slot outer fallback).Asks P Q opened :=
  (asks_valueCode? h slot outer).bind fun _ => .pure _

/-- The blocks of a sequence in a slot are those that the slot holds. -/
theorem asks_chainCode {slot : String} {head : NodeId} (hhead : n.statements.get? slot = some head) :
    (j.chainCode head).Asks P Q opened := by
  refine Asks.bind (Asks.mapM fun c hc => ?_) fun _ => .pure _
  exact .single (h.chain slot head c hhead hc) fun _ => .pure _

/-- An empty slot asks for nothing. -/
theorem asks_slotCode (slot : String) : (j.slotCode n slot).Asks P Q opened := by
  unfold Job.slotCode
  cases hhead : n.statements.get? slot with
  | none => exact .pure _
  | some head => exact (asks_chainCode h hhead).bind fun _ => .pure _

theorem asks_bodyCode (slot : String) : (j.bodyCode n slot).Asks P Q opened :=
  (asks_slotCode h slot).bind fun _ => .pure _

/-! ## Expressions -/

/-- An operator asks for its two operands. -/
theorem asks_binary (sign : String) (order : Order) (fallback : String) :
    (binary j n sign order fallback).Asks P Q opened :=
  (asks_valueCode h _ _ _).bind fun _ => (asks_valueCode h _ _ _).bind fun _ => .pure _

theorem asks_applyArithmetic (op : ArithmeticOp) :
    (applyArithmetic t j n op).Asks P Q opened := by
  unfold applyArithmetic
  split
  · exact (asks_valueCode h _ _ _).bind fun _ => (asks_valueCode h _ _ _).bind fun _ => .pure _
  · exact asks_binary h _ _ _

theorem asks_arithmetic : (arithmetic t j n).Asks P Q opened := by
  simp only [arithmetic]
  cases ArithmeticOp.ofField? (n.fieldOr "OP" "ADD") with
  | some op => exact asks_applyArithmetic h op
  | none => exact (asks_notice h.plain _).bind fun _ => asks_applyArithmetic h .add

theorem asks_comparison : (comparison t j n).Asks P Q opened :=
  asks_binary h _ _ _

theorem asks_logic : (logic t j n).Asks P Q opened :=
  asks_binary h _ _ _

theorem asks_negation : (negation t j n).Asks P Q opened :=
  (asks_valueCode h _ _ _).bind fun _ => .pure _

theorem asks_call : (call t j n).Asks P Q opened :=
  (Asks.mapM fun _ _ => asks_valueCode h _ _ _).bind fun _ => .pure _

theorem asks_callExpression : (callExpression t j n).Asks P Q opened :=
  (asks_call h).bind fun _ => .pure _

/-! ## Statements -/

theorem asks_digitalWrite : (digitalWrite t j n).Asks P Q opened := by
  cases t with
  | arduino =>
    exact (asks_setPinMode h.plain _ _).bind fun _ => (asks_valueCode h _ _ _).bind fun _ => .pure _
  | microPython =>
    exact (asks_declare h.plain _ _).bind fun _ => (asks_declare h.plain _ _).bind fun _ =>
      (asks_valueCode h _ _ _).bind fun _ => .pure _

theorem asks_analogWrite : (analogWrite t j n).Asks P Q opened := by
  cases t with
  | arduino =>
    exact (asks_setPinMode h.plain _ _).bind fun _ => (asks_valueCode h _ _ _).bind fun _ => .pure _
  | microPython =>
    exact (asks_declare h.plain _ _).bind fun _ => (asks_declare h.plain _ _).bind fun _ =>
      (asks_declare h.plain _ _).bind fun _ => (asks_valueCode h _ _ _).bind fun _ => .pure _

theorem asks_delay : (delay t j n).Asks P Q opened := by
  cases t with
  | arduino => exact (asks_valueCode h _ _ _).bind fun _ => .pure _
  | microPython =>
    exact (asks_declare h.plain _ _).bind fun _ => (asks_valueCode h _ _ _).bind fun _ => .pure _

theorem asks_serialPrint : (serialPrint t j n).Asks P Q opened := by
  cases t <;> exact (asks_valueCode h _ _ _).bind fun _ => .pure _

theorem asks_servoWrite : (servoWrite t j n).Asks P Q opened := by
  cases t with
  | arduino => exact (asks_valueCode h _ _ _).bind fun _ => .pure _
  | microPython =>
    exact (asks_declare h.plain _ _).bind fun _ => (asks_valueCode h _ _ _).bind fun _ => .pure _

theorem asks_assignment : (assignment t j n).Asks P Q opened := by
  cases t <;>
    exact (asks_declare h.plain _ _).bind fun _ => (asks_valueCode h _ _ _).bind fun _ => .pure _

theorem asks_callStatement : (callStatement t j n).Asks P Q opened :=
  (asks_call h).bind fun _ => .pure _

/-! ## Control blocks -/

/-- A conditional asks for conditions and branches, as many as it has. -/
theorem asks_conditional : (conditional t j n).Asks P Q opened := by
  cases t with
  | arduino =>
    refine Asks.bind (Asks.mapM fun k _ => ?_) fun _ => Asks.bind ?_ fun _ => .pure _
    · exact (asks_valueCode h _ _ _).bind fun _ => (asks_slotCode h _).bind fun _ => .pure _
    · unfold braceOtherwise
      split
      · exact (asks_slotCode h _).bind fun _ => .pure _
      · exact .pure _
  | microPython =>
    refine Asks.bind (Asks.mapM fun k _ => ?_) fun _ => Asks.bind ?_ fun _ => .pure _
    · exact (asks_valueCode h _ _ _).bind fun _ => (asks_bodyCode h _).bind fun _ => .pure _
    · unfold colonOtherwise
      split
      · exact (asks_bodyCode h _).bind fun _ => .pure _
      · exact .pure _

theorem asks_repeatLoop : (repeatLoop t j n).Asks P Q opened := by
  cases t with
  | arduino =>
    exact (asks_valueCode h _ _ _).bind fun _ => (asks_slotCode h _).bind fun _ => .pure _
  | microPython =>
    exact (asks_valueCode h _ _ _).bind fun _ => (asks_bodyCode h _).bind fun _ => .pure _

theorem asks_loopCondition : (loopCondition t j n).Asks P Q opened := by
  unfold loopCondition
  split
  · exact (asks_valueCode h _ _ _).bind fun _ => .pure _
  · exact asks_valueCode h _ _ _

theorem asks_conditionLoop : (conditionLoop t j n).Asks P Q opened := by
  refine (asks_loopCondition h).bind fun _ => ?_
  cases t with
  | arduino => exact (asks_slotCode h _).bind fun _ => .pure _
  | microPython => exact (asks_bodyCode h _).bind fun _ => .pure _

/-- A counting loop asks for its bounds, its step and its body. -/
theorem asks_countingLoop : (countingLoop t j n).Asks P Q opened := by
  cases t with
  | arduino =>
    exact (asks_declare h.plain _ _).bind fun _ => (asks_valueCode h _ _ _).bind fun _ =>
      (asks_valueCode h _ _ _).bind fun _ => (asks_valueCode h _ _ _).bind fun _ =>
        (asks_slotCode h _).bind fun _ => .pure _
  | microPython =>
    exact (asks_declare h.plain _ _).bind fun _ => (asks_valueCode h _ _ _).bind fun _ =>
      (asks_valueCode h _ _ _).bind fun _ => (asks_valueCode h _ _ _).bind fun _ =>
        (asks_bodyCode h _).bind fun _ => .pure _

theorem asks_loopExit : (loopExit j i n).Asks P Q opened := by
  unfold loopExit
  cases j.standsInLoop i with
  | true => exact .pure _
  | false => exact (asks_notice h.plain _).bind fun _ => .pure _

theorem asks_returnStatement : (returnStatement j n).Asks P Q opened := by
  refine (asks_valueCode? h _ _).bind fun value => ?_
  cases value <;> exact .pure _

theorem asks_timedRepeat : (timedRepeat t j n).Asks P Q opened := by
  cases t with
  | arduino =>
    exact (asks_declare h.plain _ _).bind fun _ => (asks_valueCode h _ _ _).bind fun _ =>
      (asks_slotCode h _).bind fun _ => .pure _
  | microPython =>
    exact (asks_declare h.plain _ _).bind fun _ => (asks_declare h.plain _ _).bind fun _ =>
      (asks_valueCode h _ _ _).bind fun _ => (asks_slotCode h _).bind fun _ => .pure _

/-! ## Routines -/

theorem asks_returnLine : (returnLine j n).Asks P Q opened := by
  unfold returnLine
  split
  · refine (asks_valueCode? h _ _).bind fun value => ?_
    cases value <;> exact .pure _
  · exact .pure _

/-- A procedure asks for its statements, and for the value that it returns. -/
theorem asks_procedure : (procedure t j i n).Asks P Q opened := by
  cases t with
  | arduino =>
    exact (asks_declare h.plain _ _).bind fun _ => (asks_slotCode h _).bind fun _ =>
      (asks_returnLine h).bind fun _ => .pure _
  | microPython =>
    exact (asks_slotCode h _).bind fun _ => (asks_returnLine h).bind fun _ => .pure _

/-- An entry point makes the pass and reads the lines of the setup, as no other block does. -/
theorem asks_entry (hnext : ∀ key, P (.enterProgram key)) (hbegin : P .beginPass)
    (hlines : P .setupLines) : (entry t j n).Asks P j.InPass opened := by
  refine .single (hnext _) fun _ => (asks_alwaysEmittedPass h.plain hbegin).bind fun _ => ?_
  cases t with
  | arduino =>
    exact (asks_slotCode h _).bind fun _ => (asks_slotCode h _).bind fun _ =>
      .single hlines fun _ => .pure _
  | microPython =>
    -- The loop comes last, whether or not there is a setup before it.
    have hrest : ∀ (opened : Bool) (f : String → String → Code), Asks P j.InPass opened
        (do return f (← j.bodyCode n "LOOP") (← Script.setupLines)) := fun _ f =>
      (asks_bodyCode h _).bind fun _ => .single (r := .setupLines) hlines fun _ => .pure _
    dsimp only
    cases hhead : n.statements.get? "SETUP" with
    | none => exact hrest _ _
    | some head => exact (asks_chainCode h hhead).bind fun _ => hrest _ _

end Slots

end Blocks

/-! ## The scripts of the kinds -/

namespace Job

variable {j : Job} {i : NodeId} {P Q : Request → Prop} {opened : Bool}

/-- A guarded block asks for what its code asks for, or reports that it stands outside of
containers. -/
theorem asks_guarded {code : Script Code} (hplain : ∀ r, r.IsPlain → P r)
    (hreport : j.graph.isInside j.backend.containers i = false →
      P (.report (.orphanedNested (j.node i).key (j.node i).type j.backend.containers.describe)))
    (hcode : code.Asks P Q opened) : (j.guarded i code).Asks P Q opened := by
  unfold guarded standsInContainer
  cases hin : j.graph.isInside j.backend.containers i with
  | true => exact hcode
  | false =>
    refine Script.Asks.bind ?_ fun stands => ?_
    · exact (Blocks.asks_notice hplain _).bind fun _ =>
        Script.Asks.bind (.single (hreport hin) fun _ => .done _) fun _ => .pure _
    · cases stands with
      | true => exact hcode
      | false => exact .pure _

end Job

namespace Generator

variable {g : Generator} {j : Job} {i : NodeId}

/-- What a block of the generator's kind may ask for. -/
def Permits (g : Generator) (j : Job) (i : NodeId) : Request → Prop
  | .generate c => g.kind.isLeaf = false ∧ j.graph.Contains i c
  | .report d =>
    g.kind.isGuarded = true ∧ j.graph.isInside j.backend.containers i = false ∧
      d = .orphanedNested (j.node i).key (j.node i).type j.backend.containers.describe
  | .setupLines | .beginPass | .enterProgram _ => g.kind = .entry
  | .declare .. | .setup .. | .setupBeside .. | .notice _ => True

/-- Every kind may register output and write to the log. -/
theorem permits_of_isPlain {r : Request} (hr : r.IsPlain) : g.Permits j i r := by
  cases r <;> trivial

/-- A kind that is no leaf may ask for the blocks in its slots. -/
theorem serves_permits (hleaf : g.kind.isLeaf = false) :
    j.Serves (j.node i) (g.Permits j i) where
  plain _ := permits_of_isPlain
  value slot c hc := ⟨hleaf, .value slot, c, by simp, hc, .refl⟩
  chain slot _ _ hhead hc :=
    ⟨hleaf, Graph.contains_of_mem_chain (p := .statement slot) (by simp) hhead hc⟩

/-- **The script of a block keeps to what its kind permits**, and after it has begun the pass it
may ask for the always-emitted blocks. -/
theorem asks_script (g : Generator) (j : Job) (i : NodeId) :
    (g.script j i).Asks (g.Permits j i) j.InPass false := by
  obtain ⟨t, kind⟩ := g
  have hplain : ∀ r, r.IsPlain → Permits ⟨t, kind⟩ j i r := fun _ => permits_of_isPlain
  -- The two hypotheses that every kind with slots needs, the second for guarded kinds only.
  have hserves : kind.isLeaf = false → j.Serves (j.node i) (Permits ⟨t, kind⟩ j i) :=
    serves_permits (g := ⟨t, kind⟩)
  have hguard : ∀ {code : Script Code}, kind.isGuarded = true →
      code.Asks (Permits ⟨t, kind⟩ j i) j.InPass false →
      (j.guarded i code).Asks (Permits ⟨t, kind⟩ j i) j.InPass false :=
    fun hkind => Job.asks_guarded hplain fun hin => ⟨hkind, hin, rfl⟩
  cases kind with
  | entry => exact Blocks.asks_entry (hserves rfl) (fun _ => rfl) rfl rfl
  | procedure => exact Blocks.asks_procedure (hserves rfl)
  | serialSetup => exact Blocks.asks_serialSetup hplain
  | servoAttach => exact Blocks.asks_servoAttach hplain
  | interruptAttach => exact Blocks.asks_interruptAttach hplain
  | conditional => exact hguard rfl (Blocks.asks_conditional (hserves rfl))
  | repeatLoop => exact hguard rfl (Blocks.asks_repeatLoop (hserves rfl))
  | conditionLoop => exact hguard rfl (Blocks.asks_conditionLoop (hserves rfl))
  | countingLoop => exact hguard rfl (Blocks.asks_countingLoop (hserves rfl))
  | loopExit => exact hguard rfl (Blocks.asks_loopExit (hserves rfl))
  | returnStatement => exact hguard rfl (Blocks.asks_returnStatement (hserves rfl))
  | timedRepeat => exact hguard rfl (Blocks.asks_timedRepeat (hserves rfl))
  | assignment => exact Blocks.asks_assignment (hserves rfl)
  | digitalWrite => exact Blocks.asks_digitalWrite (hserves rfl)
  | analogWrite => exact Blocks.asks_analogWrite (hserves rfl)
  | serialPrint => exact Blocks.asks_serialPrint (hserves rfl)
  | delay => exact Blocks.asks_delay (hserves rfl)
  | servoWrite => exact Blocks.asks_servoWrite (hserves rfl)
  | callStatement => exact Blocks.asks_callStatement (hserves rfl)
  | arithmetic => exact Blocks.asks_arithmetic (hserves rfl)
  | comparison => exact Blocks.asks_comparison (hserves rfl)
  | logic => exact Blocks.asks_logic (hserves rfl)
  | negation => exact Blocks.asks_negation (hserves rfl)
  | callExpression => exact Blocks.asks_callExpression (hserves rfl)
  | number | boolean | text | variableValue => exact .pure _
  | digitalRead => exact Blocks.asks_digitalRead hplain
  | analogRead => exact Blocks.asks_analogRead hplain
  | milliseconds => exact Blocks.asks_milliseconds hplain

end Generator

namespace Job

/-- What the script of a block may ask for: what the kind of its generator permits, or the report
that there is none. -/
def Permits (j : Job) (i : NodeId) (r : Request) : Prop :=
  (∃ g, j.backend.generators.get? (j.node i).type = some g ∧ g.Permits j i r) ∨
    (j.backend.generators.get? (j.node i).type = none ∧
      (r.IsPlain ∨
        r = .report (.missingGenerator (j.node i).key (j.node i).type j.backend.name)))

/-- The script of a block keeps to what is permitted to it. -/
theorem asks_blockScript (j : Job) (i : NodeId) :
    (j.blockScript i).Asks (j.Permits i) j.InPass false := by
  simp only [blockScript]
  cases hg : j.backend.generators.get? (j.node i).type with
  | some g =>
    exact (g.asks_script j i).mono (fun _ hr => Or.inl ⟨g, hg, hr⟩) (fun _ => id) id
  | none =>
    exact (Blocks.asks_notice (fun _ hr => Or.inr ⟨hg, Or.inl hr⟩) _).bind fun _ =>
      Script.Asks.bind (.single (Or.inr ⟨hg, Or.inr rfl⟩) fun _ => .done _) fun _ => .pure _

/-- A block may ask for the code of a block only if it contains that. -/
theorem contains_of_permits {j : Job} {i c : NodeId} (h : j.Permits i (.generate c)) :
    j.graph.Contains i c := by
  rcases h with ⟨g, -, -, hc⟩ | ⟨-, hplain | hreport⟩
  · exact hc
  · exact hplain.elim
  · cases hreport

/-! ## Top level -/

/-- What a compilation itself asks for: the code of placed blocks at top level, and that the
others there are reported. -/
def AtTop (j : Job) : Request → Prop
  | .generate i => j.isPlaced (j.node i).type = true ∧ ∃ root ∈ j.graph.roots, i ∈ j.graph.chain root
  | .report d => ∃ i, j.isPlaced (j.node i).type = false ∧
      d = .orphanedTopLevel (j.node i).key (j.node i).type j.backend.containers.describe
  | .notice _ => True
  | _ => False

/-- A block at top level is asked for or reported. -/
theorem asks_topLevel (j : Job) (options : Options) {root i : NodeId} (hroot : root ∈ j.graph.roots)
    (hi : i ∈ j.graph.chain root) (Q : Request → Prop) (opened : Bool) :
    (j.topLevel options i).Asks j.AtTop Q opened := by
  simp only [topLevel]
  cases hplaced : j.isPlaced (j.node i).type with
  | true =>
    exact Script.Asks.bind (.single trivial fun _ => .done _) fun _ =>
      .single ⟨hplaced, root, hroot, hi⟩ fun _ => .pure _
  | false =>
    exact Script.Asks.bind (.single trivial fun _ => .done _) fun _ =>
      .single ⟨i, hplaced, rfl⟩ fun _ => .pure _

/-- The order of generation goes through all roots and nothing else. -/
theorem mem_generationOrder {j : Job} {root : NodeId} :
    root ∈ j.generationOrder ↔ root ∈ j.graph.roots := by
  simp only [generationOrder, List.mem_append, List.mem_filter]
  cases j.isEntry root <;> simp

/-- A compilation asks for placed blocks at top level. -/
theorem asks_sections (j : Job) (options : Options) (Q : Request → Prop) (opened : Bool) :
    (j.sections options).Asks j.AtTop Q opened := by
  refine Script.Asks.mapM fun root hroot => Script.Asks.bind ?_ fun _ => .pure _
  refine Script.Asks.bind (Script.Asks.mapM fun i hi => ?_) fun _ => .pure _
  exact j.asks_topLevel options (mem_generationOrder.mp hroot) hi Q opened

end Job

end BlockCompiler
