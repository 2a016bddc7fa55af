import BlockCompiler.Proofs.Generation.Blocks
import BlockCompiler.Proofs.Generation.Footprint
import BlockCompiler.Proofs.Generation.Registry

/-!
# What blocks declare

A block offers the same declarations in the same order whatever the blocks inside of it
turn into: `BlockKind.declarations` lists them for each kind of block, and `Declares` says
that a script offers the declarations of a list on every path (`declares_blockScript`).
The offers of the blocks that a script asks for are their own.

Hence the declarations at the end of a run can be read off the blocks that it comes to.
What a block declares is registered in the end (`Course.contains_declaration`), and what
is registered was declared by some block (`Course.exists_declaration`).
-/

namespace BlockCompiler

/-! ## Scripts -/

namespace Script

variable {α β γ : Type} {ds ds' : List (String × String)}

/-- The script itself offers the listed declarations, in order, whatever the replies are. -/
inductive Declares : Script α → List (String × String) → Prop
  | done (a : α) : Declares (done a) []
  | ask {r : Request} {resume : r.Reply → Script α} {ds : List (String × String)}
      (h : ∀ reply, Declares (resume reply) ds) :
      Declares (ask r resume) (r.footprint.declarations ++ ds)

namespace Declares

theorem pure (a : α) : (Pure.pure a : Script α).Declares [] :=
  done a

/-- Declarations of scripts one after the other are listed one after the other. -/
theorem bind {script : Script α} {f : α → Script β} (h : script.Declares ds)
    (hf : ∀ a, (f a).Declares ds') : (script >>= f).Declares (ds ++ ds') := by
  induction h with
  | done a => exact hf a
  | ask _ ih =>
    rw [List.append_assoc]
    exact ask ih

/-- A list of scripts that declare nothing declares nothing. -/
theorem mapM {f : γ → Script β} {xs : List γ} (h : ∀ x ∈ xs, (f x).Declares []) :
    (xs.mapM f).Declares [] := by
  induction xs with
  | nil => exact pure _
  | cons x rest ih =>
    rw [List.mapM_cons]
    refine (h x List.mem_cons_self).bind fun y => ?_
    exact (ih fun z hz => h z (List.mem_cons_of_mem _ hz)).bind fun ys => pure _

theorem forM {f : γ → Script PUnit} {xs : List γ} (h : ∀ x ∈ xs, (f x).Declares []) :
    (xs.forM f).Declares [] := by
  induction xs with
  | nil => exact pure _
  | cons x rest ih =>
    exact (h x List.mem_cons_self).bind fun _ => ih fun z hz => h z (List.mem_cons_of_mem _ hz)

/-- Each single offer is one of the list. -/
theorem asks {Q : Request → Prop} {opened : Bool} {script : Script α} (h : script.Declares ds) :
    script.Asks (fun r => r.footprint.declarations ⊆ ds) Q opened := by
  induction h generalizing opened with
  | done a => exact .done a
  | ask _ ih =>
    refine .single (List.subset_append_left _ _) fun reply => ?_
    exact (ih reply).mono (fun r hr d hd => List.mem_append_right _ (hr hd)) (fun _ => id) id

end Declares

/-- Offering a declaration lists it, whether or not it is taken. -/
theorem declares_declare (symbol text : String) :
    (Script.declare symbol text).Declares [(symbol, text)] :=
  .ask (r := .declare symbol text) fun _ => .done _

theorem declares_setup (symbol text : String) : (Script.setup symbol text).Declares [] :=
  .ask (r := .setup symbol text) fun _ => .done _

theorem declares_notice (n : Notice) : (Script.notice n).Declares [] :=
  .ask (r := .notice n) fun _ => .done _

theorem declares_report (d : Diagnostic) : (Script.report d).Declares [] :=
  .ask (r := .report d) fun _ => .done _

/-- What other blocks declare is listed with them. -/
theorem declares_generate (i : NodeId) : (Script.generate i).Declares [] :=
  .ask (r := .generate i) fun _ => .done _

theorem declares_setupLines : Script.setupLines.Declares [] :=
  .ask (r := .setupLines) fun _ => .done _

end Script

/-! ## Courses -/

namespace Job.Course

variable {j : Job} {α : Type} {script : Script α} {s s' : Run} {steps : List Step} {a : α}

/-- What a script declares is registered after it. -/
theorem contains_of_declares (h : j.Course script s steps a s') {ds : List (String × String)}
    (hd : script.Declares ds) : ∀ d ∈ ds, s'.declarations.contains d.1 = true := by
  induction h generalizing ds with
  | done =>
    cases hd
    exact fun d hmem => absurd hmem List.not_mem_nil
  | block _ _ _ ihrest =>
    cases hd with
    | ask hd => exact ihrest (hd _)
  | plain hanswer hrest ih =>
    cases hd with
    | ask hd =>
      intro d hmem
      rcases List.mem_append.mp hmem with hnow | hlater
      · refine hrest.precedes.contains_declarations ?_
        rw [(Request.marks_of_plain_answer hanswer).declarations, Collector.contains_registerAll]
        exact Or.inr (List.mem_map_of_mem hnow)
      · exact ih (hd _) d hlater

/-- What is registered after a course was there before, or was offered at one of its steps. -/
theorem offered_of_mem (h : j.Course script s steps a s') {e : String × String}
    (he : e ∈ s'.declarations.entries) :
    e ∈ s.declarations.entries ∨ ∃ step ∈ steps, e ∈ step.request.footprint.declarations := by
  induction h with
  | done => exact Or.inl he
  | block _ _ ihinside ihrest =>
    rcases ihrest he with hmiddle | ⟨step, hstep, hoffer⟩
    · rcases ihinside hmiddle with hstart | ⟨step, hstep, hoffer⟩
      · exact Or.inl hstart
      · exact Or.inr ⟨step, List.mem_cons_of_mem _ (List.mem_append_left _ hstep), hoffer⟩
    · exact Or.inr ⟨step, List.mem_cons_of_mem _ (List.mem_append_right _ hstep), hoffer⟩
  | @plain _ r _ s _ _ _ _ _ hanswer _ ih =>
    rcases ih he with hnow | ⟨step, hstep, hoffer⟩
    · rw [(Request.marks_of_plain_answer hanswer).declarations] at hnow
      rcases Collector.mem_of_mem_registerAll hnow with hstart | hoffer
      · exact Or.inl hstart
      · exact Or.inr ⟨⟨r, s⟩, List.mem_cons_self, hoffer⟩
    · exact Or.inr ⟨step, List.mem_cons_of_mem _ hstep, hoffer⟩

/-- The script of a block that is asked for takes a course of its own. -/
theorem exists_inside (h : j.Course script s steps a s') {step : Step} (hstep : step ∈ steps)
    {i : NodeId} (hi : step.request = .generate i) :
    ∃ inside c s₁, j.Course (j.blockScript i) step.run inside c s₁ ∧ s₁.Precedes s' := by
  induction h with
  | done => cases hstep
  | block hinside hrest ihinside ihrest =>
    rcases List.mem_cons.mp hstep with rfl | hstep
    · cases hi
      exact ⟨_, _, _, hinside, hrest.precedes⟩
    · rcases List.mem_append.mp hstep with hstep | hstep
      · obtain ⟨inside, c, s₁, hcourse, hprecedes⟩ := ihinside hstep
        exact ⟨inside, c, s₁, hcourse, hprecedes.trans hrest.precedes⟩
      · exact ihrest hstep
  | plain hanswer _ ih =>
    rcases List.mem_cons.mp hstep with rfl | hstep
    · cases hi
      cases hanswer
    · exact ih hstep

end Job.Course

/-! ## The declarations of each kind of block -/

namespace Blocks

/-- The import of pins. -/
def pinImport : String × String :=
  ("import_pin", "from machine import Pin")

/-- The import of pulse width modulation. -/
def pwmImport : String × String :=
  ("import_pwm", "from machine import PWM")

/-- The import of the clock. -/
def timeImport : String × String :=
  ("import_time", "import time")

/-- The first line of a procedure on the Arduino. -/
def signature (n : Node) : String :=
  (if returnsValue n then n.fieldOr "TYPE" "long" else "void") ++ " " ++
    nameField n "NAME" "do_something" ++ "(" ++
      ", ".intercalate ((parameters n).map ("long " ++ ·)) ++ ")"

/-- The declaration of a timed repeat's variable. -/
def timerDeclaration (t : Target) (state : String) : String :=
  match t with
  | .arduino => "unsigned long " ++ state ++ " = 0;"
  | .microPython => state ++ " = 0"

end Blocks

open Blocks in
/-- The declarations that a block of the kind offers, in order. -/
def BlockKind.declarations (t : Target) (n : Node) (kind : BlockKind) : List (String × String) :=
  match kind, t with
  | procedure, .arduino => [("proto_" ++ nameField n "NAME" "do_something", signature n ++ ";")]
  | servoAttach, .arduino =>
    let name := nameField n "NAME" "servo"
    [("include_servo", "#include <Servo.h>"), ("servo_" ++ name, "Servo " ++ name ++ ";")]
  | interruptAttach, .arduino =>
    let handler := nameField n "HANDLER" "on_interrupt"
    [("proto_" ++ handler, "void " ++ handler ++ "();")]
  | countingLoop, .arduino =>
    let var := nameField n "VAR" "i"
    [("var_" ++ var, "long " ++ var ++ " = 0;")]
  | assignment, .arduino =>
    let var := nameField n "VAR" "item"
    [("var_" ++ var, n.fieldOr "TYPE" "long" ++ " " ++ var ++ " = 0;")]
  | timedRepeat, .arduino => [(timerState n, timerDeclaration .arduino (timerState n))]
  | serialSetup, .microPython => [("import_uart", "from machine import UART")]
  | servoAttach, .microPython => [pinImport, pwmImport]
  | interruptAttach, .microPython => [pinImport]
  | countingLoop, .microPython =>
    let var := nameField n "VAR" "i"
    [("var_" ++ var, var ++ " = 0")]
  | assignment, .microPython =>
    let var := nameField n "VAR" "item"
    [("var_" ++ var, var ++ " = 0")]
  | timedRepeat, .microPython =>
    [timeImport, (timerState n, timerDeclaration .microPython (timerState n))]
  | digitalWrite, .microPython =>
    let pin := n.fieldOr "PIN" "2"
    let name := "pin_out_" ++ Text.suffix pin
    [pinImport, (name, name ++ " = Pin(" ++ pin ++ ", Pin.OUT)")]
  | analogWrite, .microPython =>
    let pin := n.fieldOr "PIN" "4"
    let name := "pwm_" ++ Text.suffix pin
    [pinImport, pwmImport, (name, name ++ " = PWM(Pin(" ++ pin ++ "))")]
  | digitalRead, .microPython =>
    let pin := n.fieldOr "PIN" "0"
    let name := "pin_in_" ++ Text.suffix pin
    [pinImport, (name, name ++ " = Pin(" ++ pin ++ ", Pin.IN)")]
  | analogRead, .microPython =>
    let pin := n.fieldOr "PIN" "34"
    let name := "adc_" ++ Text.suffix pin
    [pinImport, ("import_adc", "from machine import ADC"),
      (name, name ++ " = ADC(Pin(" ++ pin ++ "))")]
  | milliseconds, .microPython | delay, .microPython => [timeImport]
  | servoWrite, .microPython =>
    [("servo_angle_fn",
      "def servo_angle(servo, degrees):\n    servo.duty(int(40 + degrees * 75 / 180))")]
  | _, _ => []

namespace Blocks

open Script

variable {t : Target} {j : Job} {n : Node} {i : NodeId}

/-! ### Slots -/

/-- Looking into a slot declares nothing. -/
theorem declares_valueCode? (j : Job) (n : Node) (slot : String) (outer : Order) :
    (j.valueCode? n slot outer).Declares [] := by
  unfold Job.valueCode?
  cases n.values.get? slot with
  | none => exact .pure _
  | some child =>
    refine (declares_generate child).bind fun code => ?_
    cases code with
    | expression text inner => exact .pure _
    | statement text =>
      show (if !text.isEmpty then _ else _ : Script _).Declares []
      split
      · exact (declares_notice _).bind fun _ => .pure _
      · exact .pure _

theorem declares_valueCode (j : Job) (n : Node) (slot : String) (outer : Order)
    (fallback : String) : (j.valueCode n slot outer fallback).Declares [] :=
  (declares_valueCode? j n slot outer).bind fun _ => .pure _

theorem declares_chainCode (j : Job) (head : NodeId) : (j.chainCode head).Declares [] :=
  (Declares.mapM fun c _ => (declares_generate c).bind fun _ => .pure _).bind fun _ => .pure _

theorem declares_slotCode (j : Job) (n : Node) (slot : String) :
    (j.slotCode n slot).Declares [] := by
  unfold Job.slotCode
  cases n.statements.get? slot with
  | none => exact .pure _
  | some head => exact (declares_chainCode j head).bind fun _ => .pure _

theorem declares_bodyCode (j : Job) (n : Node) (slot : String) :
    (j.bodyCode n slot).Declares [] :=
  (declares_slotCode j n slot).bind fun _ => .pure _

/-! ### Kinds without declarations -/

theorem declares_binary (j : Job) (n : Node) (sign : String) (order : Order) (fallback : String) :
    (binary j n sign order fallback).Declares [] :=
  (declares_valueCode j n _ _ _).bind fun _ => (declares_valueCode j n _ _ _).bind fun _ => .pure _

theorem declares_applyArithmetic (op : ArithmeticOp) :
    (applyArithmetic t j n op).Declares [] := by
  unfold applyArithmetic
  split
  · exact (declares_valueCode j n _ _ _).bind fun _ =>
      (declares_valueCode j n _ _ _).bind fun _ => .pure _
  · exact declares_binary j n _ _ _

/-- Operators need no declarations, nor do those that are written as calls. -/
theorem declares_arithmetic : (arithmetic t j n).Declares [] := by
  simp only [arithmetic]
  cases ArithmeticOp.ofField? (n.fieldOr "OP" "ADD") with
  | some op => exact declares_applyArithmetic op
  | none => exact (declares_notice _).bind fun _ => declares_applyArithmetic .add

theorem declares_negation : (negation t j n).Declares [] :=
  (declares_valueCode j n _ _ _).bind fun _ => .pure _

theorem declares_call : (call t j n).Declares [] :=
  (Declares.mapM fun _ _ => declares_valueCode j n _ _ _).bind fun _ => .pure _

theorem declares_serialPrint : (serialPrint t j n).Declares [] := by
  cases t <;> exact (declares_valueCode j n _ _ _).bind fun _ => .pure _

theorem declares_braceOtherwise : (braceOtherwise j n).Declares [] := by
  unfold braceOtherwise
  split
  · exact (declares_slotCode j n _).bind fun _ => .pure _
  · exact .pure _

theorem declares_colonOtherwise : (colonOtherwise j n).Declares [] := by
  unfold colonOtherwise
  split
  · exact (declares_bodyCode j n _).bind fun _ => .pure _
  · exact .pure _

/-- Control blocks without variables of their own declare nothing. -/
theorem declares_conditional : (conditional t j n).Declares [] := by
  cases t with
  | arduino =>
    refine (Declares.mapM fun k _ => ?_).bind fun _ => declares_braceOtherwise.bind fun _ => .pure _
    exact (declares_valueCode j n _ _ _).bind fun _ =>
      (declares_slotCode j n _).bind fun _ => .pure _
  | microPython =>
    refine (Declares.mapM fun k _ => ?_).bind fun _ => declares_colonOtherwise.bind fun _ => .pure _
    exact (declares_valueCode j n _ _ _).bind fun _ =>
      (declares_bodyCode j n _).bind fun _ => .pure _

theorem declares_repeatLoop : (repeatLoop t j n).Declares [] := by
  cases t with
  | arduino =>
    exact (declares_valueCode j n _ _ _).bind fun _ =>
      (declares_slotCode j n _).bind fun _ => .pure _
  | microPython =>
    exact (declares_valueCode j n _ _ _).bind fun _ =>
      (declares_bodyCode j n _).bind fun _ => .pure _

theorem declares_loopCondition : (loopCondition t j n).Declares [] := by
  unfold loopCondition
  split
  · exact (declares_valueCode j n _ _ _).bind fun _ => .pure _
  · exact declares_valueCode j n _ _ _

theorem declares_conditionLoop : (conditionLoop t j n).Declares [] := by
  refine declares_loopCondition.bind fun _ => ?_
  cases t with
  | arduino => exact (declares_slotCode j n _).bind fun _ => .pure _
  | microPython => exact (declares_bodyCode j n _).bind fun _ => .pure _

theorem declares_loopExit : (loopExit j i n).Declares [] := by
  unfold loopExit
  cases j.standsInLoop i with
  | true => exact .pure _
  | false => exact (declares_notice _).bind fun _ => .pure _

theorem declares_returnStatement : (returnStatement j n).Declares [] := by
  refine (declares_valueCode? j n _ _).bind fun value => ?_
  cases value <;> exact .pure _

/-- The pass leaves declarations to the blocks that it generates. -/
theorem declares_alwaysEmittedPass (j : Job) : j.alwaysEmittedPass.Declares [] := by
  refine .ask (r := .beginPass) fun reply => ?_
  cases reply with
  | false => exact .pure _
  | true =>
    refine Declares.forM fun c _ => (declares_generate c).bind fun code => ?_
    show (if !code.isEmpty then _ else _ : Script _).Declares []
    split
    · exact declares_notice _
    · exact .pure _

/-- An entry point declares nothing itself. -/
theorem declares_entry : (entry t j n).Declares [] := by
  refine .ask (r := .enterProgram n.key) fun _ => (declares_alwaysEmittedPass j).bind fun _ => ?_
  cases t with
  | arduino =>
    exact (declares_slotCode j n _).bind fun _ => (declares_slotCode j n _).bind fun _ =>
      declares_setupLines.bind fun _ => .pure _
  | microPython =>
    have hrest : ∀ f : String → String → Code,
        (do return f (← j.bodyCode n "LOOP") (← Script.setupLines) : Script Code).Declares [] :=
      fun f => (declares_bodyCode j n _).bind fun _ => declares_setupLines.bind fun _ => .pure _
    dsimp only
    cases n.statements.get? "SETUP" with
    | none => exact hrest _
    | some head => exact (declares_chainCode j head).bind fun _ => hrest _

/-! ### Kinds with declarations -/

theorem declares_serialSetup :
    (serialSetup t n).Declares (BlockKind.serialSetup.declarations t n) := by
  cases t with
  | arduino => exact (declares_setup _ _).bind fun _ => .pure _
  | microPython =>
    exact (declares_declare _ _).bind fun _ => (declares_setup _ _).bind fun _ => .pure _

/-- What a servo needs is imported or included first; only the Arduino declares the servo too. -/
theorem declares_servoAttach :
    (servoAttach t n).Declares (BlockKind.servoAttach.declarations t n) := by
  cases t <;>
    exact (declares_declare _ _).bind fun _ => (declares_declare _ _).bind fun _ =>
      (declares_setup _ _).bind fun _ => .pure _

theorem declares_interruptTrigger : (interruptTrigger t n).Declares [] := by
  simp only [interruptTrigger]
  cases interruptTrigger? t (n.fieldOr "MODE" "RISING") with
  | some trigger => exact .pure _
  | none => exact (declares_notice _).bind fun _ => .pure _

/-- The handler of an interrupt is declared, as far as the target wants that. -/
theorem declares_interruptAttach :
    (interruptAttach t n).Declares (BlockKind.interruptAttach.declarations t n) := by
  refine declares_interruptTrigger.bind fun trigger => ?_
  cases t with
  | arduino =>
    exact (declares_declare _ _).bind fun _ => (declares_setup _ _).bind fun _ => .pure _
  | microPython =>
    exact (declares_declare _ _).bind fun _ => (declares_setup _ _).bind fun _ =>
      (declares_setup _ _).bind fun _ => .pure _

/-- The object for a pin is declared below the import of its class. -/
theorem declares_digitalWrite :
    (digitalWrite t j n).Declares (BlockKind.digitalWrite.declarations t n) := by
  cases t with
  | arduino =>
    exact .ask (r := .setupBeside _ _ _ _) fun _ =>
      (declares_valueCode j n _ _ _).bind fun _ => .pure _
  | microPython =>
    exact (declares_declare _ _).bind fun _ => (declares_declare _ _).bind fun _ =>
      (declares_valueCode j n _ _ _).bind fun _ => .pure _

/-- A pin with pulse width modulation needs the imports of both classes. -/
theorem declares_analogWrite :
    (analogWrite t j n).Declares (BlockKind.analogWrite.declarations t n) := by
  cases t with
  | arduino =>
    exact .ask (r := .setupBeside _ _ _ _) fun _ =>
      (declares_valueCode j n _ _ _).bind fun _ => .pure _
  | microPython =>
    exact (declares_declare _ _).bind fun _ => (declares_declare _ _).bind fun _ =>
      (declares_declare _ _).bind fun _ => (declares_valueCode j n _ _ _).bind fun _ => .pure _

theorem declares_digitalRead :
    (digitalRead t n).Declares (BlockKind.digitalRead.declarations t n) := by
  cases t with
  | arduino => exact .ask (r := .setupBeside _ _ _ _) fun _ => .pure _
  | microPython =>
    exact (declares_declare _ _).bind fun _ => (declares_declare _ _).bind fun _ => .pure _

theorem declares_analogRead :
    (analogRead t n).Declares (BlockKind.analogRead.declarations t n) := by
  cases t with
  | arduino => exact .pure _
  | microPython =>
    exact (declares_declare _ _).bind fun _ => (declares_declare _ _).bind fun _ =>
      (declares_declare _ _).bind fun _ => .pure _

theorem declares_milliseconds :
    (milliseconds t).Declares (BlockKind.milliseconds.declarations t n) := by
  cases t with
  | arduino => exact .pure _
  | microPython => exact (declares_declare _ _).bind fun _ => .pure _

theorem declares_delay : (delay t j n).Declares (BlockKind.delay.declarations t n) := by
  cases t with
  | arduino => exact (declares_valueCode j n _ _ _).bind fun _ => .pure _
  | microPython =>
    exact (declares_declare _ _).bind fun _ => (declares_valueCode j n _ _ _).bind fun _ => .pure _

theorem declares_servoWrite :
    (servoWrite t j n).Declares (BlockKind.servoWrite.declarations t n) := by
  cases t with
  | arduino => exact (declares_valueCode j n _ _ _).bind fun _ => .pure _
  | microPython =>
    exact (declares_declare _ _).bind fun _ => (declares_valueCode j n _ _ _).bind fun _ => .pure _

/-- A variable is declared before it is assigned. -/
theorem declares_assignment :
    (assignment t j n).Declares (BlockKind.assignment.declarations t n) := by
  cases t <;>
    exact (declares_declare _ _).bind fun _ => (declares_valueCode j n _ _ _).bind fun _ => .pure _

/-- The variable that counts is declared like one that is assigned. -/
theorem declares_countingLoop :
    (countingLoop t j n).Declares (BlockKind.countingLoop.declarations t n) := by
  cases t with
  | arduino =>
    exact (declares_declare _ _).bind fun _ => (declares_valueCode j n _ _ _).bind fun _ =>
      (declares_valueCode j n _ _ _).bind fun _ => (declares_valueCode j n _ _ _).bind fun _ =>
        (declares_slotCode j n _).bind fun _ => .pure _
  | microPython =>
    exact (declares_declare _ _).bind fun _ => (declares_valueCode j n _ _ _).bind fun _ =>
      (declares_valueCode j n _ _ _).bind fun _ => (declares_valueCode j n _ _ _).bind fun _ =>
        (declares_bodyCode j n _).bind fun _ => .pure _

/-- A timed repeat declares the variable that holds its last time. -/
theorem declares_timedRepeat :
    (timedRepeat t j n).Declares (BlockKind.timedRepeat.declarations t n) := by
  cases t with
  | arduino =>
    exact (declares_declare _ _).bind fun _ => (declares_valueCode j n _ _ _).bind fun _ =>
      (declares_slotCode j n _).bind fun _ => .pure _
  | microPython =>
    exact (declares_declare _ _).bind fun _ => (declares_declare _ _).bind fun _ =>
      (declares_valueCode j n _ _ _).bind fun _ => (declares_slotCode j n _).bind fun _ => .pure _

theorem declares_returnLine : (returnLine j n).Declares [] := by
  unfold returnLine
  split
  · refine (declares_valueCode? j n _ _).bind fun value => ?_
    cases value <;> exact .pure _
  · exact .pure _

/-- On the Arduino the first line of a procedure is declared ahead. -/
theorem declares_procedure :
    (procedure t j i n).Declares (BlockKind.procedure.declarations t n) := by
  cases t with
  | arduino =>
    exact (declares_declare _ _).bind fun _ => (declares_slotCode j n _).bind fun _ =>
      declares_returnLine.bind fun _ => .pure _
  | microPython =>
    exact (declares_slotCode j n _).bind fun _ => declares_returnLine.bind fun _ => .pure _

end Blocks

/-! ## The declarations of a run -/

/-- A guarded block outside of containers declares nothing. -/
theorem Job.declares_guarded {j : Job} {i : NodeId} {code : Script Code}
    {ds : List (String × String)} (h : code.Declares ds) :
    (j.guarded i code).Declares (if j.graph.isInside j.backend.containers i then ds else []) := by
  unfold guarded standsInContainer
  cases j.graph.isInside j.backend.containers i with
  | true => exact h
  | false =>
    exact (Script.declares_notice _).bind fun _ => (Script.declares_report _).bind fun _ => .pure _

namespace Generator

/-- The declarations that a block offers, in order: none if it needs a container and has none. -/
def declarations (g : Generator) (j : Job) (i : NodeId) : List (String × String) :=
  if g.kind.isGuarded && !j.graph.isInside j.backend.containers i then []
  else g.kind.declarations g.target (j.node i)

/-- Every generator declares what its kind lists. -/
theorem declares_script (g : Generator) (j : Job) (i : NodeId) :
    (g.script j i).Declares (g.declarations j i) := by
  obtain ⟨t, kind⟩ := g
  have hguard : ∀ {code : Script Code}, kind.isGuarded = true →
      code.Declares (kind.declarations t (j.node i)) →
      (j.guarded i code).Declares (declarations ⟨t, kind⟩ j i) := by
    intro code hkind hcode
    have hguarded := Job.declares_guarded (j := j) (i := i) hcode
    simp only [declarations, hkind, Bool.true_and]
    cases hin : j.graph.isInside j.backend.containers i with
    | true => simpa [hin] using hguarded
    | false => simpa [hin] using hguarded
  cases kind with
  | entry => exact Blocks.declares_entry
  | procedure => exact Blocks.declares_procedure
  | serialSetup => exact Blocks.declares_serialSetup
  | servoAttach => exact Blocks.declares_servoAttach
  | interruptAttach => exact Blocks.declares_interruptAttach
  | conditional => exact hguard rfl Blocks.declares_conditional
  | repeatLoop => exact hguard rfl Blocks.declares_repeatLoop
  | conditionLoop => exact hguard rfl Blocks.declares_conditionLoop
  | countingLoop => exact hguard rfl Blocks.declares_countingLoop
  | loopExit => exact hguard rfl Blocks.declares_loopExit
  | returnStatement => exact hguard rfl Blocks.declares_returnStatement
  | timedRepeat => exact hguard rfl Blocks.declares_timedRepeat
  | assignment => exact Blocks.declares_assignment
  | digitalWrite => exact Blocks.declares_digitalWrite
  | analogWrite => exact Blocks.declares_analogWrite
  | serialPrint => exact Blocks.declares_serialPrint
  | delay => exact Blocks.declares_delay
  | servoWrite => exact Blocks.declares_servoWrite
  | callStatement => exact Blocks.declares_call.bind fun _ => .pure _
  | arithmetic => exact Blocks.declares_arithmetic
  | comparison | logic => exact Blocks.declares_binary _ _ _ _ _
  | negation => exact Blocks.declares_negation
  | callExpression => exact Blocks.declares_call.bind fun _ => .pure _
  | number | boolean | text | variableValue => exact .pure _
  | digitalRead => exact Blocks.declares_digitalRead
  | analogRead => exact Blocks.declares_analogRead
  | milliseconds => exact Blocks.declares_milliseconds

end Generator

namespace Job

variable {j : Job}

/-- The declarations that a block offers, in order. -/
def declarations (j : Job) (i : NodeId) : List (String × String) :=
  match j.backend.generators.get? (j.node i).type with
  | some gen => gen.declarations j i
  | none => []

/-- **A block offers the declarations of its kind.** -/
theorem declares_blockScript (j : Job) (i : NodeId) :
    (j.blockScript i).Declares (j.declarations i) := by
  simp only [blockScript, declarations]
  cases j.backend.generators.get? (j.node i).type with
  | some gen => exact gen.declares_script j i
  | none =>
    exact (Script.declares_notice _).bind fun _ => (Script.declares_report _).bind fun _ => .pure _

/-- What a block declares is listed by the kind of its type. -/
theorem exists_kind_of_mem_declarations {g : Graph} {t : Target} {i : NodeId}
    {d : String × String} (h : d ∈ declarations ⟨g, t.backend⟩ i) :
    ∃ kind, d ∈ BlockKind.declarations t (g.node i) kind := by
  simp only [declarations, node] at h
  cases hget : t.backend.generators.get? (g.node i).type with
  | none => simp [hget] at h
  | some gen =>
    simp only [hget, Generator.declarations] at h
    split at h
    · cases h
    · rw [Target.eq_of_get? hget] at h
      exact ⟨gen.kind, h⟩

theorem footprint_of_atTop {r : Request} (h : j.AtTop r) : r.footprint.declarations = [] := by
  cases r with
  | generate | report | notice => rfl
  | _ => exact h.elim

namespace Course

variable {α : Type} {script : Script α} {s s' : Run} {steps : List Step} {a : α}

/-- What the blocks of a run declare is registered in the end. -/
theorem contains_declaration (h : j.Course script s steps a s') {i : NodeId}
    (hi : i ∈ Step.blocks steps) {d : String × String} (hd : d ∈ j.declarations i) :
    s'.declarations.contains d.1 = true := by
  obtain ⟨step, hstep, hrequest⟩ := Step.mem_blocks.mp hi
  obtain ⟨inside, c, s₁, hcourse, hprecedes⟩ := h.exists_inside hstep hrequest
  exact hprecedes.contains_declarations
    (hcourse.contains_of_declares (j.declares_blockScript i) d hd)

/-- Whatever a compilation registers as a declaration is one of a block. -/
theorem exists_declaration {options : Options} {texts : List (NodeId × String)}
    (h : j.Course (j.sections options) {} steps texts s') {e : String × String}
    (he : e ∈ s'.declarations.entries) : ∃ i, e ∈ j.declarations i := by
  let P : Request → Prop := fun r => ∀ e ∈ r.footprint.declarations, ∃ i, e ∈ j.declarations i
  have hblocks : ∀ i, (j.blockScript i).Asks P P false := fun i =>
    (j.declares_blockScript i).asks.mono (fun r hr e he => ⟨i, hr he⟩) (fun _ => id) id
  have hsections : (j.sections options).Asks P P false := by
    refine (j.asks_sections options P false).mono (fun r hr e he => ?_) (fun _ => id) id
    rw [footprint_of_atTop hr] at he
    cases he
  rcases h.offered_of_mem he with hstart | ⟨step, hstep, hoffer⟩
  · cases hstart
  · exact h.forall_request hblocks hsections step hstep e hoffer

end Course

end Job

end BlockCompiler
