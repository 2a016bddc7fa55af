import BlockCompiler.Proofs.Generation.Depth
import BlockCompiler.Proofs.Generation.Registry

/-!
# Expressions where any may stand

Parentheses go around an expression whose order does not fit the place it is put into.  A
condition and an argument stand in places that take any expression, and no block of a target
turns into an expression looser than that (`Job.isBare_of_play?`).  So these stand in their
places as they are (`Code.IsBare.parenthesize_eq`).

The order of an expression is fixed by its block, whatever the blocks inside of it turn into:
`Script.Ends` says what all ends of a script have in common.
-/

namespace BlockCompiler

/-- Whatever the replies are, the result of the script satisfies `p`. -/
def Script.Ends {α : Type} (p : α → Prop) : Script α → Prop
  | .done a => p a
  | .ask _ resume => ∀ reply, (resume reply).Ends p

namespace Script

variable {α β : Type} {p : α → Prop} {q : β → Prop}

theorem ends_pure {a : α} (h : p a) : (pure a : Script α).Ends p := h

/-- The end is that of the second script. -/
theorem ends_bind {script : Script α} {f : α → Script β} (h : ∀ a, (f a).Ends q) :
    (script >>= f).Ends q := by
  induction script with
  | done a => exact h a
  | ask r resume ih => exact fun reply => ih reply

/-- What holds of all ends holds of the result. -/
theorem Ends.of_run {script : Script α} (h : script.Ends p)
    {code : NodeId → Run → Option (Code × Run)} {s s' : Run} {a : α}
    (hrun : script.run code s = some (a, s')) : p a := by
  induction script generalizing s with
  | done b =>
    cases hrun
    exact h
  | ask r resume ih =>
    obtain ⟨⟨reply, after⟩, -, hrest⟩ := Option.bind_eq_some_iff.mp hrun
    exact ih reply (h reply) hrest

end Script

/-- The code is a statement, or an expression that can stand where any can. -/
def Code.IsBare : Code → Prop
  | .statement _ => True
  | .expression _ order => order ≤ Order.loosest

/-- An expression that can stand where any can has no parentheses there. -/
theorem Code.IsBare.parenthesize_eq {text : String} {order : Order}
    (h : (Code.expression text order).IsBare) :
    parenthesize text order Order.loosest = text := by
  have hneutral : (decide (Order.loosest ≤ order) &&
      !(order == Order.loosest && (Order.loosest == Order.atomic ||
        Order.loosest == Order.loosest))) = false := by
    rcases Nat.lt_or_eq_of_le h with hlt | rfl
    · rw [decide_eq_false (Nat.not_le.mpr hlt), Bool.false_and]
    · rfl
  rw [parenthesize, hneutral]
  rfl

theorem Target.order_le_loosest (t : Target) (b : Binding) : t.order b ≤ Order.loosest := by
  cases t <;> cases b <;> decide

namespace Blocks

open Script

variable {t : Target} {j : Job} {n : Node}

theorem ends_binary (sign : String) (b : Binding) (fallback : String) :
    (binary j n sign (t.order b) fallback).Ends Code.IsBare :=
  ends_bind fun _ => ends_bind fun _ => ends_pure (t.order_le_loosest b)

theorem ends_applyArithmetic (op : ArithmeticOp) :
    (applyArithmetic t j n op).Ends Code.IsBare := by
  unfold applyArithmetic
  split
  · exact ends_bind fun _ => ends_bind fun _ => ends_pure (Target.order_le_loosest _ .call)
  · exact ends_binary _ _ _

theorem ends_arithmetic : (arithmetic t j n).Ends Code.IsBare := by
  simp only [arithmetic]
  split
  · exact ends_applyArithmetic _
  · exact ends_bind fun _ => ends_applyArithmetic _

theorem isBare_number (t : Target) (n : Node) : (number t n).IsBare := by
  show (if _ then _ else _) ≤ _
  split
  · exact t.order_le_loosest .sign
  · exact Nat.zero_le _

theorem ends_digitalRead : (digitalRead t n).Ends Code.IsBare := by
  cases t with
  | arduino => exact ends_bind fun _ => ends_pure (Target.order_le_loosest _ .call)
  | microPython =>
    exact ends_bind fun _ => ends_bind fun _ => ends_pure (Target.order_le_loosest _ .call)

theorem ends_analogRead : (analogRead t n).Ends Code.IsBare := by
  cases t with
  | arduino => exact ends_pure (Target.order_le_loosest _ .call)
  | microPython =>
    exact ends_bind fun _ => ends_bind fun _ => ends_bind fun _ =>
      ends_pure (Target.order_le_loosest _ .call)

theorem ends_milliseconds : (milliseconds t).Ends Code.IsBare := by
  cases t with
  | arduino => exact ends_pure (Target.order_le_loosest _ .call)
  | microPython => exact ends_bind fun _ => ends_pure (Target.order_le_loosest _ .call)

/-- A block that needs a container comes to its own code or to none. -/
theorem ends_guarded {i : NodeId} {script : Script Code} (h : script.Ends Code.IsBare) :
    (j.guarded i script).Ends Code.IsBare := by
  refine ends_bind fun inside => ?_
  cases inside with
  | true => exact h
  | false => exact ends_pure trivial

theorem ends_entry : (entry t j n).Ends Code.IsBare := by
  refine ends_bind fun _ => ends_bind fun _ => ?_
  cases t with
  | arduino => exact ends_bind fun _ => ends_bind fun _ => ends_bind fun _ => ends_pure trivial
  | microPython =>
    dsimp only
    cases n.statements.get? "SETUP" <;>
      exact ends_bind fun _ => ends_bind fun _ => ends_bind fun _ => ends_pure trivial

theorem ends_loopExit {i : NodeId} : (loopExit j i n).Ends Code.IsBare := by
  unfold loopExit
  cases j.standsInLoop i with
  | true => exact ends_pure trivial
  | false => exact ends_bind fun _ => ends_pure trivial

theorem ends_returnStatement : (returnStatement j n).Ends Code.IsBare := by
  refine ends_bind fun value => ?_
  cases value <;> exact ends_pure trivial

end Blocks

open Script Blocks in
/-- Every kind of block turns into a statement, or into an expression that can stand where any
can. -/
theorem Generator.ends_script (g : Generator) (j : Job) (i : NodeId) :
    (g.script j i).Ends Code.IsBare := by
  obtain ⟨t, kind⟩ := g
  cases kind with
  | entry => exact ends_entry
  | loopExit => exact ends_guarded ends_loopExit
  | returnStatement => exact ends_guarded ends_returnStatement
  | number => exact ends_pure (isBare_number t _)
  | arithmetic => exact ends_arithmetic
  | boolean | text | variableValue => exact ends_pure (Nat.zero_le _)
  | comparison | logic => exact ends_binary _ _ _
  | negation => exact ends_bind fun _ => ends_pure (t.order_le_loosest .negation)
  | digitalRead => exact ends_digitalRead
  | analogRead => exact ends_analogRead
  | milliseconds => exact ends_milliseconds
  | callExpression => exact ends_bind fun _ => ends_pure (t.order_le_loosest .call)
  | conditional | repeatLoop | conditionLoop | countingLoop | timedRepeat =>
    -- These have statements at the end of every way through them.
    refine ends_guarded ?_
    cases t <;> (repeat refine ends_bind fun _ => ?_) <;> exact ends_pure trivial
  | procedure | serialSetup | servoAttach | interruptAttach | assignment | digitalWrite
  | analogWrite | serialPrint | delay | servoWrite | callStatement =>
    cases t <;> (repeat refine ends_bind fun _ => ?_) <;> exact ends_pure trivial

namespace Job

variable {j : Job}

theorem ends_blockScript (j : Job) (i : NodeId) : (j.blockScript i).Ends Code.IsBare := by
  simp only [blockScript]
  split
  · exact Generator.ends_script _ j i
  · exact Script.ends_bind fun _ => Script.ends_bind fun _ => Script.ends_pure trivial

/-- **No block turns into an expression looser than any place.** -/
theorem isBare_of_play? (h : j.graph.IsForest) {i : NodeId} {s s' : Run} {c : Code}
    (hplay : j.play? (Script.generate i) s = some (c, s')) : c.IsBare := by
  rw [play?_generate h] at hplay
  exact (j.ends_blockScript i).of_run hplay

end Job

end BlockCompiler
