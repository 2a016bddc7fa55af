import BlockCompiler.Blocks.Hardware
import BlockCompiler.Decimal.Binary64

/-!
# Control blocks

Conditionals, loops, loop exits, returns and timed repeats make sense only inside
a routine: a control block without a container above it turns into nothing and is
reported.
-/

namespace BlockCompiler.Blocks

/-- The number of branches of a conditional: there is always one. -/
def branchCount (n : Node) : Nat :=
  max (n.slotCount ["IF", "DO"]) 1

/-- A branch of a conditional on the Arduino. -/
def braceBranch (j : Job) (n : Node) (i : Nat) : Script String := do
  let condition ← j.valueCode n ("IF" ++ i.repr) Order.loosest "false"
  let body ← j.slotCode n ("DO" ++ i.repr)
  let keyword := if i = 0 then "if" else " else if"
  return keyword ++ " (" ++ condition ++ ") \x7b\n" ++ body ++ "\x7d"

/-- What a conditional on the Arduino does otherwise, if that slot is filled. -/
def braceOtherwise (j : Job) (n : Node) : Script String := do
  if n.statements.contains "ELSE" then
    return " else \x7b\n" ++ (← j.slotCode n "ELSE") ++ "\x7d"
  else return ""

/-- A branch of a conditional in MicroPython. -/
def colonBranch (j : Job) (n : Node) (i : Nat) : Script String := do
  let condition ← j.valueCode n ("IF" ++ i.repr) Order.loosest "False"
  let body ← j.bodyCode n ("DO" ++ i.repr)
  let keyword := if i = 0 then "if" else "elif"
  return keyword ++ " " ++ condition ++ ":\n" ++ body

/-- What a conditional in MicroPython does otherwise, if that slot is filled. -/
def colonOtherwise (j : Job) (n : Node) : Script String := do
  if n.statements.contains "ELSE" then
    return "else:\n" ++ (← j.bodyCode n "ELSE")
  else return ""

/-- A conditional: its branches by their numbers, then what it does otherwise. -/
def conditional (t : Target) (j : Job) (n : Node) : Script Code :=
  match t with
  | .arduino => do
    let branches ← (List.range (branchCount n)).mapM (braceBranch j n)
    let otherwise ← braceOtherwise j n
    return .statement (String.join branches ++ otherwise ++ "\n")
  | .microPython => do
    let branches ← (List.range (branchCount n)).mapM (colonBranch j n)
    let otherwise ← colonOtherwise j n
    return .statement (String.join branches ++ otherwise)

/-- A loop that runs a number of times. -/
def repeatLoop (t : Target) (j : Job) (n : Node) : Script Code :=
  let counter := "count_" ++ n.symbolSuffix
  match t with
  | .arduino => do
    let times ← j.valueCode n "TIMES" (t.order .comparison) "0"
    let body ← j.slotCode n "DO"
    return .statement
      ("for (int " ++ counter ++ " = 0; " ++ counter ++ " < " ++ times ++ "; " ++ counter ++
        "++) \x7b\n" ++ body ++ "\x7d\n")
  | .microPython => do
    let times ← j.valueCode n "TIMES" Order.loosest "0"
    let body ← j.bodyCode n "DO"
    return .statement ("for " ++ counter ++ " in range(" ++ times ++ "):\n" ++ body)

/-- The condition of a loop that runs while it holds, or until it holds. -/
def loopCondition (t : Target) (j : Job) (n : Node) : Script String :=
  if n.fieldOr "MODE" "WHILE" = "UNTIL" then do
    return t.negationSign ++ (← j.valueCode n "BOOL" (t.order .negation) (t.truth false))
  else j.valueCode n "BOOL" Order.loosest (t.truth false)

/-- A loop that runs on a condition. -/
def conditionLoop (t : Target) (j : Job) (n : Node) : Script Code := do
  let condition ← loopCondition t j n
  match t with
  | .arduino => do
    let body ← j.slotCode n "DO"
    return .statement ("while (" ++ condition ++ ") \x7b\n" ++ body ++ "\x7d\n")
  | .microPython => do
    let body ← j.bodyCode n "DO"
    return .statement ("while " ++ condition ++ ":\n" ++ body)

/-- The value of generated code that is a plain number. -/
def literalValue? (code : String) : Option Binary64 :=
  Numeral.value? (Text.trim code).toList

/-- The test and the step of a counting loop on the Arduino.  A step that is a plain number fixes
the direction, any other is looked at when the loop runs. -/
def countingHeader (var last step : String) : String × String :=
  match literalValue? step with
  | some x =>
    if x.isNegative then
      (var ++ " >= " ++ last,
        var ++ " -= " ++ String.ofList ((Text.trim step).toList.dropWhile (· == '-')))
    else (var ++ " <= " ++ last, var ++ " += " ++ step)
  | none =>
    (step ++ " >= 0 ? " ++ var ++ " <= " ++ last ++ " : " ++ var ++ " >= " ++ last,
      var ++ " += " ++ step)

/-- A bound moved by one, up or down: worked out if the bound is a whole number that stays in
range. -/
def movedBound (bound : String) (up : Bool) : String :=
  let delta : Int := if up then 1 else -1
  match ((Whole.signed? (Text.trim bound).toList).map (· + delta)).filter Whole.inSignedRange with
  | some n => Whole.render n
  | none => bound ++ if up then " + 1" else " - 1"

/-- The range of a counting loop in MicroPython; its end is not part of it, so it lies one past the
last value. -/
def countingRange (start last step : String) : String :=
  if step = "1" then "range(" ++ start ++ ", " ++ movedBound last true ++ ")"
  else
    match literalValue? step with
    | some x =>
      "range(" ++ start ++ ", " ++ movedBound last (!x.isNegative) ++ ", " ++ step ++ ")"
    | none =>
      "range(" ++ start ++ ", " ++ movedBound last true ++ " if " ++ step ++ " > 0 else " ++
        movedBound last false ++ ", " ++ step ++ ")"

/-- A loop that counts from one bound to another. -/
def countingLoop (t : Target) (j : Job) (n : Node) : Script Code :=
  let var := nameField n "VAR" "i"
  match t with
  | .arduino => do
    Script.declare ("var_" ++ var) ("long " ++ var ++ " = 0;")
    let start ← j.valueCode n "FROM" (t.order .assignment) "0"
    let last ← j.valueCode n "TO" (t.order .comparison) "0"
    let step ← j.valueCode n "BY" (t.order .comparison) "1"
    let body ← j.slotCode n "DO"
    let header := countingHeader var last step
    return .statement
      ("for (" ++ var ++ " = " ++ start ++ "; " ++ header.1 ++ "; " ++ header.2 ++ ") \x7b\n" ++
        body ++ "\x7d\n")
  | .microPython => do
    Script.declare ("var_" ++ var) (var ++ " = 0")
    let start ← j.valueCode n "FROM" Order.loosest "0"
    let last ← j.valueCode n "TO" (t.order .sum) "0"
    let step ← j.valueCode n "BY" (t.order .comparison) "1"
    let body ← j.bodyCode n "DO"
    return .statement ("for " ++ var ++ " in " ++ countingRange start last step ++ ":\n" ++ body)

/-- Leaves a loop or goes on with its next round.  Outside of a loop a comment takes its place. -/
def loopExit (j : Job) (i : NodeId) (n : Node) : Script Code :=
  let keyword := if n.fieldOr "FLOW" "BREAK" = "CONTINUE" then "continue" else "break"
  if j.standsInLoop i then return .statement (j.line keyword)
  else do
    Script.notice (.exitOutsideLoop keyword n.key)
    return .statement (j.comment (keyword ++ " outside of a loop"))

/-- Returns from a routine, with or without a value. -/
def returnStatement (j : Job) (n : Node) : Script Code := do
  match ← j.valueCode? n "VALUE" Order.loosest with
  | some value => return .statement (j.line ("return " ++ value))
  | none => return .statement (j.line "return")

/-- The variable in which a timed repeat keeps the time of its last round. -/
def timerState (n : Node) : String :=
  "every_" ++ n.symbolSuffix ++ "_last"

/-- Does something each time an interval has passed. -/
def timedRepeat (t : Target) (j : Job) (n : Node) : Script Code :=
  let state := timerState n
  match t with
  | .arduino => do
    Script.declare state ("unsigned long " ++ state ++ " = 0;")
    let interval ← j.valueCode n "INTERVAL" (t.order .comparison) "1000"
    let body ← j.slotCode n "DO"
    return .statement
      ("if (millis() - " ++ state ++ " >= " ++ interval ++ ") \x7b\n" ++
        j.indent (j.line (state ++ " = millis()")) ++ body ++ "\x7d\n")
  | .microPython => do
    importTime
    Script.declare state (state ++ " = 0")
    let interval ← j.valueCode n "INTERVAL" (t.order .comparison) "1000"
    let body ← j.slotCode n "DO"
    return .statement
      ("if time.ticks_diff(time.ticks_ms(), " ++ state ++ ") >= " ++ interval ++ ":\n" ++
        j.indent (state ++ " = time.ticks_ms()\n") ++ body)

/-- Sets a variable. -/
def assignment (t : Target) (j : Job) (n : Node) : Script Code := do
  let var := nameField n "VAR" "item"
  match t with
  | .arduino =>
    Script.declare ("var_" ++ var) (n.fieldOr "TYPE" "long" ++ " " ++ var ++ " = 0;")
  | .microPython => Script.declare ("var_" ++ var) (var ++ " = 0")
  let value ← j.valueCode n "VALUE" (t.order .assignment) "0"
  return .statement (j.line (var ++ " = " ++ value))

/-- A call as a statement. -/
def callStatement (t : Target) (j : Job) (n : Node) : Script Code := do
  return .statement (j.line (← call t j n))

end BlockCompiler.Blocks
