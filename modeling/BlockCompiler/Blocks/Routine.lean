import BlockCompiler.Blocks.Control

/-!
# Routines

Entry points and procedures.  An entry point makes the pass over the
always-emitted blocks and then takes over the lines of the setup; it is generated
after all other roots, so that their lines are among them.
-/

namespace BlockCompiler.Blocks

/-- The entry point of a program. -/
def entry (t : Target) (j : Job) (n : Node) : Script Code := do
  Script.enterProgram n.key
  j.alwaysEmittedPass
  match t with
  | .arduino => do
    let setupBody ← j.slotCode n "SETUP"
    let loopBody ← j.slotCode n "LOOP"
    let lines ← Script.setupLines
    return .statement
      ("void setup() \x7b\n" ++ j.indent lines ++ setupBody ++ "\x7d\n\nvoid loop() \x7b\n" ++
        loopBody ++ "\x7d\n")
  | .microPython => do
    let setupBody ← match n.statements.get? "SETUP" with
      | some head => j.chainCode head
      | none => pure ""
    let loopBody ← j.bodyCode n "LOOP"
    let lines ← Script.setupLines
    let opening := lines ++ setupBody
    return .statement
      (opening ++ (if opening.isEmpty then "" else "\n") ++ "while True:\n" ++ loopBody)

/-- The procedure returns a value. -/
def returnsValue (n : Node) : Bool :=
  n.type == "procedures_defreturn"

/-- The names of a procedure's parameters. -/
def parameters (n : Node) : List String :=
  Text.nameList ((n.fields.get? "PARAMS").getD "") "arg"

/-- The line that returns a procedure's value, if it has one. -/
def returnLine (j : Job) (n : Node) : Script String :=
  if returnsValue n then do
    match ← j.valueCode? n "RETURN" Order.loosest with
    | some value => return j.indent (j.line ("return " ++ value))
    | none => return ""
  else return ""

/-- The name of the variable that a block assigns. -/
def assignedName? (n : Node) : Option String :=
  match n.type with
  | "variables_set" => some (nameField n "VAR" "item")
  | "controls_for" => some (nameField n "VAR" "i")
  | "time_every" => some (timerState n)
  | _ => none

/-- The variables that the blocks of a procedure assign, apart from its parameters; each once, by
increasing name. -/
def assignedGlobals (j : Job) (i : NodeId) (params : List String) : List String :=
  let names := (j.graph.descendants i).filterMap fun d => assignedName? (j.node d)
  (Dict.ofList (names.map fun name => (name, ()))).names.filter (!params.contains ·)

/-- The line that lets a procedure assign the variables of the program, if it assigns any. -/
def globalLine (j : Job) (names : List String) : String :=
  if names.isEmpty then "" else j.indent ("global " ++ ", ".intercalate names ++ "\n")

/-- A procedure. -/
def procedure (t : Target) (j : Job) (i : NodeId) (n : Node) : Script Code := do
  let name := nameField n "NAME" "do_something"
  let params := parameters n
  match t with
  | .arduino => do
    let result := if returnsValue n then n.fieldOr "TYPE" "long" else "void"
    let signature :=
      result ++ " " ++ name ++ "(" ++ ", ".intercalate (params.map ("long " ++ ·)) ++ ")"
    Script.declare ("proto_" ++ name) (signature ++ ";")
    let stack ← j.slotCode n "STACK"
    let returned ← returnLine j n
    return .statement (signature ++ " \x7b\n" ++ stack ++ returned ++ "\x7d\n")
  | .microPython => do
    let stack ← j.slotCode n "STACK"
    let returned ← returnLine j n
    let body :=
      if Text.blank stack && returned.isEmpty then j.indent "pass\n" else stack ++ returned
    return .statement
      ("def " ++ name ++ "(" ++ ", ".intercalate params ++ "):\n" ++
        globalLine j (assignedGlobals j i params) ++ body)

end BlockCompiler.Blocks
