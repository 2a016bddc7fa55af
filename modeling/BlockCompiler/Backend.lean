import BlockCompiler.Code
import BlockCompiler.Notice
import BlockCompiler.Text.Name
import BlockCompiler.Text.Quoted
import BlockCompiler.TypeSet

/-!
# Backends

A target is a language that programs are compiled to.  A backend is a target
together with its conventions: which block types are containers, entry points or
always emitted, and which generator serves each type.  Each target has a backend
of its own; others are made by changing one.
-/

namespace BlockCompiler

/-- A language that programs are compiled to. -/
inductive Target where
  | arduino
  | microPython
deriving DecidableEq, Repr

namespace Target

/-- All targets. -/
def all : List Target :=
  [arduino, microPython]

/-- The name of a target. -/
def name : Target → String
  | arduino => "arduino"
  | microPython => "micropython"

/-- The name of a target as it is shown. -/
def displayName : Target → String
  | arduino => "Arduino"
  | microPython => "MicroPython"

/-- The target that a trimmed name in small letters stands for. -/
def ofName? : String → Option Target
  | "arduino" | "cpp" => some arduino
  | "micropython" | "python" => some microPython
  | _ => none

/-- The name of a target as it is looked up. -/
def foldName (raw : String) : String :=
  Text.lower (Text.trim raw)

/-- The target that a name stands for; blanks around it and case do not count. -/
def parse? (raw : String) : Option Target :=
  ofName? (foldName raw)

/-- The words for a name that stands for no target. -/
def unknownMessage (raw : String) : String :=
  "unknown backend '" ++ foldName raw ++ "' (expected one of: arduino, micropython)"

/-- The type of the blocks at which a program of the target begins. -/
def entryType : Target → String
  | arduino => "arduino_entry"
  | microPython => "micropython_entry"

/-- The conventions of a target. -/
def formatting : Target → Formatting
  | arduino =>
    { separator := ";", commentMark := "//", indentUnit := "  ", emptyBody := none,
      entryPointsLast := false }
  | microPython =>
    { separator := "", commentMark := "#", indentUnit := "    ", emptyBody := some "pass",
      entryPointsLast := true }

end Target

/-- What a block does, apart from the target. -/
inductive BlockKind where
  | entry
  | procedure
  | serialSetup
  | servoAttach
  | interruptAttach
  | conditional
  | repeatLoop
  | conditionLoop
  | countingLoop
  | loopExit
  | returnStatement
  | timedRepeat
  | assignment
  | digitalWrite
  | analogWrite
  | serialPrint
  | delay
  | servoWrite
  | callStatement
  | number
  | arithmetic
  | boolean
  | comparison
  | logic
  | negation
  | text
  | variableValue
  | digitalRead
  | analogRead
  | milliseconds
  | callExpression
deriving DecidableEq, Repr

/-- The code of one kind of block for one target. -/
structure Generator where
  target : Target
  kind : BlockKind
deriving DecidableEq, Repr

/-- The types that every target has, with the kind of their blocks. -/
def sharedTypes : List (String × BlockKind) := [
  ("procedures_defnoreturn", .procedure),
  ("procedures_defreturn", .procedure),
  ("serial_setup", .serialSetup),
  ("servo_attach", .servoAttach),
  ("interrupt_attach", .interruptAttach),
  ("controls_if", .conditional),
  ("controls_repeat_ext", .repeatLoop),
  ("controls_whileUntil", .conditionLoop),
  ("controls_for", .countingLoop),
  ("controls_flow_statements", .loopExit),
  ("procedures_return", .returnStatement),
  ("time_every", .timedRepeat),
  ("variables_set", .assignment),
  ("io_digitalwrite", .digitalWrite),
  ("io_analogwrite", .analogWrite),
  ("serial_print", .serialPrint),
  ("time_delay", .delay),
  ("servo_write", .servoWrite),
  ("procedures_callnoreturn", .callStatement),
  ("math_number", .number),
  ("math_arithmetic", .arithmetic),
  ("logic_boolean", .boolean),
  ("logic_compare", .comparison),
  ("logic_operation", .logic),
  ("logic_negate", .negation),
  ("text", .text),
  ("variables_get", .variableValue),
  ("io_digitalread", .digitalRead),
  ("io_analogread", .analogRead),
  ("time_millis", .milliseconds),
  ("procedures_callreturn", .callExpression)]

/-- The types of the blocks that a loop exit may leave. -/
def loopTypes : List String :=
  ["controls_repeat_ext", "controls_whileUntil", "controls_for"]

/-- A target with its conventions. -/
structure Backend where
  name : String
  displayName : String
  formatting : Formatting
  /-- The types that hold nested statements at top level. -/
  containers : TypeSet := {}
  /-- The types at which a program begins. -/
  entryPoints : TypeSet := {}
  /-- The types that are generated wherever their blocks stand. -/
  alwaysEmitted : TypeSet := {}
  /-- The generator of each type, one of those that targets have.  A compilation with other
  generators is `Job.compileBy`, which is handed the code of blocks. -/
  generators : Dict Generator := Dict.empty

namespace Backend

/-- The backend with a generator for a type, and what the log says if it had one. -/
def register (b : Backend) (type : String) (g : Generator) : Backend × List Notice :=
  ({ b with generators := b.generators.insert type g },
    if b.generators.contains type then [.registeredTwice type] else [])

/-- The backend without a generator for a type. -/
def remove (b : Backend) (type : String) : Backend :=
  { b with generators := b.generators.erase type }

/-- The backend of a target's names and conventions that knows no types. -/
def blank (b : Backend) : Backend :=
  { name := b.name, displayName := b.displayName, formatting := b.formatting }

/-- The types that the backend has a generator for, increasing. -/
def types (b : Backend) : List String :=
  b.generators.names

/-- The types that the backend has a generator for, as a listing shows them. -/
def registryListing (b : Backend) : String :=
  "\x7b" ++ ", ".intercalate (b.types.map Text.quoted) ++ "\x7d"

end Backend

/-- The backend of a target. -/
def Target.backend (t : Target) : Backend where
  name := t.name
  displayName := t.displayName
  formatting := t.formatting
  containers := TypeSet.ofList [t.entryType, "procedures_defnoreturn", "procedures_defreturn"]
  entryPoints := TypeSet.ofList [t.entryType]
  alwaysEmitted := TypeSet.ofList ["serial_setup", "servo_attach", "interrupt_attach"]
  generators := Dict.ofList
    (((t.entryType, BlockKind.entry) :: sharedTypes).map fun e => (e.1, ⟨t, e.2⟩))

end BlockCompiler
