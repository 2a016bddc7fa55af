import BlockCompiler.Exchange
import BlockCompiler.Report.Style
import BlockCompiler.Report.Table
import BlockCompiler.Text.Control

/-!
# Reports

What is said to the user about a compilation: its diagnostics as text, as JSON or
as a table, with a line of counts; the error that stopped it; and the list of
targets.
-/

namespace BlockCompiler

/-- How diagnostics are written. -/
inductive ReportFormat where
  | text
  | json
  | table
deriving DecidableEq, Repr

namespace ReportFormat

/-- The format of a name. -/
def ofName? : String → Option ReportFormat
  | "text" => some text
  | "json" => some json
  | "table" => some table
  | _ => none

/-- The words for a name that stands for no format. -/
def unknownMessage (name : String) : String :=
  "unknown format '" ++ name ++ "'"

end ReportFormat

namespace Report

/-- The style of titles. -/
def titleStyle : Style := { bold := true, underlined := true }

/-- The style of failures. -/
def failureStyle : Style := { color := some .red, bold := true }

/-- The style of warnings. -/
def warningStyle : Style := { color := some .yellow }

/-- The style of successes. -/
def successStyle : Style := { color := some .green, bold := true }

/-- The style of what is less important. -/
def asideStyle : Style := { dim := true }

/-- The style of a level. -/
def levelStyle : Level → Style
  | .info => { color := some .cyan }
  | .warning => warningStyle
  | .error | .critical => failureStyle

/-- A title above a line as wide as itself. -/
def title (colored : Bool) (text : String) : String :=
  titleStyle.apply colored text ++ "\n" ++ Table.times (Text.shownWidth text) "=" ++ "\n"

/-- A diagnostic on a line. -/
def diagnosticLine (colored : Bool) (d : Diagnostic) : String :=
  (levelStyle d.level).apply colored (Text.lower d.level.label ++ "[" ++ d.reason.code ++ "]") ++
    " " ++ asideStyle.apply colored (d.node ++ " (" ++ d.nodeType ++ "):") ++ " " ++ d.message ++
    "\n"

/-- The counts of failures and warnings. -/
def summary (colored : Bool) (p : Product) : String :=
  let errors := Diagnostic.failures p.diagnostics
  let warnings := Diagnostic.warnings p.diagnostics
  let style :=
    if 0 < errors then failureStyle else if 0 < warnings then warningStyle else successStyle
  style.apply colored
    ("compiled for " ++ p.backend ++ ": " ++ errors.repr ++ " error(s), " ++ warnings.repr ++
      " warning(s)") ++ "\n"

/-- The diagnostics as a table. -/
def diagnosticsTable (ds : List Diagnostic) : Table where
  header := ["Level", "Code", "Node", "Type", "Message"]
  rows := ds.map fun d => [d.level.label, d.reason.code, d.node, d.nodeType, d.message]

/-- The diagnostics of a product. -/
def diagnostics (colored : Bool) (format : ReportFormat) (p : Product) : String :=
  match format with
  | .text => String.join (p.diagnostics.map (diagnosticLine colored)) ++ summary colored p
  | .json => Diagnostic.renderAll p.diagnostics ++ "\n"
  | .table =>
    (if p.diagnostics.isEmpty then "" else (diagnosticsTable p.diagnostics).render ++ "\n") ++
      summary colored p

/-- The error that stopped a compilation. -/
def fatal (colored : Bool) (i : Incident) : String :=
  failureStyle.apply colored i.report ++ "\n"

/-- The targets with their structural types. -/
def targetsTable : Table where
  header := ["Target", "Name", "Containers", "Always emitted", "Block types"]
  rows := Target.all.map fun t =>
    let b := t.backend
    [t.name, b.displayName, b.containers.describe, b.alwaysEmitted.describe, b.types.length.repr]

end Report

end BlockCompiler
