import BlockCompiler.Incident
import BlockCompiler.KeySet
import BlockCompiler.Text.Name

/-!
# Diagnostics

A diagnostic names a block, its type and one of three fixed reasons.  It never
stops a compilation.  A `DiagnosticLog` keeps, in order, the first diagnostic
of each pair of reason and block, and beside them the set of these pairs.
-/

namespace BlockCompiler

/-- Why a block is reported. -/
inductive Reason where
  /-- A block at top level that is no container. -/
  | orphanedTopLevel
  /-- A block that needs a container above it and has none. -/
  | orphanedNested
  /-- The backend has no generator for the block's type. -/
  | missingGenerator
deriving DecidableEq, Repr

namespace Reason

/-- The fixed code of a reason. -/
def code : Reason → String
  | orphanedTopLevel => "ORPHANED_TOP_LEVEL"
  | orphanedNested => "ORPHANED_NESTED"
  | missingGenerator => "MISSING_GENERATOR"

/-- The reason of a code. -/
def ofCode? : String → Option Reason
  | "ORPHANED_TOP_LEVEL" => some orphanedTopLevel
  | "ORPHANED_NESTED" => some orphanedNested
  | "MISSING_GENERATOR" => some missingGenerator
  | _ => none

/-- A user can put an orphan elsewhere; no edit of the program supplies a generator. -/
def level : Reason → Level
  | orphanedTopLevel | orphanedNested => .warning
  | missingGenerator => .error

theorem ofCode?_code (r : Reason) : ofCode? r.code = some r := by
  cases r <;> rfl

end Reason

/-- A remark about one block. -/
structure Diagnostic where
  reason : Reason
  level : Level
  /-- The key of the block. -/
  node : String
  /-- The type of the block. -/
  nodeType : String
  message : String
deriving DecidableEq, Repr

namespace Diagnostic

/-- A diagnostic at the level of its reason. -/
def ofReason (reason : Reason) (node nodeType message : String) : Diagnostic where
  reason := reason
  level := reason.level
  node := node
  nodeType := nodeType
  message := message

/-- A top-level block outside the containers listed in `containers`. -/
def orphanedTopLevel (node nodeType containers : String) : Diagnostic :=
  ofReason .orphanedTopLevel node nodeType
    ("Block '" ++ nodeType ++ "' is not inside a container; place it inside one of: " ++ containers)

/-- A nested block with none of the listed containers above it. -/
def orphanedNested (node nodeType containers : String) : Diagnostic :=
  ofReason .orphanedNested node nodeType
    ("Block '" ++ nodeType ++ "' has no container above it; move it inside one of: " ++ containers)

/-- A block whose type the named backend cannot generate. -/
def missingGenerator (node nodeType backend : String) : Diagnostic :=
  ofReason .missingGenerator node nodeType
    ("No code generator for block '" ++ nodeType ++ "' in the " ++ backend ++ " backend")

/-- The diagnostic of a reason whose message is completed by `detail`: the containers, or the
backend's name. -/
def explain : Reason → (node nodeType detail : String) → Diagnostic
  | .orphanedTopLevel => orphanedTopLevel
  | .orphanedNested => orphanedNested
  | .missingGenerator => missingGenerator

/-- What a diagnostic says apart from its wording: the reason and the key of the block. -/
def subject (d : Diagnostic) : Reason × String :=
  (d.reason, d.node)

/-- The diagnostic on one line. -/
def render (d : Diagnostic) : String :=
  "[" ++ d.level.label ++ "] " ++ d.reason.code ++ " at " ++ d.node ++ " (" ++ d.nodeType ++ "): " ++
    d.message

/-- What the diagnostic says as an incident. -/
def incident (d : Diagnostic) : Incident where
  level := d.level
  message := d.message
  issuer := "blockforge.codegen." ++ Text.lower d.reason.code
  node := some d.node

/-- The number of failures in a list. -/
def failures (ds : List Diagnostic) : Nat :=
  ds.countP (·.level.isFailure)

/-- The number of warnings in a list. -/
def warnings (ds : List Diagnostic) : Nat :=
  ds.countP (·.level == .warning)

end Diagnostic

/-- Diagnostics in order, at most one for each pair of reason and block. -/
structure DiagnosticLog where
  entries : List Diagnostic := []
  /-- The pairs of reason and block that were reported. -/
  seen : KeySet (Reason × String) := {}
deriving DecidableEq, Repr

namespace DiagnosticLog

/-- The reason and the block of `d` were reported before. -/
def reports (log : DiagnosticLog) (d : Diagnostic) : Bool :=
  log.seen.contains d.subject

/-- The log after `d` was pushed: the first of each reason and block stays. -/
def push (log : DiagnosticLog) (d : Diagnostic) : DiagnosticLog :=
  if log.reports d then log
  else { entries := log.entries ++ [d], seen := log.seen.insert d.subject }

/-- The log after all of `ds` were pushed in order. -/
def extend (log : DiagnosticLog) (ds : List Diagnostic) : DiagnosticLog :=
  ds.foldl push log

end DiagnosticLog

end BlockCompiler
