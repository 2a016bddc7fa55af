/-!
# Notices

What the compiler says about its own work while it runs.  Notices are for the
log; unlike diagnostics they are no part of a compilation's result.
-/

namespace BlockCompiler

/-- How a notice is filed. -/
inductive Severity where
  | debug
  | info
  | warn
  | error
deriving DecidableEq, Repr

/-- The word for a severity. -/
def Severity.label : Severity → String
  | debug => "DEBUG"
  | info => "INFO"
  | warn => "WARN"
  | error => "ERROR"

/-- An entry of the log. -/
inductive Notice where
  | builtGraph (nodes roots : Nat)
  | registeredTwice (type : String)
  | missingGenerator (type key backend : String)
  | statementAsValue (type slot owner : String)
  | outsideContainer (type key : String)
  | inlineCodeDiscarded (key : String)
  | furtherEntryPoint (key : String)
  | generatingRoot (key type : String)
  | orphanedRoot (key type : String)
  | setupsDropped (count : Nat)
  | compiled (roots : Nat) (backend : String) (errors warnings : Nat)
  | unknownInterruptMode (mode key : String)
  | unknownOperator (operator key : String)
  | exitOutsideLoop (keyword key : String)
  | pinUsedBothWays (pin : String)
deriving DecidableEq, Repr

namespace Notice

/-- How the notice is filed. -/
def severity : Notice → Severity
  | builtGraph .. | inlineCodeDiscarded _ | generatingRoot .. => .debug
  | compiled .. => .info
  | missingGenerator .. => .error
  | registeredTwice _ | statementAsValue .. | outsideContainer .. | furtherEntryPoint _
  | orphanedRoot .. | setupsDropped _ | unknownInterruptMode .. | unknownOperator ..
  | exitOutsideLoop .. | pinUsedBothWays _ => .warn

/-- The words of the notice. -/
def message : Notice → String
  | builtGraph nodes roots =>
    "built graph with " ++ nodes.repr ++ " nodes and " ++ roots.repr ++ " roots"
  | registeredTwice type => "generator for '" ++ type ++ "' registered twice; last one wins"
  | missingGenerator type key backend =>
    "no generator for block type '" ++ type ++ "' (node '" ++ key ++ "') in backend '" ++ backend ++
      "'"
  | statementAsValue type slot owner =>
    "statement block '" ++ type ++ "' plugged into value slot '" ++ slot ++ "' of '" ++ owner ++
      "'; ignored"
  | outsideContainer type key =>
    "block '" ++ type ++ "' (node '" ++ key ++ "') has no container above it; skipped"
  | inlineCodeDiscarded key =>
    "always-emitted block '" ++ key ++ "' returned inline code; discarded"
  | furtherEntryPoint key =>
    "entry point '" ++ key ++ "' is not the first one in this graph; setup lines are repeated"
  | generatingRoot key type => "generating root '" ++ key ++ "' (" ++ type ++ ")"
  | orphanedRoot key type =>
    "root block '" ++ key ++ "' (" ++ type ++ ") is outside any container; skipped"
  | setupsDropped count =>
    count.repr ++ " setup line(s) registered but the graph has no entry point; dropped"
  | compiled roots backend errors warnings =>
    "compiled " ++ roots.repr ++ " roots for " ++ backend ++ ": " ++ errors.repr ++
      " error(s), " ++ warnings.repr ++ " warning(s)"
  | unknownInterruptMode mode key =>
    "interrupt mode '" ++ mode ++ "' on '" ++ key ++ "' unknown; using RISING"
  | unknownOperator operator key =>
    "arithmetic operator '" ++ operator ++ "' on '" ++ key ++ "' unknown; using ADD"
  | exitOutsideLoop keyword key => "'" ++ keyword ++ "' at '" ++ key ++ "' is not inside a loop"
  | pinUsedBothWays pin =>
    "pin " ++ pin ++ " is used as both INPUT and OUTPUT; both pinMode calls are emitted"

/-- The notice as a line of the log. -/
def render (n : Notice) : String :=
  n.severity.label ++ " " ++ n.message

end Notice

end BlockCompiler
