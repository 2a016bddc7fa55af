import BlockCompiler.Collector
import BlockCompiler.Script

/-!
# Runs

The state of one compilation: what has been declared, the lines of the setup,
the diagnostics, the log, whether the pass over the always-emitted blocks was
made, and the number of entry points met.  `Script.run` plays a script on a run;
the code of other blocks comes from a function that is handed in.
-/

namespace BlockCompiler

/-- The state of one compilation. -/
structure Run where
  declarations : Collector := {}
  setups : Collector := {}
  diagnostics : DiagnosticLog := {}
  passMade : Bool := false
  entryPoints : Nat := 0
  notices : List Notice := []
deriving DecidableEq, Repr

namespace Run

/-- Offers a declaration. -/
def declare (s : Run) (symbol text : String) : Run :=
  { s with declarations := s.declarations.register symbol text }

/-- Offers a line of the setup. -/
def setup (s : Run) (symbol text : String) : Run :=
  { s with setups := s.setups.register symbol text }

/-- Writes to the log. -/
def notice (s : Run) (n : Notice) : Run :=
  { s with notices := s.notices ++ [n] }

/-- Offers a line of the setup, with a notice if it is taken while the `rival` is there. -/
def setupBeside (s : Run) (symbol text rival : String) (warning : Notice) : Run :=
  let taken := !s.setups.contains symbol
  let after := s.setup symbol text
  if taken && after.setups.contains rival then after.notice warning else after

/-- Reports a diagnostic. -/
def report (s : Run) (d : Diagnostic) : Run :=
  { s with diagnostics := s.diagnostics.push d }

/-- Counts an entry point; every one but the first is noticed. -/
def enterProgram (s : Run) (key : String) : Run :=
  let after := { s with entryPoints := s.entryPoints + 1 }
  if s.entryPoints = 0 then after else after.notice (.furtherEntryPoint key)

end Run

/-- The reply to a request, and the run after it. -/
def Request.answer (code : NodeId → Run → Option (Code × Run)) :
    (r : Request) → Run → Option (r.Reply × Run)
  | generate block, s => code block s
  | declare symbol text, s => some ((), s.declare symbol text)
  | setup symbol text, s => some ((), s.setup symbol text)
  | setupBeside symbol text rival warning, s => some ((), s.setupBeside symbol text rival warning)
  | report d, s => some ((), s.report d)
  | notice n, s => some ((), s.notice n)
  | setupLines, s => some (s.setups.flush, s)
  | beginPass, s => some (!s.passMade, { s with passMade := true })
  | enterProgram key, s => some ((), s.enterProgram key)

/-- The result of a script played on a run, and the run after it; there is none if the code of a
block is not to be had. -/
def Script.run {α : Type} (code : NodeId → Run → Option (Code × Run)) :
    Script α → Run → Option (α × Run)
  | done a, s => some (a, s)
  | ask r resume, s => (r.answer code s).bind fun (reply, after) => (resume reply).run code after

/-- The code of a block, given the script of each block, with at most `fuel` blocks being
generated inside each other. -/
def emit (scripts : NodeId → Script Code) : (fuel : Nat) → NodeId → Run → Option (Code × Run)
  | 0, _, _ => none
  | fuel + 1, block, s => (scripts block).run (emit scripts fuel) s

end BlockCompiler
