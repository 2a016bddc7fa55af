import BlockCompiler.CommandLine.Arguments
import BlockCompiler.Failure

/-!
# What the program does

Given its arguments and the content of the files they name, the program ends with
an exit code and texts on its two outputs.  It may want to write a file before
that; if this fails, the failure is all that is said.
-/

namespace BlockCompiler.CommandLine

/-- The end of the program. -/
structure Outcome where
  code : Nat
  out : String := ""
  err : String := ""
deriving DecidableEq, Repr

/-- What the program does. -/
inductive Plan where
  | finish (outcome : Outcome)
  /-- Writes a file, then ends. -/
  | write (path content : String) (outcome : Outcome)
deriving DecidableEq, Repr

/-- The exit code of input that cannot be used. -/
def malformedCode : Nat := 2

/-- The exit code of unwelcome diagnostics and of output that cannot be written. -/
def diagnosticsCode : Nat := 1

/-- The end of the program if its file cannot be written. -/
def writeFailed (path : String) (fault : FileFault) : Outcome where
  code := diagnosticsCode
  err := "Failed to write output file " ++ path ++ ": " ++ fault.message ++ "\n"

/-- The end of the program on a failure. -/
def failed (f : Failure) : Outcome where
  code := malformedCode
  err := Report.fatal false f.incident

/-- The options in force: those of the file, if one is named, less what the arguments switch
off. -/
def options (files : String → Except FileFault String) (r : BuildRequest) :
    Except Failure Options :=
  let loaded := match r.config with
    | some path => Options.load path (files path)
    | none => .ok {}
  loaded.map fun o =>
    { banner := o.banner && !r.noBanner, placeholders := o.placeholders && !r.noPlaceholders }

/-- The product of a request. -/
def product (files : String → Except FileFault String) (r : BuildRequest) :
    Except Failure Product :=
  match options files r with
  | .error f => .error f
  | .ok o =>
    match Document.load r.file (files r.file) with
    | .error defect => .error (.graph defect)
    | .ok d => (d.compile r.target.name o).map (·.1)

/-- Carries out `build`. -/
def build (files : String → Except FileFault String) (r : BuildRequest) : Plan :=
  match product files r with
  | .error f => .finish (failed f)
  | .ok p =>
    let report := Report.diagnostics false r.format p
    let code := if r.strict && !p.isClean then diagnosticsCode else 0
    match r.output with
    | some path => .write path p.source { code := code, err := report }
    | none => .finish { code := code, out := p.source, err := report }

/-- How the program is to be used. -/
def helpText : String :=
  "Compile visual block programs to Arduino or MicroPython source\n\n" ++
    "Usage: blockforge [OPTIONS] [COMMAND]\n\n" ++
    "Commands:\n" ++
    "  build    Compile a block graph document\n" ++
    "  targets  List the available target backends\n" ++
    "  help     Print this message or the help of the given subcommand(s)\n\n" ++
    "Options:\n" ++
    "  -v, --verbose...  Increase log output (-v info, -vv debug, -vvv trace)\n" ++
    "  -h, --help        Print help\n" ++
    "  -V, --version     Print version\n"

/-- Carries out what the program is asked to do. -/
def plan (files : String → Except FileFault String) : Invocation → Plan
  | .build r => build files r
  | .targets =>
    .finish { code := 0, out := Report.title false "Targets" ++ Report.targetsTable.render ++ "\n" }
  | .version => .finish { code := 0, out := "blockforge 0.1.0\n" }
  | .help => .finish { code := 0, out := helpText }
  | .nothing =>
    .finish {
      code := malformedCode
      err := "No valid subcommand was used. Use --help for more information.\n" }
  | .refused =>
    .finish {
      code := malformedCode
      err := "error: the arguments are not understood\n\nFor more information, try '--help'.\n" }

/-- The files that an invocation reads. -/
def Invocation.files : Invocation → List String
  | .build r => r.config.toList ++ [r.file]
  | _ => []

end BlockCompiler.CommandLine
