import BlockCompiler.CommandLine.Plan

/-!
# The program

Reads the files that the arguments name, and carries out the plan.
-/

namespace BlockCompiler.CommandLine

/-- The fault behind an error of the system. -/
def faultOf (e : IO.Error) : FileFault :=
  let code := match e with
    | .noFileOrDirectory _ code _ | .inappropriateType _ code _ | .resourceExhausted _ code _
    | .invalidArgument _ code _ => code.toNat
    | _ => 0
  (FileFault.ofCode? code).getD (.other (toString e))

/-- The content of a file. -/
def readText (path : String) : IO (Except FileFault String) := do
  try
    let bytes ← IO.FS.readBinFile path
    match String.fromUTF8? bytes with
    | some text => return .ok text
    | none => return .error .notText
  catch e => return .error (faultOf e)

/-- Writes a file. -/
def writeText (path content : String) : IO (Option FileFault) := do
  try
    IO.FS.writeFile path content
    return none
  catch e => return some (faultOf e)

/-- Prints an outcome; the result is the exit code. -/
def conclude (o : Outcome) : IO UInt32 := do
  IO.print o.out
  IO.eprint o.err
  return o.code.toUInt32

/-- Carries out the invocation that the arguments stand for. -/
def perform (args : List String) : IO UInt32 := do
  let invocation := read args
  let contents ← invocation.files.mapM fun path => do return (path, ← readText path)
  match plan (fun path => (contents.lookup path).getD (.error .missing)) invocation with
  | .finish o => conclude o
  | .write path content o =>
    match ← writeText path content with
    | none => conclude o
    | some fault => conclude (writeFailed path fault)

end BlockCompiler.CommandLine

/-- The program. -/
def main (args : List String) : IO UInt32 :=
  BlockCompiler.CommandLine.perform args
