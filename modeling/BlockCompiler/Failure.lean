import BlockCompiler.Exchange
import BlockCompiler.Graph.Document

/-!
# Failures

What can keep a document from being compiled, and the way from a document to its
product.
-/

namespace BlockCompiler

/-- What is wrong with a file of options. -/
inductive OptionsFault where
  | unreadable (path : String) (fault : FileFault)
  | malformed (path : String)
deriving DecidableEq, Repr

/-- The words for a fault of an options file. -/
def OptionsFault.message : OptionsFault → String
  | unreadable path fault => "read options " ++ Text.quoted path ++ ": " ++ fault.message
  | malformed path => "parse options " ++ Text.quoted path ++ ":"

/-- What keeps a document from being compiled. -/
inductive Failure where
  | graph (defect : Defect)
  | unknownBackend (name : String)
  | options (fault : OptionsFault)
deriving DecidableEq, Repr

namespace Failure

/-- The failure in one sentence. -/
def render : Failure → String
  | graph defect => "malformed graph: " ++ defect.render
  | unknownBackend name => Target.unknownMessage name
  | options fault => "invalid options: " ++ fault.message

/-- What the failure says as an incident: a defect speaks for itself. -/
def incident (f : Failure) : Incident :=
  match f with
  | graph defect => defect.incident
  | unknownBackend _ => ⟨.critical, f.render, "blockforge.backend.select", none⟩
  | options _ => ⟨.critical, f.render, "blockforge.compile.options", none⟩

/-- The failure comes from another error. -/
def hasCause : Failure → Bool
  | graph _ => true
  | unknownBackend _ | options _ => false

end Failure

/-- The document in a file, given what reading the file came to. -/
def Document.load (path : String) : Except FileFault String → Except Defect Document
  | .ok content => Document.parse content
  | .error fault => .error (.unreadableFile path fault)

/-- The options in a file, given what reading the file came to. -/
def Options.load (path : String) : Except FileFault String → Except Failure Options
  | .ok content =>
    match Options.parse? content with
    | some options => .ok options
    | none => .error (.options (.malformed path))
  | .error fault => .error (.options (.unreadable path fault))

/-- What the log says about a graph that was built. -/
def Graph.notice (g : Graph) : Notice :=
  .builtGraph g.size g.roots.length

/-- The job of compiling a document for the target of the given name. -/
def Document.job (d : Document) (backend : String) : Except Failure Job :=
  match Target.parse? backend with
  | none => .error (.unknownBackend backend)
  | some t =>
    match d.build with
    | .error defect => .error (.graph defect)
    | .ok g => .ok { graph := g, backend := t.backend }

/-- Compiles a document for the target of the given name: the product and the log. -/
def Document.compile (d : Document) (backend : String) (options : Options) :
    Except Failure (Product × List Notice) :=
  (d.job backend).map fun j =>
    let (product, s) := j.compileRun options
    (product, j.graph.notice :: s.notices)

end BlockCompiler
