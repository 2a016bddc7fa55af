import BlockCompiler.Compile
import BlockCompiler.Json.Printer
import BlockCompiler.Json.Tree

/-!
# Results and options as JSON

Diagnostics and products are written as JSON and read back; options are read.
Parts are written in the order of their declaration.
-/

namespace BlockCompiler

namespace Diagnostic

/-- The names of a diagnostic's parts. -/
def partNames : List String :=
  ["code", "level", "node", "node_type", "message"]

/-- The diagnostic as JSON. -/
def toJson (d : Diagnostic) : Json :=
  .object [
    ("code", .string d.reason.code),
    ("level", .string d.level.name),
    ("node", .string d.node),
    ("node_type", .string d.nodeType),
    ("message", .string d.message)]

/-- The diagnostic that a tree stands for. -/
def ofTree? (t : JsonTree) : Option Diagnostic :=
  match t.record? partNames with
  | some [some code, some level, some node, some nodeType, some message] => do
    let reason ← code.choice? Reason.ofCode?
    let level ← level.choice? Level.ofName?
    let node ← node.text?
    let nodeType ← nodeType.text?
    let message ← message.text?
    some { reason := reason, level := level, node := node, nodeType := nodeType,
           message := message }
  | _ => none

/-- The diagnostic that a text stands for. -/
def parse? (s : String) : Option Diagnostic :=
  (JsonTree.parse? s).bind ofTree?

/-- A list of diagnostics as text. -/
def renderAll (ds : List Diagnostic) : String :=
  (Json.array (ds.map toJson)).pretty

end Diagnostic

namespace Product

/-- The names of a product's parts. -/
def partNames : List String :=
  ["backend", "source", "diagnostics"]

/-- The product as JSON. -/
def toJson (p : Product) : Json :=
  .object [
    ("backend", .string p.backend),
    ("source", .string p.source),
    ("diagnostics", .array (p.diagnostics.map Diagnostic.toJson))]

/-- The product as text. -/
def render (p : Product) : String :=
  p.toJson.pretty

/-- The product that a tree stands for. -/
def ofTree? (t : JsonTree) : Option Product :=
  match t.record? partNames with
  | some [some backend, some source, some diagnostics] => do
    let backend ← backend.text?
    let source ← source.text?
    let diagnostics ← diagnostics.list? Diagnostic.ofTree?
    some { backend := backend, source := source, diagnostics := diagnostics }
  | _ => none

/-- The product that a text stands for. -/
def parse? (s : String) : Option Product :=
  (JsonTree.parse? s).bind ofTree?

end Product

namespace Options

/-- The names of the options. -/
def partNames : List String :=
  ["banner", "placeholders"]

/-- The options that a tree stands for; those that it leaves out are on. -/
def ofTree? (t : JsonTree) : Option Options :=
  match t.record? partNames with
  | some [banner, placeholders] => do
    let banner ← (banner.map JsonTree.bool?).getD (some true)
    let placeholders ← (placeholders.map JsonTree.bool?).getD (some true)
    some { banner := banner, placeholders := placeholders }
  | _ => none

/-- The options that a text stands for. -/
def parse? (s : String) : Option Options :=
  (JsonTree.parse? s).bind ofTree?

end Options

end BlockCompiler
