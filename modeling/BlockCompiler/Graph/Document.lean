import BlockCompiler.Graph.Draft
import BlockCompiler.Json.Printer
import BlockCompiler.Json.Tree

/-!
# Documents

A document is a visual program as it is exchanged with the editor: a list of
records that refer to each other by key, and optionally the keys of the roots.
It is read from and written as JSON.  `build` resolves the keys and makes the
graph.
-/

namespace BlockCompiler

/-- A block as it stands in a document. -/
structure Record where
  id : String
  type : String
  fields : Dict Json := Dict.empty
  values : Dict String := Dict.empty
  statements : Dict String := Dict.empty
  next : Option String := none

/-- A visual program as exchanged with the editor. -/
structure Document where
  roots : Option (List String) := none
  records : List Record := []

/-- The text of a field: a string as it is, nothing for null, all else as compact JSON. -/
def Json.fieldText : Json → String
  | .string s => s
  | .null => ""
  | j => j.compact

namespace Record

/-- The names of a record's parts, in the order of their declaration. -/
def partNames : List String :=
  ["id", "type", "fields", "values", "statements", "next"]

/-- Four arrays and objects stand around a field's value: the document, its list of records, the
record and its fields. -/
def fieldDepth : Nat :=
  Json.nestingLimit - 4

/-- The record that a tree stands for. -/
def ofTree? (t : JsonTree) : Option Record :=
  match t.record? partNames with
  | some [some id, some type, fields, values, statements, next] => do
    let id ← id.text?
    let type ← type.text?
    let fields ← (fields.map (JsonTree.dict? (Json.ofTree? fieldDepth))).getD (some Dict.empty)
    let values ← (values.map (JsonTree.dict? JsonTree.text?)).getD (some Dict.empty)
    let statements ← (statements.map (JsonTree.dict? JsonTree.text?)).getD (some Dict.empty)
    let next ← (next.map (JsonTree.optional? JsonTree.text?)).getD (some none)
    some { id := id, type := type, fields := fields, values := values,
           statements := statements, next := next }
  | _ => none

/-- A dictionary of texts as a JSON object. -/
def textsJson (d : Dict String) : Json :=
  .object (d.entries.map fun e => (e.1, .string e.2))

/-- The record as JSON. -/
def toJson (r : Record) : Json :=
  .object [
    ("id", .string r.id),
    ("type", .string r.type),
    ("fields", .object r.fields.entries),
    ("values", textsJson r.values),
    ("statements", textsJson r.statements),
    ("next", (r.next.map Json.string).getD .null)]

end Record

namespace Document

/-! ## Reading and writing -/

/-- The names of a document's parts, in the order of their declaration. -/
def partNames : List String :=
  ["roots", "nodes"]

/-- The document that a tree stands for. -/
def ofTree? (t : JsonTree) : Option Document :=
  match t.record? partNames with
  | some [roots, nodes] => do
    let roots ← (roots.map (JsonTree.optional? (JsonTree.list? JsonTree.text?))).getD (some none)
    let records ← (nodes.map (JsonTree.list? Record.ofTree?)).getD (some [])
    some { roots := roots, records := records }
  | _ => none

/-- The document that a text stands for. -/
def parse (s : String) : Except Defect Document :=
  match (JsonTree.parse? s).bind ofTree? with
  | some d => .ok d
  | none => .error .malformed

/-- The document as JSON. -/
def toJson (d : Document) : Json :=
  .object [
    ("roots", (d.roots.map fun keys => Json.array (keys.map Json.string)).getD .null),
    ("nodes", .array (d.records.map Record.toJson))]

/-- The document as text. -/
def render (d : Document) : String :=
  d.toJson.pretty

/-! ## Resolving keys -/

/-- The draft with a node for a record, which has the fields of the record and no links yet. -/
def addRecord (d : Draft) (r : Record) : Draft :=
  r.fields.entries.foldl (fun draft e => draft.setField d.size e.1 e.2.fieldText)
    (d.addNode r.id r.type)

/-- The node that `owner` refers to by a key. -/
def resolve (d : Draft) (owner key : String) : Except Defect NodeId :=
  match d.find? key with
  | some i => .ok i
  | none => .error (.danglingLink owner key)

/-- The draft with the links of a record. -/
def linkRecord (d : Draft) (r : Record) : Except Defect Draft := do
  let owner ← resolve d r.id r.id
  let d ← r.values.entries.foldlM (fun draft e => do
    return draft.setValue owner e.1 (← resolve draft r.id e.2)) d
  let d ← r.statements.entries.foldlM (fun draft e => do
    return draft.setStatement owner e.1 (← resolve draft r.id e.2)) d
  match r.next with
  | some key => return d.setNext owner (← resolve d r.id key)
  | none => return d

/-- The draft with the node of a key marked as a root. -/
def markKey (d : Draft) (key : String) : Except Defect Draft := do
  return d.markRoot (← resolve d "<root>" key)

/-- The draft of a document: all nodes are added first, then they are linked, and the roots are
marked at the end.  The first key that no record has is a defect. -/
def draft (d : Document) : Except Defect Draft := do
  let nodes := d.records.foldl addRecord {}
  let linked ← d.records.foldlM linkRecord nodes
  (d.roots.getD []).foldlM markKey linked

/-- The graph of a document, or its first defect. -/
def build (d : Document) : Except Defect Graph := do
  (← d.draft).build

end Document

end BlockCompiler
