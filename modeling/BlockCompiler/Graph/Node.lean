import BlockCompiler.Decimal.Whole
import BlockCompiler.Dict
import BlockCompiler.Text.Name
import BlockCompiler.Text.Quoted

/-!
# Nodes

A node is one block of a visual program: a key that names it on the editing
surface, a type, texts in named fields, and links to other nodes.  A value slot
leads to the block that supplies a value, a statement slot to the first block of
a sequence, and `next` to the block after this one in its own sequence.

Nodes are known by their position in the list of all nodes.  The `parent` of a
node is the owner of the slot whose sequence it belongs to; it is filled in when
a graph is built.
-/

namespace BlockCompiler

/-- The position of a node in the list of all nodes. -/
abbrev NodeId := Nat

/-- A block of a visual program. -/
structure Node where
  /-- The name of the block on the editing surface. -/
  key : String
  /-- The block's type. -/
  type : String
  fields : Dict String := Dict.empty
  values : Dict NodeId := Dict.empty
  statements : Dict NodeId := Dict.empty
  next : Option NodeId := none
  parent : Option NodeId := none
deriving Inhabited

namespace Node

/-- The text of a field, or `fallback` if the field is missing or blank. -/
def fieldOr (n : Node) (name fallback : String) : String :=
  match n.fields.get? name with
  | some text => if Text.blank text then fallback else text
  | none => fallback

/-- The field says yes or no; anything else means `fallback`. -/
def flag (n : Node) (name : String) (fallback : Bool) : Bool :=
  match (n.fields.get? name).map fun text => Text.upper (Text.trim text) with
  | some "TRUE" | some "1" => true
  | some "FALSE" | some "0" => false
  | _ => fallback

/-- The nodes in the slots: values by slot name, then statements by slot name. -/
def slotTargets (n : Node) : List NodeId :=
  n.values.values ++ n.statements.values

/-- All nodes that this one leads to. -/
def targets (n : Node) : List NodeId :=
  n.slotTargets ++ n.next.toList

/-- The number in a slot name that begins with one of `starts`; the first that fits decides. -/
def slotNumber? (starts : List String) (name : String) : Option Nat :=
  (starts.findSome? (Text.afterStart? · name)).bind fun rest => Whole.unsigned? rest.toList

/-- One more than the greatest number of a slot whose name begins with one of `starts`. -/
def slotCount (n : Node) (starts : List String) : Nat :=
  (((n.values.names ++ n.statements.names).filterMap (slotNumber? starts)).map (· + 1)).foldl max 0

/-- The key made fit for the end of a name. -/
def symbolSuffix (n : Node) : String :=
  Text.symbol n.key

end Node

/-- The printed form of a node's position. -/
def NodeId.render (i : NodeId) : String :=
  "#" ++ Nat.repr i

/-- A dictionary in a listing. -/
def Dict.listing {α : Type} (f : α → String) (d : Dict α) : String :=
  "\x7b" ++ ", ".intercalate (d.entries.map fun e => Text.quoted e.1 ++ ": " ++ f e.2) ++ "\x7d"

/-- The listing of the node at position `id`. -/
def Node.listing (id : NodeId) (n : Node) : String :=
  let link (l : Option NodeId) : String := match l with
    | some i => NodeId.render i
    | none => "None"
  let target (i : NodeId) : String := "NodeId(" ++ Nat.repr i ++ ")"
  "Node \x7b\n" ++
    "  id: " ++ NodeId.render id ++ ",\n" ++
    "  key: " ++ n.key ++ ",\n" ++
    "  type: " ++ n.type ++ ",\n" ++
    "  fields: " ++ n.fields.listing Text.quoted ++ ",\n" ++
    "  values: " ++ n.values.listing target ++ ",\n" ++
    "  statements: " ++ n.statements.listing target ++ ",\n" ++
    "  next: " ++ link n.next ++ "\n" ++
    "  parent: " ++ link n.parent ++ "\n" ++
    "\x7d\n"

end BlockCompiler
