import BlockCompiler.Graph.Basic
import BlockCompiler.Graph.Defect
import BlockCompiler.Graph.Search

/-!
# Drafts

A draft is a graph in the making: nodes, links between them, and the roots that
were marked.  `build` turns it into a graph if its links form a forest.  Its
defects are looked for in a fixed order, and the first one found is reported:

* two nodes with the same key;
* a node that two links lead to, a root listed twice, or a root with an owner;
* links that lead in a circle;
* a node that no marked root leads to.

A draft without marked roots takes the nodes that no link leads to.
-/

namespace BlockCompiler

/-- A graph in the making. -/
structure Draft where
  nodes : Array Node := #[]
  /-- The marked roots, in the order of marking. -/
  roots : List NodeId := []
  /-- The position of the latest node with each key. -/
  index : Dict NodeId := Dict.empty

/-- A link from a node to another one. -/
structure Link where
  owner : NodeId
  target : NodeId
deriving DecidableEq, Repr

namespace Draft

/-- The node at a position. -/
def node (d : Draft) (i : NodeId) : Node :=
  d.nodes.getD i default

/-- The key of the node at a position. -/
def key (d : Draft) (i : NodeId) : String :=
  (d.node i).key

/-- The number of nodes. -/
def size (d : Draft) : Nat :=
  d.nodes.size

/-- The positions of all nodes. -/
def ids (d : Draft) : List NodeId :=
  List.range d.size

/-- The position of the latest node with a key. -/
def find? (d : Draft) (key : String) : Option NodeId :=
  d.index.get? key

/-! ## Editing -/

/-- Adds a node; its position is the number of nodes before it.  In the index it takes the place of
an earlier node with its key. -/
def addNode (d : Draft) (key type : String) : Draft :=
  { d with
    nodes := d.nodes.push { key := key, type := type }
    index := d.index.insert key d.size }

/-- Marks a node as a root. -/
def markRoot (d : Draft) (i : NodeId) : Draft :=
  { d with roots := d.roots ++ [i] }

/-- Changes the node at a position. -/
def modify (d : Draft) (i : NodeId) (f : Node → Node) : Draft :=
  { d with nodes := d.nodes.modify i f }

/-- Sets the text of a field. -/
def setField (d : Draft) (i : NodeId) (name text : String) : Draft :=
  d.modify i fun n => { n with fields := n.fields.insert name text }

/-- Puts a node into a value slot. -/
def setValue (d : Draft) (i : NodeId) (slot : String) (child : NodeId) : Draft :=
  d.modify i fun n => { n with values := n.values.insert slot child }

/-- Puts the first node of a sequence into a statement slot. -/
def setStatement (d : Draft) (i : NodeId) (slot : String) (head : NodeId) : Draft :=
  d.modify i fun n => { n with statements := n.statements.insert slot head }

/-- Lets a node follow another one. -/
def setNext (d : Draft) (i : NodeId) (next : NodeId) : Draft :=
  d.modify i fun n => { n with next := some next }

/-- Lets each node of a list follow the one before it. -/
def connect (d : Draft) : List NodeId → Draft
  | i :: j :: rest => (d.setNext i j).connect (j :: rest)
  | _ => d

/-- Puts a whole sequence into a statement slot; an empty one changes nothing. -/
def setBody (d : Draft) (i : NodeId) (slot : String) (sequence : List NodeId) : Draft :=
  match sequence with
  | [] => d
  | head :: _ => (d.setStatement i slot head).connect sequence

/-! ## Links and owners -/

/-- All links, by the position of their owner. -/
def links (d : Draft) : List Link :=
  d.ids.flatMap fun i => (d.node i).targets.map fun t => { owner := i, target := t }

/-- The owners of nodes, by position. -/
abbrev OwnerTable := Array (Option NodeId)

/-- The table that assigns to each of `size` positions the owner of a link to it. -/
def ownerTable (size : Nat) (links : List Link) : OwnerTable :=
  links.foldl (fun table l => table.setIfInBounds l.target (some l.owner))
    (Array.replicate size none)

/-- The owner of each node. -/
def owners (d : Draft) : OwnerTable :=
  ownerTable d.size d.links

/-- The entry of a table of owners. -/
def ownerIn (table : OwnerTable) (i : NodeId) : Option NodeId :=
  (table[i]?).join

/-- The roots: those marked, or else the nodes without an owner. -/
def rootList (d : Draft) : List NodeId :=
  let table := d.owners
  if d.roots.isEmpty then d.ids.filter fun i => (ownerIn table i).isNone else d.roots

/-! ## Defects -/

/-- The first text of a list that stands in it before. -/
def firstRepeat? : (seen : List String) → List String → Option String
  | _, [] => none
  | seen, k :: rest => if seen.contains k then some k else firstRepeat? (k :: seen) rest

/-- A key that two nodes have. -/
def repeatedKey? (d : Draft) : Option Defect :=
  (firstRepeat? [] (d.ids.map d.key)).map .duplicateNode

/-- The first link to a target that an earlier link leads to, with that one before it. -/
def firstClash? : (seen : List Link) → List Link → Option (Link × Link)
  | _, [] => none
  | seen, l :: rest =>
    match seen.find? (·.target == l.target) with
    | some earlier => some (earlier, l)
    | none => firstClash? (l :: seen) rest

/-- A node that two links lead to. -/
def sharedNode? (d : Draft) : Option Defect :=
  (firstClash? [] d.links).map fun (earlier, later) =>
    .sharedNode (d.key later.target) (d.key earlier.owner) (d.key later.owner)

/-- A root that is listed before, or that has an owner. -/
def firstBadRoot? (d : Draft) (table : OwnerTable) :
    (seen : List NodeId) → List NodeId → Option Defect
  | _, [] => none
  | seen, r :: rest =>
    if seen.contains r then some (.repeatedRoot (d.key r))
    else
      match ownerIn table r with
      | some o => some (.ownedRoot (d.key r) (d.key o))
      | none => firstBadRoot? d table (r :: seen) rest

/-- A root that is listed twice or has an owner. -/
def badRoot? (d : Draft) : Option Defect :=
  firstBadRoot? d d.owners [] d.rootList

/-- The positions that a node leads to. -/
def targets (d : Draft) (i : NodeId) : List NodeId :=
  (d.node i).targets

/-- A circle of links. -/
def cycle? (d : Draft) : Option Defect :=
  (Descent.circle? d.targets d.size).map fun (i, way) => .cycle (d.key i) (way.map d.key)

/-- Which nodes the marked roots lead to.  A root or a link makes a node pending once. -/
def reached (d : Draft) : Array Bool :=
  reach d.targets (d.roots.length + d.links.length) (Array.replicate d.size false) d.roots.reverse

/-- A node that no marked root leads to. -/
def detached? (d : Draft) : Option Defect :=
  let reached := d.reached
  (d.ids.find? fun i => !reached.getD i false).map fun i => .detached (d.key i)

/-- The first defect of a draft. -/
def defect? (d : Draft) : Option Defect :=
  d.repeatedKey?.or <| d.sharedNode?.or <| d.badRoot?.or <| d.cycle?.or <|
    if d.roots.isEmpty then none else d.detached?

/-! ## Building -/

/-- Pairs of a slot's owner and a member of the sequence in that slot. -/
def containment (d : Draft) : List Link :=
  d.ids.flatMap fun i => (d.node i).slotTargets.flatMap fun head =>
    (Graph.chainFrom d.node d.size head).map fun m => { owner := i, target := m }

/-- The graph of a draft without defects. -/
def toGraph (d : Draft) : Graph :=
  let parents := ownerTable d.size d.containment
  { nodes := d.nodes.mapIdx fun i n => { n with parent := ownerIn parents i }
    roots := d.rootList
    index := d.index }

/-- The graph of a draft, or its first defect. -/
def build (d : Draft) : Except Defect Graph :=
  match d.defect? with
  | some defect => .error defect
  | none => .ok d.toGraph

end Draft

end BlockCompiler
