import BlockCompiler.Graph.Node
import BlockCompiler.TypeSet

/-!
# Graphs

A graph is the list of all nodes and the list of its roots, the first blocks of
the sequences that stand at top level.  Graphs come from `Draft.build`, which
makes sure that links form a forest below the roots; the walks below are bounded
by the number of nodes, which in a forest is enough to reach their end.
-/

namespace BlockCompiler

/-- A visual program, ready to be compiled. -/
structure Graph where
  nodes : Array Node
  roots : List NodeId
  /-- The position of the node with each key. -/
  index : Dict NodeId := Dict.empty

namespace Graph

/-- The node at a position. -/
def node (g : Graph) (i : NodeId) : Node :=
  g.nodes.getD i default

/-- The number of nodes. -/
def size (g : Graph) : Nat :=
  g.nodes.size

/-- The positions of all nodes. -/
def ids (g : Graph) : List NodeId :=
  List.range g.size

/-- The position of the node with a key. -/
def find? (g : Graph) (key : String) : Option NodeId :=
  g.index.get? key

/-- A node and those that follow it, up to a number of steps. -/
def chainFrom (node : NodeId → Node) : (fuel : Nat) → NodeId → List NodeId
  | 0, _ => []
  | fuel + 1, i =>
    i :: match (node i).next with
      | some j => chainFrom node fuel j
      | none => []

/-- The sequence that begins at a node. -/
def chain (g : Graph) (head : NodeId) : List NodeId :=
  chainFrom g.node g.size head

/-- The parents above a node, nearest first, up to a number of steps. -/
def ancestorsFrom (g : Graph) : (fuel : Nat) → NodeId → List NodeId
  | 0, _ => []
  | fuel + 1, i =>
    match (g.node i).parent with
    | some p => p :: ancestorsFrom g fuel p
    | none => []

/-- The nodes that contain a node, nearest first. -/
def ancestors (g : Graph) (i : NodeId) : List NodeId :=
  ancestorsFrom g g.size i

/-- The nodes below a list of pending ones, each listed before the nodes it leads to, up to a
number of steps. -/
def walk (g : Graph) : (fuel : Nat) → (pending : List NodeId) → List NodeId
  | 0, _ => []
  | _ + 1, [] => []
  | fuel + 1, i :: pending => i :: walk g fuel ((g.node i).targets ++ pending)

/-- The nodes that a node contains at any depth; its own sequence is not part of it. -/
def descendants (g : Graph) (i : NodeId) : List NodeId :=
  walk g g.size (g.node i).slotTargets

/-- The nearest node around a node whose type is in `allowed`. -/
def enclosing? (g : Graph) (allowed : TypeSet) (i : NodeId) : Option NodeId :=
  (g.ancestors i).find? fun a => allowed.contains (g.node a).type

/-- Some node around a node has a type in `allowed`. -/
def isInside (g : Graph) (allowed : TypeSet) (i : NodeId) : Bool :=
  (g.enclosing? allowed i).isSome

/-- The first of the given nodes that has one of the `types`, unless one that bounds a routine
comes before it. -/
def firstWithin? (g : Graph) (types : List String) (bounds : TypeSet) : List NodeId → Option NodeId
  | [] => none
  | a :: rest =>
    if types.contains (g.node a).type then some a
    else if bounds.contains (g.node a).type then none
    else firstWithin? g types bounds rest

/-- The nearest node of one of the `types` around a node within the same routine. -/
def enclosingWithin? (g : Graph) (types : List String) (bounds : TypeSet) (i : NodeId) :
    Option NodeId :=
  g.firstWithin? types bounds (g.ancestors i)

end Graph

end BlockCompiler
