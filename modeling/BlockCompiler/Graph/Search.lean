import BlockCompiler.Graph.Node

/-!
# Searches along links

Two searches over nodes that are given by their positions, and by the positions
that each of them leads to.

The first one looks for a circle.  It goes down from a node as far as links lead
and comes back to take the next link; a link to a node that it has entered and
not left yet closes a circle.  The second one marks what a list of nodes leads
to, one pending node at a time.
-/

namespace BlockCompiler

/-- How far a search has come with a node. -/
inductive Mark where
  | unseen
  /-- The node was entered and not left yet. -/
  | visiting
  | done
deriving DecidableEq, Repr

/-- The state of a search for circles. -/
structure Descent where
  /-- The marks of nodes, by position. -/
  marks : Array Mark
  /-- The nodes that were entered and not left yet, the last one first. -/
  stack : List NodeId := []
deriving DecidableEq, Repr

namespace Descent

/-- A search among `size` nodes, before its first step. -/
def start (size : Nat) : Descent where
  marks := Array.replicate size .unseen

/-- The mark of a node. -/
def mark (s : Descent) (i : NodeId) : Mark :=
  s.marks.getD i .unseen

/-- Enters a node. -/
def enter (s : Descent) (i : NodeId) : Descent where
  marks := s.marks.setIfInBounds i .visiting
  stack := i :: s.stack

/-- Leaves a node, the last one that was entered. -/
def leave (s : Descent) (i : NodeId) : Descent where
  marks := s.marks.setIfInBounds i .done
  stack := s.stack.tail

/-- The way from a node on the stack down to the last one, and by a link back to it. -/
def wayBack (s : Descent) (i : NodeId) : List NodeId :=
  (s.stack.takeWhile (· != i)).reverse ++ [i]

/-- Visits a node and all that it leads to: the search after that, or the first circle found, as a
node and the way from it back to it.  Not more than `fuel` nodes are entered inside each other. -/
def visit (targets : NodeId → List NodeId) :
    (fuel : Nat) → Descent → NodeId → Except (NodeId × List NodeId) Descent
  | 0, s, _ => .ok s
  | fuel + 1, s, i => do
    let s ← (targets i).foldlM (fun s t =>
      match s.mark t with
      | .unseen => visit targets fuel s t
      | .visiting => .error (t, s.wayBack t)
      | .done => .ok s) (s.enter i)
    return s.leave i

/-- Visits a node unless that was done before. -/
def visitNew (targets : NodeId → List NodeId) (fuel : Nat) (s : Descent) (i : NodeId) :
    Except (NodeId × List NodeId) Descent :=
  match s.mark i with
  | .unseen => visit targets fuel s i
  | .visiting | .done => .ok s

/-- The first circle among `size` nodes, as a node and the way from it back to it. -/
def circle? (targets : NodeId → List NodeId) (size : Nat) : Option (NodeId × List NodeId) :=
  match (List.range size).foldlM (visitNew targets size) (start size) with
  | .error circle => some circle
  | .ok _ => none

end Descent

/-- Marks the pending nodes and all that they lead to, up to a number of steps.  The node that
became pending last is taken first. -/
def reach (targets : NodeId → List NodeId) :
    (fuel : Nat) → (reached : Array Bool) → (pending : List NodeId) → Array Bool
  | 0, reached, _ => reached
  | _ + 1, reached, [] => reached
  | fuel + 1, reached, i :: pending =>
    if reached.getD i false then reach targets fuel reached pending
    else reach targets fuel (reached.setIfInBounds i true) ((targets i).reverse ++ pending)

end BlockCompiler
