import BlockCompiler.Backend
import BlockCompiler.Graph.Basic
import BlockCompiler.Script

/-!
# Jobs

A job is a graph to be compiled and the backend to do it with.  The scripts here
are what generators are made of: the code of a slot, of a sequence, of a body,
and the checks on where a block stands.
-/

namespace BlockCompiler

/-- A graph to be compiled by a backend. -/
structure Job where
  graph : Graph
  backend : Backend

namespace Job

/-- The node at a position. -/
def node (j : Job) (i : NodeId) : Node :=
  j.graph.node i

/-- The conventions of the backend. -/
def formatting (j : Job) : Formatting :=
  j.backend.formatting

/-- A statement of one line. -/
def line (j : Job) (code : String) : String :=
  j.formatting.line code

/-- The code one step further in. -/
def indent (j : Job) (code : String) : String :=
  j.formatting.indent code

/-- Each line of a text as a comment. -/
def comment (j : Job) (text : String) : String :=
  j.formatting.comment text

/-- The code of a block as statements; an expression is ended like one. -/
def statementText (j : Job) : Code → String
  | .statement text => text
  | .expression text _ => if text.isEmpty then "" else j.line text

/-- The statements of a block. -/
def statementCode (j : Job) (i : NodeId) : Script String := do
  return j.statementText (← Script.generate i)

/-- The statements of a sequence. -/
def chainCode (j : Job) (head : NodeId) : Script String := do
  return String.join (← (j.graph.chain head).mapM j.statementCode)

/-- The statements in a slot, one step further in; an empty slot has none. -/
def slotCode (j : Job) (owner : Node) (slot : String) : Script String :=
  match owner.statements.get? slot with
  | some head => do return j.indent (← j.chainCode head)
  | none => return ""

/-- Code that stands as a body: where it is blank and the language needs a statement, that one. -/
def fillBody (j : Job) (code : String) : String :=
  match j.formatting.emptyBody with
  | some filler => if Text.blank code then j.indent (j.line filler) else code
  | none => code

/-- The statements in a slot as a body. -/
def bodyCode (j : Job) (owner : Node) (slot : String) : Script String := do
  return j.fillBody (← j.slotCode owner slot)

/-- The expression in a value slot as it stands in a place of order `outer`.  There is none if the
slot is empty or its block turns into nothing; a statement is passed over, with a notice. -/
def valueCode? (j : Job) (owner : Node) (slot : String) (outer : Order) :
    Script (Option String) :=
  match owner.values.get? slot with
  | none => return none
  | some child => do
    match ← Script.generate child with
    | .expression text inner =>
      return if text.isEmpty then none else some (parenthesize text inner outer)
    | .statement text =>
      if !text.isEmpty then
        Script.notice (.statementAsValue (j.node child).type slot owner.key)
      return none

/-- The expression in a value slot, or `fallback` if there is none. -/
def valueCode (j : Job) (owner : Node) (slot : String) (outer : Order) (fallback : String) :
    Script String := do
  return (← j.valueCode? owner slot outer).getD fallback

/-- The block has a container above it; if not, it is noticed and reported. -/
def standsInContainer (j : Job) (i : NodeId) : Script Bool :=
  if j.graph.isInside j.backend.containers i then return true
  else do
    let n := j.node i
    Script.notice (.outsideContainer n.type n.key)
    Script.report (.orphanedNested n.key n.type j.backend.containers.describe)
    return false

/-- The code of a block that makes sense only below a container; elsewhere there is none. -/
def guarded (j : Job) (i : NodeId) (code : Script Code) : Script Code := do
  if ← j.standsInContainer i then code else return Code.empty

/-- The block stands in a loop of the same routine. -/
def standsInLoop (j : Job) (i : NodeId) : Bool :=
  (j.graph.enclosingWithin? loopTypes j.backend.containers i).isSome

/-- The always-emitted blocks of the graph, wherever they stand. -/
def alwaysEmitted (j : Job) : List NodeId :=
  j.graph.ids.filter fun i => j.backend.alwaysEmitted.contains (j.node i).type

/-- Generates an always-emitted block for what it registers; its own code is dropped. -/
def emitAside (j : Job) (i : NodeId) : Script Unit := do
  let code ← Script.generate i
  if !code.isEmpty then Script.notice (.inlineCodeDiscarded (j.node i).key)

/-- Generates all always-emitted blocks, unless that was done before. -/
def alwaysEmittedPass (j : Job) : Script Unit := do
  if ← Script.beginPass then j.alwaysEmitted.forM j.emitAside

end Job

end BlockCompiler
