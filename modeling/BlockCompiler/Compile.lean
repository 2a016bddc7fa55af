import BlockCompiler.Blocks.Routine
import BlockCompiler.Run

/-!
# Compilation

The top-level sequences of a graph are walked block by block.  Containers and
always-emitted blocks are generated; every other block there is an orphan, which
is reported and leaves a comment in its place.  Roots that begin a program are
generated last, so that the setup lines of all others are known by then.

The source is made of the declarations, a banner and a section for each root.
`fragment` shows a single block in the same way.
-/

namespace BlockCompiler

/-- What the source is to hold besides code. -/
structure Options where
  /-- A comment that says what made the source. -/
  banner : Bool := true
  /-- A comment where an orphan was passed over. -/
  placeholders : Bool := true
deriving DecidableEq, Repr

/-- The source, and what there is to say about it. -/
structure Product where
  backend : String
  source : String
  diagnostics : List Diagnostic
deriving DecidableEq, Repr

namespace Product

/-- There is nothing to say about the source. -/
def isClean (p : Product) : Bool :=
  p.diagnostics.isEmpty

/-- Some diagnostic is a failure. -/
def hasErrors (p : Product) : Bool :=
  p.diagnostics.any (·.level.isFailure)

/-- The diagnostics with a reason. -/
def withReason (p : Product) (r : Reason) : List Diagnostic :=
  p.diagnostics.filter (·.reason == r)

end Product

/-- The script of one kind of block for one target. -/
def Generator.script (g : Generator) (j : Job) (i : NodeId) : Script Code :=
  let t := g.target
  let n := j.node i
  match g.kind with
  | .entry => Blocks.entry t j n
  | .procedure => Blocks.procedure t j i n
  | .serialSetup => Blocks.serialSetup t n
  | .servoAttach => Blocks.servoAttach t n
  | .interruptAttach => Blocks.interruptAttach t n
  | .conditional => j.guarded i (Blocks.conditional t j n)
  | .repeatLoop => j.guarded i (Blocks.repeatLoop t j n)
  | .conditionLoop => j.guarded i (Blocks.conditionLoop t j n)
  | .countingLoop => j.guarded i (Blocks.countingLoop t j n)
  | .loopExit => j.guarded i (Blocks.loopExit j i n)
  | .returnStatement => j.guarded i (Blocks.returnStatement j n)
  | .timedRepeat => j.guarded i (Blocks.timedRepeat t j n)
  | .assignment => Blocks.assignment t j n
  | .digitalWrite => Blocks.digitalWrite t j n
  | .analogWrite => Blocks.analogWrite t j n
  | .serialPrint => Blocks.serialPrint t j n
  | .delay => Blocks.delay t j n
  | .servoWrite => Blocks.servoWrite t j n
  | .callStatement => Blocks.callStatement t j n
  | .number => return Blocks.number t n
  | .arithmetic => Blocks.arithmetic t j n
  | .boolean => return Blocks.boolean t n
  | .comparison => Blocks.comparison t j n
  | .logic => Blocks.logic t j n
  | .negation => Blocks.negation t j n
  | .text => return Blocks.text t n
  | .variableValue => return Blocks.variableValue n
  | .digitalRead => Blocks.digitalRead t n
  | .analogRead => Blocks.analogRead t n
  | .milliseconds => Blocks.milliseconds t
  | .callExpression => Blocks.callExpression t j n

namespace Job

/-- The script of a block: that of its type's generator.  A type without one is noticed and
reported, and turns into nothing. -/
def blockScript (j : Job) (i : NodeId) : Script Code :=
  let n := j.node i
  match j.backend.generators.get? n.type with
  | some g => g.script j i
  | none => do
    Script.notice (.missingGenerator n.type n.key j.backend.name)
    Script.report (.missingGenerator n.key n.type j.backend.name)
    return Code.empty

/-- A bound on the number of blocks that are generated inside each other: each block on the way
down once, and once more after the pass over the always-emitted blocks began. -/
def depthBound (j : Job) : Nat :=
  2 * j.graph.size + 1

/-- The result of a script and the run after it, if the depth bound is kept. -/
def play? {α : Type} (j : Job) (script : Script α) (s : Run) : Option (α × Run) :=
  script.run (emit j.blockScript j.depthBound) s

/-- The result of a script and the run after it. -/
def play {α : Type} [Inhabited α] (j : Job) (script : Script α) (s : Run) : α × Run :=
  (j.play? script s).getD (default, s)

/-! ## Top level -/

/-- The type is generated at top level. -/
def isPlaced (j : Job) (type : String) : Bool :=
  j.backend.containers.contains type || j.backend.alwaysEmitted.contains type

/-- The comment in the place of an orphan. -/
def placeholder (j : Job) (type : String) : String :=
  j.comment ("[" ++ Reason.orphanedTopLevel.code ++ "] '" ++ type ++
    "' skipped: place it inside one of: " ++ j.backend.containers.describe)

/-- The code of a block at top level. -/
def topLevel (j : Job) (options : Options) (i : NodeId) : Script String :=
  let n := j.node i
  if j.isPlaced n.type then do
    Script.notice (.generatingRoot n.key n.type)
    return (← Script.generate i).text
  else do
    Script.notice (.orphanedRoot n.key n.type)
    Script.report (.orphanedTopLevel n.key n.type j.backend.containers.describe)
    return if options.placeholders then j.placeholder n.type else ""

/-- The code of a root and of the blocks that follow it. -/
def stack (j : Job) (options : Options) (root : NodeId) : Script String := do
  return String.join (← (j.graph.chain root).mapM (j.topLevel options))

/-- The root begins a program. -/
def isEntry (j : Job) (root : NodeId) : Bool :=
  j.backend.entryPoints.contains (j.node root).type

/-- The roots in the order in which they are generated. -/
def generationOrder (j : Job) : List NodeId :=
  j.graph.roots.filter (!j.isEntry ·) ++ j.graph.roots.filter j.isEntry

/-- The section of a root, with the root. -/
def rootSection (j : Job) (options : Options) (root : NodeId) : Script (NodeId × String) := do
  return (root, ← j.stack options root)

/-- The sections of all roots, in the order of generation. -/
def sections (j : Job) (options : Options) : Script (List (NodeId × String)) :=
  j.generationOrder.mapM (j.rootSection options)

/-- The sections in the order in which they stand in the source. -/
def arrange (j : Job) (sections : List (NodeId × String)) : List String :=
  if j.formatting.entryPointsLast then sections.map (·.2)
  else j.graph.roots.map fun r => (sections.lookup r).getD ""

/-- The comment that says what made the source. -/
def banner (j : Job) : String :=
  j.comment ("Generated by blockforge for " ++ j.backend.displayName)

/-- The declarations, the banner and the sections that are not blank, with a blank line between
any two of them. -/
def assemble (declarations : String) (banner : Option String) (sections : List String) : String :=
  let parts :=
    (if declarations.isEmpty then [] else [declarations]) ++ banner.toList ++
      sections.filter (!Text.blank ·)
  if parts.isEmpty then "" else "\n\n".intercalate (parts.map Text.trimLineFeeds) ++ "\n"

/-- The product of a run, from the sections as they stand in the source. -/
def product (j : Job) (s : Run) (banner : Option String) (sections : List String) : Product where
  backend := j.backend.name
  source := assemble s.declarations.flush banner sections
  diagnostics := s.diagnostics.entries

/-- What the log says at the end of a compilation. -/
def closingNotices (j : Job) (s : Run) : List Notice :=
  let ds := s.diagnostics.entries
  (if s.entryPoints = 0 && !s.setups.entries.isEmpty then
    [.setupsDropped s.setups.entries.length] else []) ++
    [.compiled j.graph.roots.length j.backend.name (Diagnostic.failures ds)
      (Diagnostic.warnings ds)]

/-- The product of a compilation and the run at its end, from the sections of all roots. -/
def finish (j : Job) (options : Options) (sections : List (NodeId × String)) (s : Run) :
    Product × Run :=
  let banner := if options.banner then some j.banner else none
  (j.product s banner (j.arrange sections), { s with notices := s.notices ++ j.closingNotices s })

/-- Compiles a graph, whatever generators the code of its blocks comes from: the product, and the
run at its end.  There is none if the code of a block is not to be had. -/
def compileBy (j : Job) (code : NodeId → Run → Option (Code × Run)) (options : Options) :
    Option (Product × Run) :=
  ((j.sections options).run code {}).map fun r => j.finish options r.1 r.2

/-- Compiles a graph with the generators of the backend. -/
def compileRun (j : Job) (options : Options) : Product × Run :=
  (j.compileBy (emit j.blockScript j.depthBound) options).getD (j.finish options [] {})

/-- Compiles a graph. -/
def compile (j : Job) (options : Options) : Product :=
  (j.compileRun options).1

/-- The code of a single block as it is shown on its own. -/
def fragmentText : Code → String
  | .statement text => text
  | .expression text _ => if text.isEmpty then "" else text ++ "\n"

/-- The script of a fragment: a root is shown with the blocks that follow it. -/
def fragmentScript (j : Job) (i : NodeId) : Script String :=
  if j.graph.roots.contains i then j.stack {} i
  else do return fragmentText (← Script.generate i)

/-- Shows a single block, after the declarations it needs. -/
def fragment (j : Job) (i : NodeId) : Product :=
  let (code, s) := j.play (j.fragmentScript i) {}
  j.product s none [code]

end Job

end BlockCompiler
