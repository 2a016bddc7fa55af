import BlockCompiler.Incident
import BlockCompiler.Text.Quoted

/-!
# Defects

What can be wrong with a visual program so that no graph is made of it.
-/

namespace BlockCompiler

/-- Why a file cannot be read or written. -/
inductive FileFault where
  /-- There is no such file, or no folder for it. -/
  | missing
  /-- A path leads through a file. -/
  | notFolder
  /-- A path leads to a folder. -/
  | isFolder
  /-- There is no room left. -/
  | noRoom
  /-- A name or a path is too long. -/
  | longName
  /-- The content is no text. -/
  | notText
  | other (message : String)
deriving DecidableEq, Repr

namespace FileFault

/-- The words for a file fault. -/
def message : FileFault → String
  | missing => "No such file or directory (os error 2)"
  | notFolder => "Not a directory (os error 20)"
  | isFolder => "Is a directory (os error 21)"
  | noRoom => "No space left on device (os error 28)"
  | longName => "File name too long (os error 36)"
  | notText => "stream did not contain valid UTF-8"
  | other message => message

/-- The fault that a system gives by number. -/
def ofCode? : Nat → Option FileFault
  | 2 => some missing
  | 20 => some notFolder
  | 21 => some isFolder
  | 28 => some noRoom
  | 36 => some longName
  | _ => none

end FileFault

/-- A defect of a visual program. -/
inductive Defect where
  /-- Two nodes have the same key. -/
  | duplicateNode (key : String)
  /-- A link of `owner` leads to a key that no node has. -/
  | danglingLink (owner key : String)
  /-- Two links lead to the same node. -/
  | sharedNode (node first second : String)
  /-- A node is listed twice among the roots. -/
  | repeatedRoot (node : String)
  /-- A root is the target of a link. -/
  | ownedRoot (node owner : String)
  /-- Links lead in a circle; the path ends with the key it begins with. -/
  | cycle (first : String) (rest : List String)
  /-- No root leads to a node. -/
  | detached (node : String)
  /-- The file of a document cannot be read. -/
  | unreadableFile (path : String) (fault : FileFault)
  /-- The text is no document. -/
  | malformed
deriving DecidableEq, Repr

namespace Defect

/-- The kinds that defects are sorted into. -/
inductive Kind where
  | duplicateNode
  | danglingLink
  | multipleOwners
  | cycle
  | detached
  | unreadable
deriving DecidableEq, Repr

/-- The kind of a defect. -/
def kind : Defect → Kind
  | duplicateNode _ => .duplicateNode
  | danglingLink .. => .danglingLink
  | sharedNode .. | repeatedRoot _ | ownedRoot .. => .multipleOwners
  | cycle .. => .cycle
  | detached _ => .detached
  | unreadableFile .. | malformed => .unreadable

/-- The words for a defect. -/
def message : Defect → String
  | duplicateNode key => "More than one node uses the key '" ++ key ++ "'"
  | danglingLink owner key => "Node '" ++ owner ++ "' refers to missing node '" ++ key ++ "'"
  | sharedNode node first second =>
    "Node '" ++ node ++ "' is attached to both '" ++ first ++ "' and '" ++ second ++ "'"
  | repeatedRoot node => "Node '" ++ node ++ "' is listed as a root more than once"
  | ownedRoot node owner =>
    "Node '" ++ node ++ "' is a root but is also attached to '" ++ owner ++ "'"
  | cycle first rest =>
    "Cycle detected in block containment: " ++ " -> ".intercalate (first :: rest)
  | detached node => "Node '" ++ node ++ "' is not reachable from any root"
  | unreadableFile path fault => "read graph document " ++ Text.quoted path ++ ": " ++ fault.message
  | malformed => "parse graph document:"

/-- The part of the compiler that finds the defect. -/
def issuer (d : Defect) : String :=
  match d.kind with
  | .duplicateNode => "blockforge.graph.build"
  | .danglingLink | .unreadable => "blockforge.graph.document"
  | .multipleOwners | .cycle | .detached => "blockforge.graph.validate"

/-- The key of the node concerned. -/
def node : Defect → Option String
  | duplicateNode key => some key
  | danglingLink owner _ => some owner
  | sharedNode node _ _ | repeatedRoot node | ownedRoot node _ | detached node => some node
  | cycle first _ => some first
  | unreadableFile .. | malformed => none

/-- What the defect says as an incident. -/
def incident (d : Defect) : Incident where
  level := .critical
  message := d.message
  issuer := d.issuer
  node := d.node

/-- The defect in one sentence, with its node. -/
def render (d : Defect) : String :=
  match d.node with
  | some key => d.message ++ " (at node '" ++ key ++ "')"
  | none => d.message

end Defect

end BlockCompiler
