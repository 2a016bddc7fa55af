import BlockCompiler.CommandLine.Plan

/-!
# The folder that the program works in

Paths as names that lead from folder to folder, and a folder of files in which the
program runs.  `Folder.perform` is what becomes of a folder, and what is said, when
the program is called in it.
-/

namespace BlockCompiler.CommandLine

/-- A place of the system that takes and gives text without keeping it. -/
inductive Device where
  /-- Takes everything and gives nothing. -/
  | null
  /-- Has no room for anything. -/
  | full
  /-- The input of the program, which is empty. -/
  | input
  /-- The output of the program. -/
  | output
  /-- The messages of the program. -/
  | messages
deriving DecidableEq, Repr

namespace Device

/-- The device of a name. -/
def ofName? : String → Option Device
  | "null" => some null
  | "full" => some full
  | "stdin" => some input
  | "stdout" => some output
  | "stderr" => some messages
  | _ => none

/-- How the program ends after it has written to a device. -/
def take (content : String) (o : Outcome) : Device → Except FileFault Outcome
  | null | input => .ok o
  | full => if content.isEmpty then .ok o else .error .noRoom
  | output => .ok { o with out := content ++ o.out }
  | messages => .ok { o with err := content ++ o.err }

end Device

/-- A folder that a path can lead through. -/
inductive Site where
  /-- The folder that the program works in. -/
  | work
  /-- A folder above it. -/
  | above
  /-- The folder above all others. -/
  | top
  /-- The folder of devices. -/
  | devices
  /-- Another folder right below the top. -/
  | system
deriving DecidableEq, Repr

/-- The folder above a folder. -/
def Site.parent : Site → Site
  | work | above => above
  | top | devices | system => top

/-- What a path leads to. -/
inductive Place where
  | site (s : Site)
  | file (name content : String)
  | device (d : Device)
  /-- Nothing has the name, but there is a folder for it. -/
  | vacant (s : Site) (name : String)
deriving DecidableEq, Repr

/-- The files of the folder that the program works in. -/
structure Folder where
  files : List (String × String)
deriving DecidableEq, Repr

namespace Folder

/-- The names of the folders right below the top, that of the devices apart. -/
def systemNames : List String :=
  ["bin", "boot", "etc", "home", "lib", "media", "mnt", "opt", "proc", "root", "run", "sbin", "srv",
    "sys", "tmp", "usr", "var"]

/-- The greatest number of bytes of a name. -/
def nameLimit : Nat := 255

/-- The number of bytes that a path stays below. -/
def pathLimit : Nat := 4096

/-- What has a name in a folder; nothing is known to be in the folders above and in those of the
system. -/
def enter (f : Folder) (s : Site) (name : String) : Place :=
  match s with
  | .work =>
    match f.files.lookup name with
    | some content => .file name content
    | none => .vacant .work name
  | .top =>
    if name = "dev" then .site .devices
    else if systemNames.contains name then .site .system
    else .vacant .top name
  | .devices =>
    match Device.ofName? name with
    | some d => .device d
    | none => .vacant .devices name
  | .above | .system => .vacant s name

/-- Goes on from a place by a name.  No name and a single dot stay where they are, two dots lead
to the folder above. -/
def follow (f : Folder) (p : Place) (name : String) : Except FileFault Place :=
  match p with
  | .site s =>
    if name = "" || name = "." then .ok p
    else if name = ".." then .ok (.site s.parent)
    else if nameLimit < name.utf8ByteSize then .error .longName
    else .ok (f.enter s name)
  | .file .. | .device _ => .error .notFolder
  | .vacant .. => .error .missing

/-- Goes along several names. -/
def followAll (f : Folder) : Place → List String → Except FileFault Place
  | p, [] => .ok p
  | p, name :: names =>
    match f.follow p name with
    | .error fault => .error fault
    | .ok q => f.followAll q names

/-- The folder that a path starts from. -/
def start (path : String) : Place :=
  .site (if path.toList.head? = some '/' then .top else .work)

/-- What a path leads to. -/
def find (f : Folder) (path : String) : Except FileFault Place :=
  if path.isEmpty then .error .missing
  else if pathLimit ≤ path.utf8ByteSize then .error .longName
  else f.followAll (start path) (path.splitOn "/")

/-- The content that a path leads to. -/
def content (f : Folder) (path : String) : Except FileFault String :=
  match f.find path with
  | .error fault => .error fault
  | .ok (.site _) => .error .isFolder
  | .ok (.file _ content) => .ok content
  | .ok (.device _) => .ok ""
  | .ok (.vacant ..) => .error .missing

/-- The place for new content.  A path that ends with a slash names a folder, whether or not
there is one. -/
def findNew (f : Folder) (path : String) : Except FileFault Place :=
  match path.toList.reverse.dropWhile (· = '/') with
  | [] => f.find path
  | c :: cs =>
    if path.toList.getLast? = some '/' && path.utf8ByteSize < pathLimit then
      match f.find (String.ofList (c :: cs).reverse) with
      | .error fault => .error fault
      | .ok _ => .error .isFolder
    else f.find path

/-- How the program ends, and what its folder then holds, after it has written a file. -/
def store (f : Folder) (path content : String) (o : Outcome) :
    Except FileFault (Outcome × Folder) :=
  match f.findNew path with
  | .error fault => .error fault
  | .ok (.site _) => .error .isFolder
  | .ok (.device d) => (d.take content o).map (·, f)
  | .ok (.file name _) | .ok (.vacant .work name) => .ok (o, ⟨(name, content) :: f.files⟩)
  | .ok (.vacant ..) => .ok (o, f)

/-- How the program ends with the arguments, and what its folder then holds. -/
def perform (f : Folder) (args : List String) : Outcome × Folder :=
  match plan f.content (CommandLine.read args) with
  | .finish o => (o, f)
  | .write path content o =>
    match f.store path content o with
    | .ok ended => ended
    | .error fault => (writeFailed path fault, f)

end Folder

end BlockCompiler.CommandLine
