import TickScheduler.Files.Fault
import TickScheduler.Files.Path
/-!
A tree of directories and text files, and the operations on files that the program needs, with the
faults of a real file system. Links and permissions are left out.
-/
namespace TickScheduler

inductive FileNode where
  | directory
  | file (text : String)
deriving DecidableEq, Repr

namespace FileNode

def isDirectory : FileNode → Bool
  | .directory => true
  | .file _ => false

end FileNode

/-- The names on the way from the root. -/
abbrev Location : Type := List String

structure FileTree where
  /-- What there is below the root. -/
  nodes : List (Location × FileNode)
deriving DecidableEq, Repr

namespace FileTree

def empty : FileTree := ⟨[]⟩

/-- What is at a location. The root is always there. -/
def node? (t : FileTree) : Location → Option FileNode
  | [] => some .directory
  | location => t.nodes.lookup location

/-- Puts something at a location, in the place of what was there. -/
def put (t : FileTree) (location : Location) (node : FileNode) : FileTree :=
  ⟨(location, node) :: t.nodes.filter (·.1 != location)⟩

def erase (t : FileTree) (location : Location) : FileTree :=
  ⟨t.nodes.filter (·.1 != location)⟩

/-- A name has at most so many bytes. -/
def nameLimit : Nat := 255

/-- The location of a part in the directory at `here`. It need not be there, unless the part goes
up. -/
def enter (t : FileTree) (here : Location) (part : String) : Except FileFault Location :=
  match t.node? here with
  | none => .error .missing
  | some (.file _) => .error .notDirectory
  | some .directory =>
    if part = ".." then .ok here.dropLast
    else if nameLimit < part.utf8ByteSize then .error .longName
    else .ok (here ++ [part])

/-- A path has at most so many bytes behind its first slash. -/
def pathLimit : Nat := 4094

/-- The location that parts lead to. Only the last one need not be there. -/
def follow (t : FileTree) (here : Location) (parts : List String) : Except FileFault Location :=
  if parts.any (·.toList.contains '\x00') then .error .zeroCharacter
  else if pathLimit < ("/".intercalate parts).utf8ByteSize then .error .longName
  else parts.foldlM t.enter here

/-- Where a path begins. -/
def base (current : Location) (path : Path) : Location :=
  if path.isAbsolute then [] else current

/-- The location and the node of a path. -/
def find (t : FileTree) (current : Location) (path : Path) :
    Except FileFault (Location × FileNode) := do
  let location ← t.follow (base current path) path.parts
  match t.node? location with
  | some node =>
    if path.needsDirectory && !node.isDirectory then throw .notDirectory
    else return (location, node)
  | none => throw .missing

def isDirectory (t : FileTree) (current : Location) (path : Path) : Bool :=
  match t.find current path with
  | .ok (_, node) => node.isDirectory
  | .error _ => false

def readFile (t : FileTree) (current : Location) (path : Path) : Except FileFault String := do
  match ← t.find current path with
  | (_, .file text) => return text
  | (_, .directory) => throw .directory

/-- Writes a file, which is made if it is not there. -/
def writeFile (t : FileTree) (current : Location) (path : Path) (text : String) :
    Except FileFault FileTree := do
  if path.parts.isEmpty || path.needsDirectory then throw .directory
  let location ← t.follow (base current path) path.parts
  if t.node? location = some .directory then throw .directory
  return t.put location (.file text)

def removeFile (t : FileTree) (current : Location) (path : Path) : Except FileFault FileTree := do
  match ← t.find current path with
  | (location, .file _) => return t.erase location
  | (_, .directory) => throw .directory

/-- Makes one directory, of which only the last part may be missing. -/
def makeDirectory (t : FileTree) (current : Location) (path : Path) :
    Except FileFault FileTree := do
  let location ← t.follow (base current path) path.parts
  if (t.node? location).isSome then throw .taken
  return t.put location .directory

/-- Makes a directory, given by its parts in reverse, and those above it as far as they are missing.
What could be made stays, whatever comes after. -/
def makeAll (t : FileTree) (start : Location) : List String → Except FileFault Unit × FileTree
  | [] => (.ok (), t)
  | last :: above =>
    let path : Path := { isAbsolute := false, parts := (last :: above).reverse }
    let accept (t : FileTree) (fault : FileFault) : Except FileFault Unit × FileTree :=
      (if t.isDirectory start path then .ok () else .error fault, t)
    match t.makeDirectory start path with
    | .ok t => (.ok (), t)
    | .error .missing =>
      match makeAll t start above with
      | (.error fault, t) => (.error fault, t)
      | (.ok (), t) =>
        match t.makeDirectory start path with
        | .ok t => (.ok (), t)
        | .error fault => accept t fault
    | .error fault => accept t fault

/-- Makes a directory and those above it as far as they are missing. -/
def makeDirectories (t : FileTree) (current : Location) (path : Path) :
    Except FileFault Unit × FileTree :=
  t.makeAll (base current path) path.parts.reverse

/-- The directories below a location, as the names on the way from there. -/
def directoriesBelow (t : FileTree) (location : Location) : List Location :=
  t.nodes.filterMap fun (found, node) =>
    if node.isDirectory && location.isPrefixOf found && found.length != location.length then
      some (found.drop location.length)
    else none

end FileTree

end TickScheduler
