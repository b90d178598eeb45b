import DartData.Fault
import DartData.Path
import DartData.Utf8

/-!
# Files

The files that a run can see, as a value.  Names stand at places, given by their parts from the
root, and a name is a directory, a link to another path or a file.  What a file holds is kept by its
number, so that a file may have several names.  Reading and writing go by the text of a path as seen
from the current directory, and follow links.
-/

namespace DartData

/-- What stands at a place. -/
inductive FileNode where
  /-- The file with a number. -/
  | file (number : Nat)
  | directory
  /-- A symbolic link to a path, as seen from its directory. -/
  | link (path : Text)
  deriving DecidableEq, Repr

/-- A number above that of the file, if it is one. -/
def FileNode.bound : FileNode → Nat
  | .file n => n + 1
  | .directory | .link _ => 0

/-- Names by place, contents by number, and the current directory.  The root is always there.  An
    entry hides those after it. -/
structure FileTree where
  /-- The parts of the current directory. -/
  current : List Text := []
  nodes : List (List Text × FileNode) := []
  contents : List (Nat × List UInt8) := []
  deriving DecidableEq, Repr

namespace FileTree

/-! ## §1. Places and contents. -/

/-- The text of a place. -/
def placeText (place : List Text) : Text := ['/'] ++ Text.join "/" place

/-- The current directory as a path. -/
def currentPath (t : FileTree) : Text := placeText t.current

/-- What stands at a place. -/
def node? (t : FileTree) (place : List Text) : Option FileNode :=
  if place.isEmpty then some .directory else t.nodes.lookup place

/-- What a file holds. -/
def content (t : FileTree) (number : Nat) : List UInt8 := (t.contents.lookup number).getD []

/-- Puts something at a place, in the stead of what stands there. -/
def put (t : FileTree) (place : List Text) (n : FileNode) : FileTree :=
  { t with nodes := (place, n) :: t.nodes }

/-- Puts bytes into a file. -/
def fill (t : FileTree) (number : Nat) (bytes : List UInt8) : FileTree :=
  { t with contents := (number, bytes) :: t.contents }

/-- A number that no file has. -/
def newNumber (t : FileTree) : Nat := t.nodes.foldr (fun e n => max e.2.bound n) 0

/-- Puts a new file at a place. -/
def create (t : FileTree) (place : List Text) (bytes : List UInt8) : FileTree :=
  (t.put place (.file t.newNumber)).fill t.newNumber bytes

/-- Puts directories at a place and at all places above it where nothing stands. -/
def putDirectories (t : FileTree) (place : List Text) : FileTree :=
  (List.range place.length).foldl (fun t k =>
    let p := place.take (k + 1)
    if (t.node? p).isSome then t else t.put p .directory) t

/-! ## §2. Paths. -/

/-- Where a path leads. -/
inductive Target where
  | file (place : List Text) (number : Nat)
  | directory (place : List Text)
  /-- Nothing is there but the directory above it; `slash` tells whether the path ends with a
      slash. -/
  | free (place : List Text) (slash : Bool)
  /-- A directory on the way is missing. -/
  | missing
  /-- Something on the way is no directory. -/
  | blocked
  /-- There are too many links on the way. -/
  | endless
  deriving DecidableEq, Repr

/-- How far a path is followed without a link. -/
inductive Walk where
  | ended (target : Target)
  /-- There is a link in a directory, with parts left after it. -/
  | link (directory : List Text) (path : Text) (rest : List Text)
  deriving DecidableEq, Repr

/-- Follows the parts of a path from a place up to a link. -/
def walk (t : FileTree) (place : List Text) : List Text → Walk
  | [] =>
    match t.node? place with
    | some (.file n) => .ended (.file place n)
    | some .directory => .ended (.directory place)
    | some (.link _) | none => .ended .missing
  | part :: rest =>
    match t.node? place with
    | none | some (.link _) => .ended .missing
    | some (.file _) => .ended .blocked
    | some .directory =>
      if part.isEmpty || part == ['.'] then t.walk place rest
      else if part == ['.', '.'] then t.walk place.dropLast rest
      else match t.node? (place ++ [part]) with
        | some (.link path) => .link place path rest
        | some _ => t.walk (place ++ [part]) rest
        | none =>
          if rest.all List.isEmpty then .ended (.free (place ++ [part]) (!rest.isEmpty))
          else .ended .missing

/-- The place from which a path is followed, as seen from a directory. -/
def startOf (directory : List Text) (path : Text) : List Text :=
  if Path.isAbsolute path then [] else directory

/-- Follows the parts of a path from a place, over fewer than so many links. -/
def follow (t : FileTree) : Nat → List Text → List Text → Target
  | 0, _, _ => .endless
  | n + 1, place, parts =>
    match t.walk place parts with
    | .ended target => target
    | .link directory path rest =>
      if path.isEmpty then .missing
      else t.follow n (startOf directory path) (path.split '/' ++ rest)

/-- Where a path leads, as seen from the current directory.  At most forty links are followed. -/
def target (t : FileTree) (path : Text) : Target :=
  if path.isEmpty then .missing else t.follow 41 (startOf t.current path) (path.split '/')

/-- Whether a path leads to a file. -/
def isFile (t : FileTree) (path : Text) : Bool :=
  match t.target path with
  | .file _ _ => true
  | _ => false

/-- Whether a path leads to a directory. -/
def isDirectory (t : FileTree) (path : Text) : Bool :=
  match t.target path with
  | .directory _ => true
  | _ => false

/-- Whether two paths lead to one file. -/
def areSame (t : FileTree) (path path' : Text) : Bool :=
  match t.target path, t.target path' with
  | .file _ n, .file _ n' => n == n'
  | _, _ => false

/-- The path as seen from the root. -/
def absolute (t : FileTree) (path : Text) : Text := Path.absolute t.currentPath path

/-! ## §3. Reading and writing. -/

/-- The bytes of the file that a path leads to. -/
def readBytes (t : FileTree) (path : Text) : Except Fault (List UInt8) :=
  match t.target path with
  | .file _ n => .ok (t.content n)
  | .directory _ => .error .isDirectory
  | .blocked => .error .notDirectory
  | .endless => .error .endlessLinks
  | .free _ _ | .missing => .error .noSuchFile

/-- The text of the file that a path leads to, with line feeds for line ends. -/
def readText (t : FileTree) (path : Text) : Except Fault Text := do
  match Utf8.decode? (← t.readBytes path) with
  | some text => return Utf8.unifyLineEnds text
  | none => throw .notUtf8

/-- Writes the file that a path leads to. -/
def writeBytes (t : FileTree) (path : Text) (bytes : List UInt8) : Except Fault FileTree :=
  match t.target path with
  | .file _ n => .ok (t.fill n bytes)
  | .free place false => .ok (t.create place bytes)
  | .free _ true | .directory _ => .error .isDirectory
  | .missing => .error .noSuchFile
  | .blocked => .error .notDirectory
  | .endless => .error .endlessLinks

/-- The path of a copy.  In a directory, a file keeps its name. -/
def copyPath (t : FileTree) (source destination : Text) : Text :=
  if t.isDirectory destination then Path.join destination (Path.name source) else destination

/-- Copies a file to a path, or into the directory that the path leads to. -/
def copy (t : FileTree) (source destination : Text) : Except Fault FileTree := do
  let destination := t.copyPath source destination
  if t.areSame source destination then throw .sameFile
  t.writeBytes destination (← t.readBytes source)

/-- Whether a path leads to a file or a directory. -/
def leadsSomewhere (t : FileTree) (path : Text) : Bool := t.isFile path || t.isDirectory path

/-- The path of the copy that is kept of a file. -/
def backupPath (path : Text) : Text := path ++ ".bak"

/-- The tree after what stands at a path, if anything does, has been copied beside it, and whether
    it has been. -/
def keepCopy (t : FileTree) (path : Text) : Except Fault (FileTree × Option Text) :=
  if t.leadsSomewhere path then do
    return (← t.copy path (backupPath path), some (backupPath path))
  else .ok (t, none)

end FileTree

end DartData
