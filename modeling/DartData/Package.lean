import DartData.FileTree
import DartData.Settings

/-!
# Packages

The package that a file belongs to, found by its `pubspec.yaml` in a directory above, and the
settings of that package.  How a document is read is left open: everything here is told by a reader.
-/

namespace DartData

/-- What is known about a package.  A name and a mark are whatever the files say. -/
structure PackageFacts where
  name : Value
  flutter : Value
  /-- The directory of the package, if it was found. -/
  root : Option Text
  deriving Repr

/-- What the reading of a document comes to. -/
inductive Reading where
  | document (v : Value)
  /-- The document is not well formed; what is said of it. -/
  | malformed (detail : Text)
  /-- The reader gave up in another way. -/
  | failed
  deriving Repr

/-- How documents are read, and the settings taken from them. -/
structure Reader where
  read : Text → Reading
  settings : Value → Except Fault Settings := Settings.ofDocument

namespace FileTree

/-! ## §1. Finding the package. -/

/-- The `pubspec.yaml` in the nearest directory above a path, the path itself included if it is not
    a file. -/
def findPubspec (t : FileTree) (path : Text) : Option Text :=
  let start := t.absolute path
  let start := if t.isFile start then Path.parent start else start
  ((Path.ancestors start).map fun d => Path.join d "pubspec.yaml").find? t.isFile

/-- The name that a directory gives to a package. -/
def nameOfDirectory (t : FileTree) (directory : Text) : Text :=
  (Path.name (t.absolute directory)).map fun c => if c = '-' then '_' else c

/-- Whether the dependencies of a package name Flutter: as a key, as an item, or anywhere in a
    text. -/
def namesFlutter (dependencies : Value) : Except Fault Bool :=
  let flutter : Text := "flutter"
  match dependencies with
  | .map es => .ok (Value.entry? es flutter).isSome
  | .list vs => .ok (vs.any (·.isText flutter))
  | .text t => .ok (t.has flutter)
  | v => if v.truth then .error .notSearchable else .ok false

/-- The package of a path, and what there is to say about a file that could not be read.  Without a
    `pubspec.yaml` the directory of the path gives the name. -/
def findPackage (t : FileTree) (reader : Reader) (path : Text) :
    Except Fault (PackageFacts × Text) := do
  match t.findPubspec path with
  | none =>
    let directory := if t.isFile path then Path.parent (t.absolute path) else path
    let name := t.nameOfDirectory directory
    return ({ name := .text name, flutter := .bool false, root := none }, [])
  | some pubspec =>
    let (document, complaint) : Value × Text ← match reader.read (← t.readText pubspec) with
      | .document v => pure (v, [])
      | .malformed detail =>
        pure (.null, Text.of ["[discovery] could not read ", pubspec, ": ", detail, "\n"])
      | .failed => throw .unreadable
    let entries := match document with
      | .map es => es
      | _ => []
    let root := Path.parent pubspec
    let given := (Value.entry? entries "name").getD .null
    let name := if given.truth then given else .text (t.nameOfDirectory root)
    let flutter ← namesFlutter ((Value.entry? entries "dependencies").getD .null)
    return ({ name, flutter := .bool flutter, root := some root }, complaint)

/-- A given value, or another one where it is null. -/
def givenOr (given other : Value) : Value :=
  match given with
  | .null => other
  | v => v

/-- The package of a path, what the settings say taking precedence. -/
def resolvePackage (t : FileTree) (reader : Reader) (path : Text) (given : PackageSettings) :
    Except Fault (PackageFacts × Text) := do
  let (found, complaint) ← t.findPackage reader path
  let package := { found with
    name := givenOr given.name found.name
    flutter := givenOr given.flutter found.flutter }
  return (package, complaint)

/-! ## §2. Finding the settings. -/

/-- The places where the settings of a package may stand. -/
def settingsPlaces (root : Text) : List Text :=
  [Path.join root "dartgen.yaml", Path.join (Path.join root "analysis") "dartgen.yaml"]

/-- The settings at a path that was named, or else at the first place in the directory where there
    are any.  Without a file they are the defaults. -/
def loadSettings (t : FileTree) (reader : Reader) (named : Option Text) (root : Text) :
    Except Fault Settings := do
  let path ← match named with
    | some p => if t.isFile p then pure (some p) else throw (.noSettingsFile p)
    | none => pure ((settingsPlaces root).find? t.isFile)
  match path with
  | none => return {}
  | some p => match reader.read (← t.readText p) with
    | .document v => reader.settings v
    | .malformed detail => throw (.malformedSettings p detail)
    | .failed => throw .unreadable

end FileTree

end DartData
