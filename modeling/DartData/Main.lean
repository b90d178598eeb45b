import DartData.Clock
import DartData.CommandLine
import DartData.Yaml
import Std.Time.DateTime.Timestamp

/-!
# The program

The outermost layer: it looks at the files that a command may need, runs the command on them as
values, prints what there is to print and writes back the files that changed.
-/

namespace DartData.Program

/-- How documents are read. -/
def reader : Reader where
  read text := match Yaml.read? text with
    | some v => .document v
    | none => .malformed "the document is not well formed"

/-- The parts of a path as seen from the root. -/
def placeOf (path : Text) : List Text := (path.split '/').filter fun part => !part.isEmpty

/-- Puts something at a path that is seen from the root. -/
def putAt (t : FileTree) (path : Text) (put : FileTree → List Text → FileTree) : FileTree :=
  put (t.putDirectories (placeOf path).dropLast) (placeOf path)

/-- The files with what stands at a path without links. -/
def lookAt (t : FileTree) (path : Text) : IO FileTree := do
  if t.isFile path then return t
  try
    let bytes := (← IO.FS.readBinFile (String.ofList path)).toList
    return putAt t path fun t place => t.create place bytes
  catch _ => return putAt t path fun t place => t.put place .directory

/-- The files with what stands at a path.  A link leads to the path without links. -/
def look (t : FileTree) (path : Text) : IO FileTree := do
  try
    let real := (toString (← IO.FS.realPath (String.ofList path))).toList
    if real == path then lookAt t path
    else lookAt (putAt t path fun t place => t.put place (.link real)) real
  catch _ => return t

/-- The files at some paths. -/
def gather (current : Text) (paths : List Text) : IO FileTree :=
  paths.foldlM look (FileTree.putDirectories { current := placeOf current } (placeOf current))

/-- Writes the files that differ. -/
def writeBack (before after : FileTree) : IO Unit :=
  after.nodes.forM fun (place, node) => do
    match node with
    | .file n =>
      if before.node? place != some node || before.content n != after.content n then
        IO.FS.writeBinFile (String.ofList (FileTree.placeText place)) ⟨(after.content n).toArray⟩
    | .directory | .link _ => pure ()

/-- Prints what a run has printed. -/
def display (w : World) : IO Unit := do
  IO.print (String.ofList w.out)
  IO.eprint (String.ofList w.err)

/-- Shows the fault that has ended a run. -/
def fail (f : Fault) (w : World) : IO UInt32 := do
  display w
  IO.eprintln s!"Error: {repr f}"
  return 1

/-- Runs the program. -/
def run (arguments : List Text) : IO UInt32 := do
  let started ← IO.monoMsNow
  let current := (toString (← IO.currentDir)).toList
  let files ← gather current <| match Command.parse arguments with
    | .ok c => c.footprint current
    | .error _ => []
  let now := (← Std.Time.Timestamp.now).toNanosecondsSinceUnixEpoch.val.toNat / 1000
  let s : Surroundings := { now := Clock.iso now, reader }
  match (Command.start arguments s).run { files } with
  | .ok ended w =>
    writeBack files w.files
    let elapsed := Clock.seconds ((← IO.monoMsNow) - started)
    match (Command.conclude s elapsed ended).run w with
    | .ok code w =>
      display w
      return code.toUInt32
    | .error f w => fail f w
  | .error f w =>
    writeBack files w.files
    fail f w

end DartData.Program
