import DartData.Generation
import DartData.Package

/-!
# Running on a file

Reads a source file, finds its package, generates the members of its classes and writes the file
back if that is asked for.  A run is a function from the files and the output so far to those after
it; when it fails, what it has done is kept.

Not every text can be written.  A path may have characters that stand for bytes that are no text,
and those have no encoding.
-/

namespace DartData

/-- The files, and what has been printed on both channels. -/
structure World where
  files : FileTree
  out : Text := []
  err : Text := []
  deriving Repr

/-- What a run is given besides the files: the time, how documents are read, and which characters
    can be encoded. -/
structure Surroundings where
  now : Text
  reader : Reader
  /-- Whether a character can be written to a file. -/
  writable : Char → Bool := fun _ => true
  /-- Whether a character can be printed. -/
  printable : Char → Bool := fun _ => true

/-- A run. -/
abbrev Run := EStateM Fault World

namespace Run

/-- The value of a computation that does not touch the world. -/
def lift {α : Type} : Except Fault α → Run α
  | .ok a => pure a
  | .error f => throw f

/-- Prints text, all of it or nothing. -/
def print (s : Surroundings) (t : Text) : Run Unit :=
  if t.all s.printable then modify fun w => { w with out := w.out ++ t } else throw .notPrintable

/-- Prints a line. -/
def printLine (s : Surroundings) (pieces : List Text) : Run Unit :=
  print s (Text.of pieces ++ ['\n'])

/-- Prints a line on the progress of the run. -/
def announce (s : Surroundings) (pieces : List Text) : Run Unit :=
  printLine s ("[dartgen] " :: pieces)

/-- Prints text on the channel for complaints, which shows every character somehow. -/
def complain (t : Text) : Run Unit := modify fun w => { w with err := w.err ++ t }

/-- Writes text to a file.  The file is opened, and so emptied, before the text is encoded. -/
def overwrite (s : Surroundings) (path text : Text) : Run Unit := do
  let bytes := Utf8.encode? s.writable text
  let files ← lift ((← get).files.writeBytes path (bytes.getD []))
  modify fun w => { w with files }
  if bytes.isNone then throw .notEncodable

/-- Writes a file, after a copy has been kept if that is asked for; gives the path of the copy. -/
def writeFile (s : Surroundings) (path text : Text) (backup : Bool) : Run (Option Text) := do
  let kept ← if backup then do
      let (files, kept) ← lift ((← get).files.keepCopy path)
      modify fun w => { w with files }
      pure kept
    else pure none
  overwrite s path text
  return kept

end Run

/-- What a run is told besides the settings. -/
structure RunRequest where
  path : Text
  settings : Settings := {}
  part : Option Text := none
  coerceNumbers : Bool := false
  /-- Whether the file is written back. -/
  write : Bool := false
  /-- Whether progress is printed. -/
  verbose : Bool := true

/-- What a run comes to. -/
structure RunOutcome where
  package : PackageFacts
  generation : Generation
  /-- The text before and after. -/
  before : Text
  after : Text
  written : Bool
  backup : Option Text

/-- Whether the run changed the text. -/
def RunOutcome.isChanged (o : RunOutcome) : Bool := o.after != o.before

namespace RunRequest

/-- What the generator is told for a file of a package. -/
def toRequest (r : RunRequest) (package : PackageFacts) (category : Option Category) : Request where
  options := r.settings.options.truth
  category
  package := package.name.packageName?
  flutter := package.flutter.truth
  coerceNumbers := r.coerceNumbers
  fileName := some (Path.stem r.path)

/-- The category asked for, if any. -/
def category (r : RunRequest) : Except Fault (Option Category) :=
  match r.part with
  | none => .ok none
  | some n => some <$> Category.ofName n

/-- Says what has become of the classes. -/
def printProgress (s : Surroundings) (g : Generation) : Run Unit := do
  Run.announce s ["Classes found: ", Text.ofInt g.classes.length]
  (g.classes.filter SourceClass.isValid).forM fun c => do
    let edited := (g.edits.classes.map ClassEdit.className).contains c.head.name
    Run.printLine s ["  - ", c.shownName, " (lines ", Text.ofInt (c.first.getD 0), "-",
      Text.ofInt (c.last.getD 0), "): ", if edited then "updated" else "up to date"]

/-- Writes the new text back if it is asked for and differs, and says so. -/
def finish (r : RunRequest) (s : Surroundings) (before after : Text) :
    Run (Bool × Option Text) := do
  if r.write && after != before then
    let kept ← Run.writeFile s r.path after r.settings.backup.truth
    if r.verbose then
      Run.announce s ["Wrote ", r.path]
      match kept with
      | some copy => Run.announce s ["Backup: ", copy]
      | none => pure ()
    return (true, kept)
  else
    if r.verbose && after == before then Run.announce s ["Nothing to do."]
    return (false, none)

/-- Generates the members of the classes of a file. -/
def run (r : RunRequest) (s : Surroundings) : Run RunOutcome := do
  let files := (← get).files
  if !files.isFile r.path then throw (.noSourceFile r.path)
  let before ← Run.lift (files.readText r.path)
  let (package, complaint) ← Run.lift (files.resolvePackage s.reader r.path r.settings.package)
  Run.complain complaint
  if r.verbose then
    Run.announce s ["File: ", r.path]
    Run.announce s ["Package: ", package.name.toText,
      if package.flutter.truth then " (flutter)" else []]
  let category ← Run.lift r.category
  let generation ← Run.lift (generate before (r.toRequest package category))
  if r.verbose then printProgress s generation
  generation.issues.forM fun issue => Run.complain (Text.of ["  [!] ", issue, "\n"])
  let after ← Run.lift (generation.edits.apply before)
  let (written, backup) ← r.finish s before after
  return { package, generation, before, after, written, backup }

end RunRequest

end DartData
