import DartData.Generation.Work
import DartData.Scan

/-!
# Generation

The classes of a file are worked on one after another, and the directives are handed on from each to
the next.  The edits of all classes and of the directives are the outcome; classes for which nothing
can be generated come with the reason.

`generate` is the whole way from the text of a file to its edits.
-/

namespace DartData

/-- A file in work: its text, its classes with their edits so far, and its directives. -/
structure SourceFile where
  text : Text
  classes : List SourceClass
  directives : Directives
  deriving DecidableEq, Repr

/-- What generation comes to. -/
structure Generation where
  classes : List SourceClass
  edits : Edits
  /-- Why there are no members for the classes that are not valid. -/
  issues : List Text
  deriving DecidableEq, Repr

/-- The edits and issues of some classes. -/
structure Findings where
  edits : List ClassEdit := []
  issues : List Text := []
  deriving DecidableEq, Repr

/-- The edit of the directives, if they changed. -/
def Directives.edit? (d : Directives) (package : Option Text) : Option DirectiveEdit :=
  if d.isChanged package then
    let place (n : Option Nat) : Option Int := if d.hasPlace then n.map Int.ofNat else none
    some { first := place d.first, last := place d.last, text := d.format package }
  else none

namespace SourceFile

/-- The file as it is read. -/
def read (text : Text) : Except Fault SourceFile := do
  return { text, classes := ← scan text, directives := Directives.read text }

/-- Works on the classes one after another, handing the directives on.  A fault ends the work; the
    classes and directives are as they were left. -/
def reviseAll (work : Work (Option ClassEdit)) :
    List SourceClass → Directives → (List SourceClass × Directives) × Except Fault Findings
  | [], d => (([], d), .ok {})
  | c :: cs, d =>
    if c.isValid then
      match work.run ⟨c, d⟩ with
      | .error f left => ((left.subject :: cs, left.directives), .error f)
      | .ok edit left =>
        let ((cs, d), found) := reviseAll work cs left.directives
        ((left.subject :: cs, d), found.map fun found =>
          { found with edits := edit.toList ++ found.edits })
    else
      let ((cs, d), found) := reviseAll work cs d
      ((c :: cs, d), found.map fun found => { found with issues := c.issue :: found.issues })

/-- Generates the members of all classes: the file as it is left, and the outcome. -/
def generate (file : SourceFile) (r : Request) : SourceFile × Except Fault Generation :=
  let template := r.category == some .jsonSerializable
  if template && (r.fileName.getD []).isEmpty then (file, .error .noFileName)
  else
    let work := if template then Work.reviseByTemplate r file.text else Work.revise r
    let ((classes, directives), found) := reviseAll work file.classes file.directives
    let file := { file with classes, directives }
    (file, found.map fun found =>
      { classes, issues := found.issues,
        edits := { classes := found.edits, directives := directives.edit? r.package } })

end SourceFile

/-- Generates the members of all classes of a text. -/
def generate (text : Text) (r : Request) : Except Fault Generation := do
  ((← SourceFile.read text).generate r).2

end DartData
