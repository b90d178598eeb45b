import DartData.Assembly
import DartData.Constructor
import DartData.Directives
import DartData.Edit
import DartData.Generation.Plan
import DartData.Member.Locate
import DartData.Template

/-!
# Work on a class

A plan is carried out on a draft, which is the class with the edits so far and the directives of
its file.  Members that are there already are replaced if they differ, the others are inserted.  A
task may fail after part of its work is done; the draft keeps that part.
-/

namespace DartData

/-! ## §1. Drafts. -/

/-- A class with its edits so far, and the directives of its file. -/
structure Draft where
  subject : SourceClass
  directives : Directives
  deriving DecidableEq, Repr

/-- The edit that gives the class a new text. -/
def SourceClass.edit (c : SourceClass) (text : Text) : ClassEdit :=
  { className := c.head.name, first := c.first, last := c.last, text }

/-- Work on a draft. -/
abbrev Work := EStateM Fault Draft

namespace Work

/-- The value of a computation that does not touch the draft. -/
def lift {α : Type} : Except Fault α → Work α
  | .ok a => pure a
  | .error f => throw f

/-- Changes the class. -/
def updateClass (f : SourceClass → SourceClass) : Work Unit :=
  modify fun d => { d with subject := f d.subject }

/-- Asks for a directive. -/
def require (uri : Text) (alternatives : List Text) : Work Unit :=
  modify fun d => { d with directives := d.directives.require uri alternatives }

/-! ## §2. Tasks. -/

/-- Writes the constructor anew, unless that changes white space only. -/
def rebuildConstructor (r : Request) : Work Unit := do
  let c := (← get).subject
  let makeConst := r.comparesByEquatable c && r.selects .useEquatable
  let text ← lift (c.newConstructor (r.options .constructorDefaults) makeConst)
  if c.hasConstructor && Text.sameUpToBlanks (c.constructorText.getD []) text then return
  updateClass fun c => { c with constructorText := some text.indent, constructorChanged := true }

/-- Replaces the member if the class has it and it differs in more than white space, and inserts it
    if the class does not have it. -/
def install (m : Member) : Work Unit := do
  m.imports.forM fun i => require i.uri i.alternatives
  match ← lift ((← get).subject.findMember m.name m.finder) with
  | some found =>
    let new := m.replacement
    if !Text.sameUpToBlanks (found.current.getD []) new then
      updateClass fun c =>
        { c with replaced := c.replaced ++ [{ found with replacement := some new }] }
  | none => updateClass fun c => { c with insertion := c.insertion ++ ['\n'] ++ m.text.indent }

/-- Has the class extend `Equatable`, or mix it in if it extends something else already.  A base
    class is expected to bring it along. -/
def adoptEquatable (r : Request) : Work Unit := do
  let c := (← get).subject
  if c.head.superclass.any (·.has "Base") then return
  require equatableLibrary []
  if c.head.usesEquatable then return
  updateClass fun c =>
    let head :=
      if c.head.superclass.isSome || r.options .equatableMixin then
        { c.head with mixins := c.head.mixins ++ ["EquatableMixin".toList] }
      else { c.head with superclass := some "Equatable" }
    { c with head, headChanged := true }

/-! ## §3. Classes. -/

/-- Carries out a task. -/
def perform (r : Request) : Task → Work Unit
  | .rebuildConstructor => rebuildConstructor r
  | .install k => do install (k.build r (← get).subject)
  | .adoptEquatable => adoptEquatable r

/-- Carries out the plan for the class. -/
def performAll (r : Request) : Work Unit := do
  (r.plan (← get).subject).forM (perform r)

/-- Carries out the plan and gives the edit of the class, if there is one. -/
def revise (r : Request) : Work (Option ClassEdit) := do
  performAll r
  let c := (← get).subject
  if c.isChanged then
    return some (c.edit (← lift c.assemble))
  else return none

/-- Writes the class from the template and gives the edit, unless only white space changes. -/
def reviseByTemplate (r : Request) (text : Text) : Work (Option ClassEdit) := do
  require jsonAnnotationLibrary []
  require (partDirective (r.fileName.getD "None")) []
  let c := (← get).subject
  let new := c.fromTemplate (!(← lift (c.isAnnotatedIn text)))
  if Text.sameUpToBlanks new c.content then return none
  else return some (c.edit new)

end Work

end DartData
