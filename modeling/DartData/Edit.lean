import DartData.Fault

/-!
# Edits

An edit puts new lines in the place of a span of lines.  `Edits.apply` works a set of edits into a
text, from the bottom upwards, so that the line numbers of the edits stay those of the text.
-/

namespace DartData

/-- New text for a class. -/
structure ClassEdit where
  className : Option Text
  first : Option Int
  last : Option Int
  text : Text
  deriving DecidableEq, Repr

/-- New text for the directives; without a place it is put at the top of the file. -/
structure DirectiveEdit where
  first : Option Int
  last : Option Int
  text : Text
  deriving DecidableEq, Repr

/-- The edits of a file. -/
structure Edits where
  classes : List ClassEdit := []
  directives : Option DirectiveEdit := none
  deriving DecidableEq, Repr

/-- Lines to be put in the place of the lines `first` to `last`; with `last` before `first` they
    are put in front of the line `first`. -/
structure Edit where
  first : Int
  last : Int
  lines : List Text
  deriving DecidableEq, Repr

/-- The place and the lines of the edit of a class. -/
def ClassEdit.toEdit (e : ClassEdit) : Except Fault Edit :=
  match e.first, e.last with
  | some first, some last => .ok { first, last, lines := e.text.lines }
  | _, _ => .error .noLineNumber

/-- The place and the lines of the edit of the directives.  At the top of the file an empty line
    follows them. -/
def DirectiveEdit.toEdit (e : DirectiveEdit) : Edit :=
  match e.first, e.last with
  | some first, some last => { first, last, lines := e.text.lines }
  | _, _ => { first := 1, last := 0, lines := e.text.lines ++ [[]] }

/-! ## §1. Order. -/

namespace Edit

/-- Whether `e` is worked in before `f`, given that it comes first: it does not start above it. -/
def precedes (e f : Edit) : Bool := f.first < e.first || (f.first == e.first && f.last ≤ e.last)

/-- Puts an edit in its place among ordered ones. -/
def insertOrdered (e : Edit) : List Edit → List Edit
  | [] => [e]
  | f :: fs => if e.precedes f then e :: f :: fs else f :: insertOrdered e fs

/-- The edits from the bottom of the text upwards; equal places keep their order. -/
def bottomUp (es : List Edit) : List Edit := es.foldr insertOrdered []

/-! ## §2. Application. -/

/-- The number of lines before the end of the span.  A negative line counts from the end of the
    text. -/
def spanEnd (last : Int) (count : Nat) : Nat :=
  if last < 0 then (last + count).toNat else last.toNat

/-- The lines with the span of the edit replaced. -/
def splice (e : Edit) (lines : List Text) : List Text :=
  let start := (e.first - 1).toNat
  lines.take start ++ e.lines ++ lines.drop (max start (spanEnd e.last lines.length))

/-- Works ordered edits in; `previous` is the first line of the edit before. -/
def applyAll (lines : List Text) (previous : Option Int) : List Edit → Except Fault (List Text)
  | [] => .ok lines
  | e :: es =>
    if e.first < 1 || e.last > lines.length then
      .error (.editOutside e.first e.last lines.length)
    else if previous.any (· ≤ e.last) then .error (.editsOverlap e.first)
    else applyAll (e.splice lines) (some e.first) es

end Edit

namespace Edits

/-- Whether there is nothing to do. -/
def isEmpty (es : Edits) : Bool := es.classes.isEmpty && es.directives.isNone

/-- The edits with their places, those of the classes first. -/
def toList (es : Edits) : Except Fault (List Edit) := do
  let classes ← es.classes.mapM ClassEdit.toEdit
  return classes ++ (es.directives.map DirectiveEdit.toEdit).toList

/-- The text with the edits worked in. -/
def apply (es : Edits) (text : Text) : Except Fault Text := do
  let edits ← es.toList
  return Text.unlines (← Edit.applyAll text.lines none (Edit.bottomUp edits))

end Edits

end DartData
