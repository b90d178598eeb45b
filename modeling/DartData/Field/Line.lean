import DartData.Field
import DartData.Text.Blank

/-!
# Field lines

Which lines of a class body declare a field, and what field they declare.  There is no grammar
behind it: a line is taken for a field unless something about it speaks against it, and its words
are sorted into modifiers, type and name.
-/

namespace DartData

/-! ## §1. Telling field lines. -/

/-- Symbols that mark a line as a method, getter or annotation. -/
def memberSymbols : List Text := ["\x7b", "\x7d", "=>", "@"]

/-- Words that mark a line as something else than a field. -/
def memberKeywords : List Text :=
  ["static", "set", "get", "return", "factory"]

/-- Whether a line of the body of the class `className` declares a field.  It must not begin with
    the class name, be a comment, or hold a symbol or word of another member; it must not give a
    value to a final field, nor end like a method without a body; and once the constructor has been
    seen it must be final. -/
def isFieldLine (className : Option Text) (constructorSeen : Bool) (line : Text) : Bool :=
  !line.trimStart.startsWith (className.getD [])
    && !line.trimStart.startsWith "//"
    && !line.hasOneOf memberSymbols
    && !line.trim.hasWordOf memberKeywords
    && !line.hasAllOf ["final ", "="]
    && (!constructorSeen || line.has "final ")
    && !line.squeeze.endsWith ");"

/-! ## §2. Reading field lines. -/

/-- What the words so far have said. -/
structure FieldReader where
  rawType : Option Text := none
  name : Option Text := none
  isFinal : Bool := false
  isConst : Bool := false
  isLate : Bool := false
  deriving DecidableEq, Repr

namespace FieldReader

/-- Whether a word is the name of the field: it ends with a semicolon or comes before an equals
    sign, and has no round bracket. -/
def isName (word : Text) (next : Option Text) : Bool :=
  (word.endsWith ";" || next == some "=".toList) && !word.has "(" && !word.has ")"

/-- Reads one word, knowing whether it is the first and which one comes next. -/
def readWord (r : FieldReader) (isFirst : Bool) (word : Text) (next : Option Text) : FieldReader :=
  if word.isEmpty || word == ['{'] || word == ['}'] then r
  else if word == "final" then { r with isFinal := true }
  else if word == "late" then { r with isLate := true }
  else if word == "const" then { r with isConst := r.isConst || isFirst }
  else if isName word next then
    { r with name := some (r.name.getD (word.removeEnd ";")) }
  else match r.rawType, r.name with
    | none, _ => { r with rawType := some word }
    | some t, none => { r with rawType := some (t ++ " " ++ word) }
    | some _, some _ => r

/-- Reads words one after another. -/
def readWords (r : FieldReader) (isFirst : Bool) : List Text → FieldReader
  | [] => r
  | w :: ws => (r.readWord isFirst w ws.head?).readWords false ws

end FieldReader

/-- Whether a text begins with `enum`, in letters of either case. -/
def startsWithEnum (t : Text) : Bool := (t.take 4).map Char.toLower == "enum"

/-- Whether a line has a comment that begins with the word `enum`.  Only the first line of the text
    counts up to the comment. -/
def marksEnum : Text → Bool
  | [] => false
  | c :: r =>
    (Text.startsWith (c :: r) "//" && startsWithEnum ((r.drop 1).dropWhile isBlank))
      || (c != '\n' && marksEnum r)

/-- The field that a line declares; `previous` is the line above it. -/
def Field.ofLine? (line : Text) (number : Int) (previous : Option Text) : Option Field :=
  let r := FieldReader.readWords {} true (line.trim.split ' ')
  match r.rawType, r.name with
  | some rawType, some name =>
    some { rawType, sourceName := name, line := number, isFinal := r.isFinal, isConst := r.isConst,
           isLate := r.isLate, isEnum := previous.any marksEnum }
  | _, _ => none

end DartData
