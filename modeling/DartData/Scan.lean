import DartData.Brackets
import DartData.Field.Line
import DartData.SourceClass

/-!
# Scanning a file for classes

One pass over the lines finds the classes with their heads, the unnamed constructor and the
fields that stand directly in the body.  There is no syntax tree: the scanner goes by the depth of
brackets and by the shape of lines, which is enough for plain data classes.

`scan` is the whole pass.  `OpenClass.read` reads one line of a class that is not yet closed; its
steps are the head, the constructor, the content and the fields, in this order.
-/

namespace DartData

/-! ## §1. A class that is not yet closed. -/

/-- Where in a class the scanner is. -/
inductive Phase where
  | head
  | body
  /-- Inside of the parameter list of the constructor. -/
  | constructor
  deriving DecidableEq, Repr

/-- A class whose end has not been seen. -/
structure OpenClass where
  found : SourceClass
  /-- Whether the class is reported.  State objects of widgets are not. -/
  listed : Bool
  /-- The lines of the declaration so far, as one line. -/
  headText : Text
  brackets : Brackets := {}
  phase : Phase := .head
  deriving DecidableEq, Repr

namespace OpenClass

/-- The class that a class line begins, before the brackets of the line are counted. -/
def start (number : Int) (line : Text) : Except Fault OpenClass := do
  let head ← Declaration.read {} line
  return { found := { head, first := some number }, listed := !head.isState, headText := line.trim }

/-- Reads a declaration of several lines as a whole.  Only the name is kept from the first line. -/
def rereadHead (o : OpenClass) : Except Fault OpenClass := do
  let head ← Declaration.read { name := o.found.head.name } o.headText
  return { o with found := { o.found with head }, listed := o.listed && !head.isState }

/-- In the head: collects the line, and goes over to the body if a brace has been opened. -/
def readHead (o : OpenClass) (number : Int) (line : Text) (classLine : Bool) :
    Except Fault OpenClass :=
  if o.phase = .head then
    let o := if classLine then o else { o with headText := o.headText ++ " " ++ line.trim }
    if o.brackets.opened then
      let o := { o with phase := .body, found := { o.found with headLast := some number } }
      if classLine then .ok o else o.rereadHead
    else .ok o
  else .ok o

/-- A line without the blanks and the word `const` at its start. -/
def afterConst (line : Text) : Text :=
  let t := line.trimStart
  if t.startsWith "const " then Text.trimStart (t.drop 6) else t

/-- Whether a line begins the constructor of the class: none was seen yet, and the line, which
    starts directly in the body, begins with the name and a round bracket. -/
def beginsConstructor (o : OpenClass) (depthBefore : Int) (line : Text) : Bool :=
  depthBefore == 1 && o.found.constructorFirst.isNone
    && o.found.head.name.any fun n => (afterConst line).startsWith (n ++ ['('])

/-- Goes into the constructor if the line begins it. -/
def enterConstructor (o : OpenClass) (number : Int) (depthBefore : Int) (line : Text)
    (classLine : Bool) : OpenClass :=
  if !classLine && o.beginsConstructor depthBefore line then
    { o with phase := .constructor, found := { o.found with constructorFirst := some number } }
  else o

/-- In the constructor: collects the line, and goes back to the body if no round bracket is
    open. -/
def readConstructor (o : OpenClass) (number : Int) (line : Text) : OpenClass :=
  if o.phase = .constructor then
    let text := o.found.constructorText.getD [] ++ line
    if o.brackets.paren == 0 then
      { o with
        phase := .body
        found := { o.found with constructorText := some text, constructorLast := some number } }
    else { o with found := { o.found with constructorText := some (text ++ ['\n']) } }
  else o

/-- Whether a line stands directly in the body and declares a field. -/
def declaresField (o : OpenClass) (line : Text) (classLine : Bool) : Bool :=
  o.phase == .body && o.brackets.paren == 0 && o.brackets.curly == 1 && !classLine
    && isFieldLine o.found.head.name o.found.constructorFirst.isSome line

/-- Adds the field that a line declares, if it declares one. -/
def readField (o : OpenClass) (number : Int) (previous : Option Text) (line : Text)
    (classLine : Bool) : OpenClass :=
  if o.declaresField line classLine then
    { o with
      found := { o.found with
        fields := o.found.fields ++ (Field.ofLine? line number previous).toList } }
  else o

/-- Collects a line that closes the class. -/
def close (o : OpenClass) (number : Int) (line : Text) : SourceClass :=
  { o.found with content := o.found.content ++ line, last := some number }

/-- Collects a line after which the class goes on. -/
def keepLine (o : OpenClass) (line : Text) : OpenClass :=
  { o with found := { o.found with content := o.found.content ++ line ++ ['\n'] } }

/-- The class, if it is reported. -/
def report (o : OpenClass) (c : SourceClass) : List SourceClass := if o.listed then [c] else []

/-- Reads a line of the class: what is reported after it and the class as it goes on. -/
def read (o : OpenClass) (number : Int) (previous : Option Text) (line : Text)
    (classLine : Bool) : Except Fault (List SourceClass × Option OpenClass) := do
  let depthBefore := o.brackets.curly
  let o := { o with brackets := o.brackets.feed line }
  let o ← o.readHead number line classLine
  let o := o.enterConstructor number depthBefore line classLine
  let o := o.readConstructor number line
  if o.brackets.closed then return (o.report (o.close number line), none)
  else return ([], some ((o.keepLine line).readField number previous line classLine))

end OpenClass

/-! ## §2. A file. -/

/-- The class that was open, as it is reported when another one begins or the file ends. -/
def abandoned (current : Option OpenClass) : List SourceClass :=
  match current with
  | some o => o.report o.found
  | none => []

/-- The classes in the lines from `number` on; `previous` is the line above them and `current` the
    class that is open there. -/
def scanLines (number : Nat) (previous : Option Text) (current : Option OpenClass) :
    List Text → Except Fault (List SourceClass)
  | [] => .ok (abandoned current)
  | line :: rest =>
    if isClassLine line then do
      let o ← OpenClass.start number line
      let (done, next) ← o.read number previous line true
      return abandoned current ++ done ++ (← scanLines (number + 1) (some line) next rest)
    else match current with
      | none => scanLines (number + 1) (some line) none rest
      | some o => do
        let (done, next) ← o.read number previous line false
        return done ++ (← scanLines (number + 1) (some line) next rest)

theorem scanLines_class_line {line : Text} (hc : isClassLine line = true) (number : Nat)
    (previous : Option Text) (current : Option OpenClass) (rest : List Text) :
    scanLines number previous current (line :: rest)
      = OpenClass.start number line >>= fun o => o.read number previous line true >>= fun x =>
        scanLines (number + 1) (some line) x.2 rest >>= fun later =>
          .ok (abandoned current ++ x.1 ++ later) := by
  show (if isClassLine line = true then _ else _) = _
  rw [if_pos hc]
  rfl

theorem scanLines_inside {line : Text} (hc : isClassLine line = false) (number : Nat)
    (previous : Option Text) (o : OpenClass) (rest : List Text) :
    scanLines number previous (some o) (line :: rest)
      = o.read number previous line false >>= fun x =>
        scanLines (number + 1) (some line) x.2 rest >>= fun later => .ok (x.1 ++ later) := by
  show (if isClassLine line = true then _ else _) = _
  rw [if_neg (by simp [hc])]
  rfl

theorem scanLines_skip {line : Text} (hc : isClassLine line = false) (number : Nat)
    (previous : Option Text) (rest : List Text) :
    scanLines number previous none (line :: rest)
      = scanLines (number + 1) (some line) none rest := by
  rw [scanLines, hc]
  rfl

/-- The classes of a text, in order. -/
def scan (text : Text) : Except Fault (List SourceClass) := scanLines 1 none none text.lines

end DartData
