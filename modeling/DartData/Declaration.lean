import DartData.Fault
import DartData.Text.TopLevel

/-!
# Class declarations

The head of a class: its name, type parameters and supertypes.  `Declaration.read` reads it from
a line word by word, `Declaration.print` writes it as a line.
-/

namespace DartData

/-- The head of a class. -/
structure Declaration where
  name : Option Text := none
  /-- The type parameters with their brackets and bounds, empty if there are none. -/
  generics : Text := []
  superclass : Option Text := none
  mixins : List Text := []
  interfaces : List Text := []
  deriving DecidableEq, Repr

/-! ## §1. Words. -/

/-- Whether a line begins a class.  The blank after the keyword keeps identifiers such as
    `classifier` out. -/
def isClassLine (line : Text) : Bool :=
  line.trimStart.startsWith "class " || line.trimStart.startsWith "abstract class "

/-- The words with one more: trimmed, left out if empty, and joined to the last word if it is a
    list of type parameters. -/
def addWord (words : List Text) (word : Text) : List Text :=
  let w := word.trim
  if w.isEmpty then words
  else match w.startsWith "<", words.getLast? with
    | true, some last => words.dropLast ++ [last ++ w]
    | _, _ => words ++ [w]

/-- The words of a declaration up to its opening brace.  Blanks between `<` and `>` do not end a
    word. -/
def declarationWords (line : Text) : List Text := go [] [] 0 line
where
  go (words : List Text) (word : Text) (depth : Int) : Text → List Text
    | [] => addWord words word
    | c :: r =>
      let depth := if c = '<' then depth + 1 else if c = '>' then depth - 1 else depth
      if depth == 0 && c == '{' then addWord words word
      else if depth == 0 && c == ' ' then go (addWord words word) [] depth r
      else go words (word ++ [c]) depth r

/-! ## §2. Reading. -/

/-- The lists of supertypes. -/
inductive SupertypeList where
  | mixins
  | interfaces
  deriving DecidableEq, Repr

/-- What the words to come are for. -/
structure DeclarationReader where
  nameNext : Bool := false
  superclassNext : Bool := false
  listNext : Option SupertypeList := none
  deriving DecidableEq, Repr

/-- A class name taken apart from its type parameters, if it has any: all from the first `<` to the
    last `>` belongs to the parameters. -/
def splitClassName (word : Text) : Except Fault (Text × Option Text) :=
  match word.cut? "<" with
  | none => .ok (word, none)
  | some (name, _) =>
    if word.has ">" then
      .ok (name, some ((word.reverse.dropWhile (· ≠ '>')).reverse.drop name.length))
    else .error .unclosedGenerics

namespace Declaration

/-- Reads one word.  The superclass is the word after `extends` whatever it is, except for the
    words `class` and `extends`; the other keywords come before the name. -/
def readWord (d : Declaration) (r : DeclarationReader) (word : Text) :
    Except Fault (Declaration × DeclarationReader) :=
  if word == "class" then .ok (d, { r with nameNext := true })
  else if word == "extends" then .ok (d, { r with superclassNext := true })
  else if r.superclassNext then
    .ok ({ d with superclass := some (word.removeEnd ",") }, { r with superclassNext := false })
  else if word == "with" then .ok (d, { r with listNext := some .mixins })
  else if word == "implements" then .ok (d, { r with listNext := some .interfaces })
  else if r.nameNext then do
    let (name, generics) ← splitClassName word
    return ({ d with name := some name, generics := generics.getD d.generics },
      { r with nameNext := false })
  else match r.listNext with
    | some .mixins => .ok ({ d with mixins := d.mixins ++ word.splitTopLevel }, r)
    | some .interfaces => .ok ({ d with interfaces := d.interfaces ++ word.splitTopLevel }, r)
    | none => .ok (d, r)

/-- Reads words one after another. -/
def readWords (d : Declaration) (r : DeclarationReader) : List Text → Except Fault Declaration
  | [] => .ok d
  | w :: ws => do
    let (d, r) ← d.readWord r w
    readWords d r ws

/-- Adds to a declaration what a line says. -/
def read (d : Declaration) (line : Text) : Except Fault Declaration :=
  d.readWords {} (declarationWords line)

/-! ## §3. Printing. -/

/-- The name as it is written into texts. -/
def shownName (d : Declaration) : Text := d.name.getD "None"

/-- The declaration as a line, without the opening brace. -/
def print (d : Declaration) (isAbstract : Bool) : Text :=
  (if isAbstract then "abstract class ".toList else "class ".toList) ++ d.shownName ++ d.generics
    ++ (match d.superclass with
      | some s => " extends " ++ s
      | none => [])
    ++ (if d.mixins.isEmpty then [] else " with ".toList ++ Text.join ", " d.mixins)
    ++ (if d.interfaces.isEmpty then [] else " implements ".toList ++ Text.join ", " d.interfaces)

/-- The type parameters without their bounds: `<T extends num>` gives `<T>`. -/
def typeArguments (d : Declaration) : Text :=
  if d.generics.isEmpty then []
  else
    let parameters := Text.splitTopLevel ((d.generics.trim.drop 1).dropLast)
    "<" ++ Text.join ", " (parameters.map fun p => (p.before " extends ").trim) ++ ">"

/-- The class as a type: its name with the type parameters as arguments. -/
def type (d : Declaration) : Text := d.name.getD [] ++ d.typeArguments

/-- Whether the class is a widget. -/
def isWidget (d : Declaration) : Bool :=
  d.superclass == some "StatelessWidget".toList || d.superclass == some "StatefulWidget".toList

/-- Whether the class is the state object of a stateful widget. -/
def isState (d : Declaration) : Bool := d.superclass.any (·.startsWith "State<")

/-- Whether the class is compared through the `equatable` package. -/
def usesEquatable (d : Declaration) : Bool :=
  d.superclass == some "Equatable".toList || d.mixins.contains "EquatableMixin"

end Declaration

end DartData
