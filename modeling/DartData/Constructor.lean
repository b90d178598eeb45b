import DartData.SourceClass

/-!
# The constructor

The unnamed constructor is rebuilt from the fields of its class and from what is there already:
parameters that set no field come first, as they are written; those that set a field keep their
modifiers and defaults; and what follows the parameter list is carried over.  A constructor that
is not there yet takes named parameters.
-/

namespace DartData

/-- A parameter of the constructor as found. -/
structure Parameter where
  name : Text
  /-- The parameter as written, with a comma and a line feed. -/
  text : Text
  /-- Whether it sets a field directly. -/
  setsField : Bool := false
  deriving DecidableEq, Repr

/-- What stands around a parameter list. -/
structure Delimiters where
  opening : Text
  closing : Text
  deriving DecidableEq, Repr

/-- The delimiters of named parameters. -/
def Delimiters.named : Delimiters := ⟨"(\x7b", "\x7d)"⟩

/-! ## §1. The parameters as found. -/

/-- The text inside of the outermost round brackets, up to the bracket that closes them. -/
def insideParens (t : Text) : Text := go 0 false t
where
  go (depth : Int) (found : Bool) : Text → Text
    | [] => []
    | c :: r =>
      if c = '(' then (if found then ['('] else []) ++ go (depth + 1) true r
      else if c = ')' then
        if found && depth == 1 then []
        else (if depth > 1 then [')'] else []) ++ go (depth - 1) found r
      else (if depth ≥ 1 then [c] else []) ++ go depth found r

/-- The parameter list of a constructor, without the brackets of named or optional parameters. -/
def parameterList (constructorText : Text) : Text :=
  ((insideParens constructorText).removeStarts ["\x7b", "["]).removeEnds ["\x7d", "]"]

/-- The name that a parameter gives, its default value cut off. -/
def Parameter.nameIn (written : Text) : Text × Bool :=
  let p := Text.trim (Text.before (Text.trim (written.eraseFirst "required")) "=")
  if p.startsWith "this." then (p.drop 5, true)
  else if p.startsWith "super." then (p.drop 6, false)
  else (((p.split ' ')[1]?).getD [], false)

/-- The parameter that a piece of a parameter list declares; none if it gives no name. -/
def Parameter.ofText? (written : Text) : Option Parameter :=
  let (given, setsField) := nameIn written
  let name := (Text.trim given).removeEnd ","
  if name.isEmpty then none
  else
    let t := written.trim
    let t := if t.endsWith "," || t.startsWith "//" then t else t ++ [',']
    some { name, text := t ++ ['\n'], setsField }

namespace SourceClass

/-- The parameters of the constructor that was found, in order.  On one line they are divided by
    commas, on several lines there is one a line. -/
def parameters (c : SourceClass) : Except Fault (List Parameter) :=
  match c.constructorFirst, c.constructorLast, c.constructorText with
  | some a, some b, some t =>
    let list := parameterList t
    let pieces := if a = b then list.splitTopLevel else list.lines
    .ok (pieces.filterMap Parameter.ofText?)
  | some _, some _, none => .error (.noConstructorText c.shownName)
  | _, _, _ => .ok []

/-- The constructor without the word `const` in front. -/
def withoutConst (constructorText : Text) : Text :=
  let t := constructorText.trimStart
  if t.startsWith "const" then Text.trimStart (t.drop 5) else t

/-- The delimiters of the parameter list.  The opening one is read off the start of the
    constructor, the closing one from anywhere in it. -/
def delimiters (c : SourceClass) : Except Fault Delimiters :=
  match c.constructorText, c.head.name with
  | none, _ => .ok .named
  | some _, none => .error .unnamedClass
  | some t, some name =>
    let t := withoutConst t
    .ok {
      opening :=
        if t.startsWith (name ++ ['(', '[']) then "(["
        else if t.startsWith (name ++ ['(', '{']) then "(\x7b"
        else "("
      closing := if t.has "])" then "])" else if t.has "\x7d)" then "\x7d)" else ")" }

/-! ## §2. The new constructor. -/

/-- What follows the parameter list: the initializer list or the opening brace that is there, the
    call of the superclass that passes the key of a widget on, or just a semicolon. -/
def constructorTail (c : SourceClass) (ps : List Parameter) : Text :=
  let carried : Option Text := c.constructorText.bind fun t =>
    let t := t.trimEnd
    match t.cut? " : " with
    | some (_, initializers) => some (" " ++ Text.trim (": " ++ initializers))
    | none => if t.endsWith "\x7b" then some " \x7b" else none
  match carried with
  | some tail => tail
  | none =>
    if c.head.isWidget && !ps.any (·.text.startsWith "super.") then " : super(key: key);" else ";"

/-- The parameter that sets a field which has none yet. -/
def newParameter (f : Field) (named defaultValues : Bool) : Text :=
  let parameter := "this." ++ f.name
  if f.isNullable then parameter
  else if defaultValues && (f.isPrimitive || f.isCollection) && f.rawType != "dynamic" then
    Text.of [parameter, " = ", f.defaultValue]
  else if named then "required " ++ parameter
  else parameter

/-- The line for a field: nothing if a parameter of that name does something else with it. -/
def parameterLine (ps : List Parameter) (named defaultValues : Bool) (f : Field) : Text :=
  match ps.reverse.find? (·.name == f.name) with
  | some p => if p.setsField then "  " ++ p.text else []
  | none => Text.of ["  ", newParameter f named defaultValues, ",\n"]

/-- Whether the key of a widget is among the parameters. -/
def hasKey (ps : List Parameter) : Bool :=
  ps.any fun p => p.text.startsWith "Key? key" || p.text.startsWith "super.key"

/-- The word in front of the constructor. -/
def constWord (c : SourceClass) (makeConst : Bool) : Text :=
  match c.constructorText with
  | some t => if t.trimStart.startsWith "const" then "const " else []
  | none => if c.head.isWidget || makeConst then "const " else []

/-- The constructor of the class as it is to be, not indented. -/
def newConstructor (c : SourceClass) (defaultValues makeConst : Bool) : Except Fault Text := do
  let around ← c.delimiters
  let name ← match c.head.name with
    | some name => pure name
    | none => throw .unnamedClass
  let ps ← c.parameters
  let named := around == Delimiters.named
  return Text.of [
    c.constWord makeConst, name, around.opening, "\n",
    if c.head.isWidget && !hasKey ps then "  Key? key,\n" else [],
    Text.of ((ps.filter fun p => !p.setsField).map fun p => "  " ++ p.text),
    Text.of (c.fields.map (parameterLine ps named defaultValues)),
    around.closing, c.constructorTail ps]

end SourceClass

end DartData
