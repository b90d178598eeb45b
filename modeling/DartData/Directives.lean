import DartData.Text.Blank

/-!
# Directives

The imports, exports and parts at the head of a file.  They are read once, may be added to, and are
written back in a fixed order: libraries of Dart, packages, the package itself, relative imports,
exports and parts, each group sorted and divided from the next by an empty line.
-/

namespace DartData

/-- The directives of a file. -/
structure Directives where
  /-- The text of the file. -/
  source : Text := []
  /-- The directives, those that were added at the end. -/
  values : List Text := []
  /-- The first and the last line of the block, if there is one. -/
  first : Option Nat := none
  last : Option Nat := none
  /-- The directives as found, one a line. -/
  found : Text := []
  deriving DecidableEq, Repr

/-- The words that directives begin with. -/
def directiveKeywords : List Text := ["import", "export", "part"]

/-- Whether a trimmed line is a directive. -/
def isDirective (line : Text) : Bool := line.startsWithOneOf directiveKeywords

/-- The form in which directives are compared: trimmed, and with single quotes. -/
def directiveForm (d : Text) : Text :=
  Text.trim (d.map fun c => if c = '\x22' then '\x27' else c)

/-- An import of a library. -/
def importOf (uri : Text) : Text := "import '" ++ uri ++ "';"

namespace Directives

/-! ## §1. Reading. -/

/-- Adds the directive on the line `number`. -/
def add (d : Directives) (number : Nat) (line : Text) : Directives :=
  { d with
    values := d.values ++ [line]
    found := d.found ++ line ++ ['\n']
    first := some (d.first.getD number) }

/-- Ends the block before the line `number`; an empty line at its end does not belong to it. -/
def endBefore (d : Directives) (number : Nat) (previous : Option Text) : Directives :=
  if d.first.isSome then
    { d with last := some (if previous.any Text.allBlank then number - 2 else number - 1) }
  else d

/-- Whether a trimmed line may stand in the block without being a directive: blank lines, the
    library name, and comments above the first directive. -/
def mayStand (d : Directives) (line : Text) : Bool :=
  line.allBlank || line.startsWith "library" || (line.startsWith "//" && d.values.isEmpty)

/-- Reads the lines from `number` on; `previous` is the line above them. -/
def readLines (d : Directives) (number : Nat) (previous : Option Text) : List Text → Directives
  | [] => d
  | raw :: rest =>
    let line := raw.trim
    if isDirective line then
      let d := d.add number line
      if rest.isEmpty then { d with last := some number }
      else d.readLines (number + 1) (some raw) rest
    else if rest.isEmpty || !d.mayStand line then d.endBefore number previous
    else d.readLines (number + 1) (some raw) rest

/-- The directives at the head of a text. -/
def read (text : Text) : Directives := readLines { source := text } 1 none text.lines

/-- Whether the block has a place in the file. -/
def hasPlace (d : Directives) : Bool := d.first.isSome && d.last.isSome

/-! ## §2. Adding. -/

/-- Whether a directive is among the values, up to quotes and blanks around it. -/
def includes (d : Directives) (directive : Text) : Bool :=
  d.values.any fun v => directiveForm v == directiveForm directive

/-- Whether one of the libraries is imported, be it anywhere in the file. -/
def importsOneOf (d : Directives) (uris : List Text) : Bool :=
  uris.any fun uri => d.source.has (importOf uri) || d.includes (importOf uri)

/-- What is asked for: a directive as it is, or the import of a library. -/
def directiveFor (uri : Text) : Text := if isDirective uri then uri else importOf uri

/-- Adds a directive unless it, or the import of one of the alternatives, is there. -/
def require (d : Directives) (uri : Text) (alternatives : List Text) : Directives :=
  if d.includes (directiveFor uri) || d.importsOneOf alternatives then d
  else { d with values := d.values ++ [directiveFor uri] }

/-! ## §3. Writing. -/

end Directives

/-- The groups of directives, in the order they are written. -/
inductive DirectiveGroup where
  | dart
  | package
  | ownPackage
  | relative
  | exported
  | part
  deriving DecidableEq, Repr

/-- All groups in order. -/
def DirectiveGroup.all : List DirectiveGroup :=
  [.dart, .package, .ownPackage, .relative, .exported, .part]

/-- The group of a directive in a file of the package, if its name is known. -/
def DirectiveGroup.of (package : Option Text) (directive : Text) : DirectiveGroup :=
  if directive.startsWith "export" then .exported
  else if directive.startsWith "part" then .part
  else if directive.has "dart:" then .dart
  else if package.any fun p => !p.isEmpty && directive.has ("package:" ++ p ++ ['/']) then
    .ownPackage
  else if directive.has "package:" then .package
  else .relative

namespace Directives

/-- The directives in order. -/
def format (d : Directives) (package : Option Text) : Text :=
  let groups := DirectiveGroup.all.map fun g =>
    Text.sort (d.values.filter fun v => DirectiveGroup.of package v == g)
  Text.join "\n\n" ((groups.filter fun g => !g.isEmpty).map Text.unlines)

/-- Whether writing the directives in order changes more than white space. -/
def isChanged (d : Directives) (package : Option Text) : Bool :=
  !Text.sameUpToBlanks d.found (d.format package)

end Directives

end DartData
