import DartData.Report
import DartData.Run

/-!
# The command line

What the arguments of the program mean, and the program as a function of them and of the world.
`Command.parse` reads the arguments, `Command.run` does what they say, and `Command.main` is both.
-/

namespace DartData

/-! ## §1. Options. -/

/-- The options of the command line. -/
inductive CommandOption where
  | help
  | config
  | part
  | write
  | backup
  | format
  | coerceNumbers
  | flutter
  | noFlutter
  | package
  | quiet
  deriving DecidableEq, Repr

namespace CommandOption

/-- The options by name. -/
def names : List (Text × CommandOption) :=
  [("-h", .help), ("--help", .help), ("--config", .config),
   ("--part", .part), ("--write", .write), ("--backup", .backup),
   ("--format", .format), ("--coerce-numbers", .coerceNumbers),
   ("--flutter", .flutter), ("--no-flutter", .noFlutter),
   ("--package", .package), ("-q", .quiet), ("--quiet", .quiet)]

/-- Whether an option takes a value. -/
def takesValue : CommandOption → Bool
  | .config | .part | .format | .package => true
  | _ => false

end CommandOption

/-- Why no run follows from the arguments. -/
inductive NoRun where
  /-- The arguments are wrong. -/
  | usage
  /-- Help was asked for. -/
  | help
  deriving DecidableEq, Repr

/-! ## §2. Arguments one by one. -/

/-- What an argument is. -/
inductive Argument where
  | word (t : Text)
  /-- Two dashes, after which there are only words. -/
  | dashes
  /-- An option with a value joined to it by an equals sign, if there is one. -/
  | option (o : CommandOption) (given : Option Text)
  /-- A single-letter option with more letters joined to it. -/
  | cluster (o : CommandOption) (more : Text)
  | unknown
  deriving DecidableEq, Repr

/-- Whether an argument is a negative number. -/
def looksNegative (t : Text) : Bool :=
  match t with
  | '-' :: r => match Text.split r '.' with
    | [whole] => !whole.isEmpty && whole.all isDecimal
    | [whole, fraction] => whole.all isDecimal && !fraction.isEmpty && fraction.all isDecimal
    | _ => false
  | _ => false
where
  isDecimal (c : Char) : Bool := '0' ≤ c && c ≤ '9'

/-- The argument that an option with two dashes is; the start of a name is enough if it is the
    start of no other. -/
def abbreviated (t : Text) : Except NoRun Argument :=
  let (start, given) : Text × Option Text := match t.cut? "=" with
    | some (start, given) => (start, some given)
    | none => (t, none)
  match CommandOption.names.filter fun n => n.1.startsWith start with
  | [] => .ok (if t.contains ' ' then .word t else .unknown)
  | [(_, o)] => .ok (.option o given)
  | _ => .error .usage

/-- The argument that something with one dash in front is. -/
def singleDash (t : Text) : Argument :=
  match CommandOption.names.lookup (t.take 2) with
  | some o => .cluster o (t.drop 2)
  | none => if looksNegative t || t.contains ' ' then .word t else .unknown

/-- The argument that a text is. -/
def Argument.ofText (t : Text) : Except NoRun Argument :=
  match CommandOption.names.lookup t with
  | some o => .ok (.option o none)
  | none =>
    if !t.startsWith "-" || t.length == 1 then .ok (.word t)
    else
      match (t.cut? "=").bind fun (n, given) => (CommandOption.names.lookup n).map (·, given) with
      | some (o, given) => .ok (.option o (some given))
      | none => if t.startsWith "--" then abbreviated t else .ok (singleDash t)

/-- The arguments of a list of texts. -/
def Argument.ofTexts : List Text → Except NoRun (List Argument)
  | [] => .ok []
  | t :: ts =>
    if t == "--" then .ok (.dashes :: ts.map .word)
    else do return (← Argument.ofText t) :: (← Argument.ofTexts ts)

/-! ## §3. Arguments together. -/

/-- What the options of the command line choose. -/
structure Choices where
  config : Option Text := none
  part : Option Text := none
  write : Bool := false
  backup : Bool := false
  /-- Whether the report is printed rather than the text. -/
  json : Bool := false
  coerceNumbers : Bool := false
  flutter : Bool := false
  noFlutter : Bool := false
  package : Option Text := none
  quiet : Bool := false
  deriving DecidableEq, Repr

namespace Choices

/-- The choices with a switch turned on. -/
def switch (c : Choices) : CommandOption → Except NoRun Choices
  | .help => .error .help
  | .write => .ok { c with write := true }
  | .backup => .ok { c with backup := true }
  | .coerceNumbers => .ok { c with coerceNumbers := true }
  | .flutter => .ok { c with flutter := true }
  | .noFlutter => .ok { c with noFlutter := true }
  | .quiet => .ok { c with quiet := true }
  | .config | .part | .format | .package => .error .usage

/-- The choices with an option set to a value. -/
def assign (c : Choices) (o : CommandOption) (v : Text) : Except NoRun Choices :=
  match o with
  | .config => .ok { c with config := some v }
  | .part => .ok { c with part := some v }
  | .package => .ok { c with package := some v }
  | .format =>
    if v == "text" then .ok { c with json := false }
    else if v == "json" then .ok { c with json := true }
    else .error .usage
  | _ => .error .usage

/-- Whether progress is printed.  It would stand in the way of a text that is printed, so it is only
    when the file is written. -/
def isVerbose (c : Choices) : Bool := !c.quiet && c.write

end Choices

/-- The options of a cluster of letters, and whether letters are left that have no place: those from
    one on that is no option. -/
def CommandOption.cluster (o : CommandOption) : Text → Except NoRun (List CommandOption × Bool)
  | [] => .ok ([o], false)
  | x :: more =>
    if x = '-' then .error .usage
    else match CommandOption.names.lookup ['-', x] with
      | none => .ok ([o], true)
      | some next =>
        if more.head? == some '=' then .error .usage
        else do
          let (os, left) ← cluster next more
          return (o :: os, left)

/-- What has been read of the arguments. -/
structure ReadArguments where
  choices : Choices := {}
  file : Option Text := none
  /-- Whether there are arguments that have no place. -/
  surplus : Bool := false
  deriving DecidableEq, Repr

namespace ReadArguments

/-- Turns on the options of a cluster. -/
def switchAll (a : ReadArguments) (o : CommandOption) (more : Text) :
    Except NoRun ReadArguments := do
  let (os, left) ← o.cluster more
  return { a with choices := ← os.foldlM Choices.switch a.choices, surplus := a.surplus || left }

/-- Puts a word in the place of the file. -/
def addWord (a : ReadArguments) (t : Text) : ReadArguments :=
  match a.file with
  | none => { a with file := some t }
  | some _ => { a with surplus := true }

/-- Reads arguments one after another. -/
def readAll (a : ReadArguments) : List Argument → Except NoRun ReadArguments
  | [] => .ok a
  | .unknown :: r => readAll { a with surplus := true } r
  | .cluster o more :: r => do readAll (← a.switchAll o more) r
  | .option o (some v) :: r => do
    if o.takesValue then readAll { a with choices := ← a.choices.assign o v } r
    else throw .usage
  | .option o none :: r =>
    if o.takesValue then
      match r with
      | .word v :: r => do readAll { a with choices := ← a.choices.assign o v } r
      | _ => .error .usage
    else do readAll { a with choices := ← a.choices.switch o } r
  | .word t :: r =>
    match a.file, r with
    | none, .dashes :: r => readAll (a.addWord t) r
    | _, r => readAll (a.addWord t) r
  | .dashes :: r =>
    match a.file, r with
    | none, .word t :: r => readAll (a.addWord t) r
    | _, r => readAll { a with surplus := true } r

end ReadArguments

/-- What the command line asks for. -/
structure Command where
  choices : Choices
  path : Text
  deriving DecidableEq, Repr

/-- The command that arguments give.  There must be a file, and nothing without a place. -/
def Command.parse (arguments : List Text) : Except NoRun Command := do
  let a ← ReadArguments.readAll {} (← Argument.ofTexts arguments)
  match a.file with
  | some path => if a.surplus then throw .usage else return { choices := a.choices, path }
  | none => throw .usage

/-! ## §4. The program. -/

namespace Command

/-- How the program is called. -/
def usage : Text :=
  Text.unlines
    ["usage: dartgen [-h] [--config PATH] [--part NAME] [--write] [--backup]",
     "               [--format \x7btext,json\x7d] [--coerce-numbers] [--flutter] [--no-flutter]",
     "               [--package NAME] [-q] FILE", ""]

/-- The paths that a run of a command may look at, as seen from the root. -/
def footprint (c : Command) (current : Text) : List Text :=
  let path := Path.absolute current c.path
  let backup := FileTree.backupPath path
  let directories := (Path.ancestors path).drop 1
  [path, backup, Path.join backup (Path.name path)]
    ++ (c.choices.config.map (Path.absolute current)).toList
    ++ directories.flatMap fun d => Path.join d "pubspec.yaml" :: FileTree.settingsPlaces d

/-- The settings with what was chosen in their stead. -/
def override (c : Choices) (s : Settings) : Settings :=
  { s with
    backup := if c.backup then .bool true else s.backup
    package := {
      flutter :=
        if c.flutter then .bool true else if c.noFlutter then .bool false else s.package.flutter
      name := match c.package with
        | some n => if n.isEmpty then s.package.name else .text n
        | none => s.package.name } }

/-- Runs something, and prints a fault that has a wording; the exit code is then one. -/
def reporting (work : Run Unit) : Run Nat := fun w =>
  match work w with
  | .ok _ w => .ok 0 w
  | .error f w => match f.message? with
    | some m => .ok 1 { w with err := w.err ++ Text.of ["Error: ", m, "\n"] }
    | none => .error f w

/-- Loads the settings of a file and checks the part that is asked for. -/
def prepare (c : Choices) (reader : Reader) (path : Text) : Run RunRequest := do
  let files := (← get).files
  let root := match files.findPubspec path with
    | some pubspec => Path.parent pubspec
    | none => Path.parent path
  let settings ← Run.lift (files.loadSettings reader c.config root)
  let r : RunRequest := {
    path, settings := override c settings, part := c.part, coerceNumbers := c.coerceNumbers
    write := c.write, verbose := c.isVerbose }
  let _ ← Run.lift r.category
  return r

/-- Prints what a run has come to: the report, or the new text unless it was written to the
    file. -/
def present (c : Choices) (s : Surroundings) (r : RunRequest) (o : RunOutcome) : Run Unit := do
  if c.json then Run.printLine s [o.generation.report s.now r.path]
  else if !c.write then Run.print s o.after

/-- Runs a command; gives the exit code. -/
def run (c : Command) (s : Surroundings) : Run Nat := do
  let path := (← get).files.absolute c.path
  if !(← get).files.isFile path then
    Run.complain (Text.of ["Error: file not found: ", path, "\n"])
    return 1
  else
    reporting do
      let r ← prepare c.choices s.reader path
      let o ← r.run s
      present c.choices s r o

/-- The exit code for arguments, and whether it is to be said how long the run took. -/
def start (arguments : List Text) (s : Surroundings) : Run (Nat × Bool) := do
  match parse arguments with
  | .ok c =>
    let code ← c.run s
    return (code, code = 0 && c.choices.isVerbose)
  | .error .help =>
    Run.print s usage
    return (0, false)
  | .error .usage =>
    Run.complain usage
    return (2, false)

/-- Says how long a run took, if it is to be said; gives the exit code. -/
def conclude (s : Surroundings) (elapsed : Text) (ended : Nat × Bool) : Run Nat := do
  if ended.2 then Run.announce s ["Time: ", elapsed, "s"]
  return ended.1

end Command

end DartData
