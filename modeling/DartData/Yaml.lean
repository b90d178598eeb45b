import DartData.Yaml.Flow

/-!
# YAML documents

A reader for the part of YAML that settings files are written in: mappings and lists by
indentation, values in brackets, plain and quoted scalars, and comments.  A document that does not
keep to it is refused.
-/

namespace DartData.Yaml

/-! ## §1. Lines. -/

/-- A line with something on it. -/
structure Line where
  indent : Nat
  text : Text
  deriving DecidableEq, Repr

/-- A line of a document, if there is more on it than a comment. -/
def Line.ofText? (raw : Text) : Option Line :=
  let text := raw.dropWhile (· == ' ')
  if text.isEmpty || text.head? == some '#' then none
  else some { indent := raw.length - text.length, text }

/-- Whether nothing but blanks and a comment is left of a line. -/
def isOver (t : Text) : Bool :=
  match t.dropWhile (· == ' ') with
  | [] => true
  | c :: _ => c = '#' || c = '\n'

/-- Whether a line is an item of a list. -/
def isItem (t : Text) : Bool :=
  match t with
  | '-' :: r => r.isEmpty || r.head? == some ' '
  | _ => false

/-- A plain scalar outside of brackets: it ends at a comment and has no tab and no colon that would
    end a key. -/
def plain? (t : Text) : Option Text :=
  let s := trimBlanks (Text.before t " #")
  if beginsPlain false t && !s.contains '\t' && !s.has ": " && !s.endsWith ":" then some s else none

/-- Splits a line at the colon that ends its key, a plain one. -/
def plainKey? : Text → Option (Text × Text)
  | [] => none
  | ':' :: r => if r.isEmpty || r.head? == some ' ' then some ([], r) else cons ':' (plainKey? r)
  | ' ' :: '#' :: _ => none
  | c :: r => cons c (plainKey? r)
where
  /-- Puts a character in front of the key. -/
  cons (c : Char) : Option (Text × Text) → Option (Text × Text) :=
    Option.map fun (k, rest) => (c :: k, rest)

/-- What follows the colon after a quoted key. -/
def afterColon? (t : Text) : Option Text :=
  match t.dropWhile (· == ' ') with
  | ':' :: r => if r.isEmpty || r.head? == some ' ' then some r else none
  | _ => none

/-- The key of a line and what follows its colon. -/
def key? (t : Text) : Option (Value × Text) :=
  match t with
  | '\x22' :: r => do
    let (k, rest) ← doubleQuoted r
    return (.text k, ← afterColon? rest)
  | '\x27' :: r => do
    let (k, rest) ← singleQuoted r
    return (.text k, ← afterColon? rest)
  | t =>
    if beginsPlain false t then do
      let (k, rest) ← plainKey? t
      if k.contains '\t' then none else return (resolve (trimBlanks k), rest)
    else none

/-! ## §2. Values on a line. -/

/-- The lines that go on with a plain scalar, being indented by more than `parent`, joined to it. -/
def foldPlain (parent : Int) (s : Text) : List Line → Option (Value × List Line)
  | [] => some (resolve s, [])
  | l :: ls =>
    if (l.indent : Int) > parent then do
      let more ← plain? l.text
      foldPlain parent (Text.of [s, " ", more]) ls
    else some (resolve s, l :: ls)

/-- The value that begins on the rest of a line, and the lines after it.  A value in brackets may
    run over several lines. -/
def inlineValue (parent : Int) (t : Text) (ls : List Line) : Option (Value × List Line) :=
  match t with
  | '\x22' :: r => do
    let (s, rest) ← doubleQuoted r
    if isOver rest then return (.text s, ls) else none
  | '\x27' :: r => do
    let (s, rest) ← singleQuoted r
    if isOver rest then return (.text s, ls) else none
  | c :: _ =>
    if c = '[' || c = '{' then do
      let (v, rest) ← flow (Text.unlines (t :: ls.map Line.text))
      if isOver rest then return (v, ls.drop (ls.length - rest.count '\n')) else none
    else do foldPlain parent (← plain? t) ls
  | [] => none

/-! ## §3. Values by indentation. -/

mutual

/-- The value in lines indented by at least `least`, null if there are none, and the lines after it.
    The first argument bounds the number of steps. -/
def node : Nat → (least : Nat) → List Line → Option (Value × List Line)
  | 0, _, _ => none
  | _ + 1, _, [] => some (.null, [])
  | n + 1, least, l :: ls =>
    if l.indent < least then some (.null, l :: ls)
    else if isItem l.text then items n l.indent [] (l :: ls)
    else if (key? l.text).isSome then entries n l.indent [] (l :: ls)
    else inlineValue ((least : Int) - 1) l.text ls

/-- The rest of a list whose items are indented by `indent`, `done` being what came before. -/
def items : Nat → (indent : Nat) → (done : List Value) → List Line →
    Option (Value × List Line)
  | 0, _, _, _ => none
  | _ + 1, _, done, [] => some (.list done, [])
  | n + 1, indent, done, l :: ls =>
    if l.indent = indent && isItem l.text then do
      let rest := (l.text.drop 1).dropWhile (· == ' ')
      let inner : List Line :=
        if isOver rest then ls
        else { indent := indent + (l.text.length - rest.length), text := rest } :: ls
      let (v, ls) ← node n (indent + 1) inner
      items n indent (done ++ [v]) ls
    else some (.list done, l :: ls)

/-- The rest of a mapping whose keys are indented by `indent`, `done` being what came before. -/
def entries : Nat → (indent : Nat) → (done : List (Value × Value)) → List Line →
    Option (Value × List Line)
  | 0, _, _, _ => none
  | _ + 1, _, done, [] => some (.map done, [])
  | n + 1, indent, done, l :: ls =>
    if l.indent < indent then some (.map done, l :: ls)
    else if l.indent > indent || isItem l.text then none
    else do
      let (k, rest) ← key? l.text
      let (v, ls) ← entryValue n indent (rest.dropWhile (· == ' ')) ls
      entries n indent (Value.putEntry done k v) ls

/-- The value after the colon of a key indented by `indent`.  If there is nothing on the line, it is
    what is indented by more, or a list indented by the same. -/
def entryValue : Nat → (indent : Nat) → Text → List Line → Option (Value × List Line)
  | 0, _, _, _ => none
  | n + 1, indent, rest, ls =>
    if !isOver rest then inlineValue indent rest ls
    else match ls with
      | [] => some (.null, [])
      | l :: _ =>
        if l.indent = indent && isItem l.text then items n indent [] ls
        else node n (indent + 1) ls

end

/-! ## §4. Documents. -/

/-- Whether a character may stand in a document. -/
def isAllowed (c : Char) : Bool :=
  let n := c.toNat
  n == 0x09 || n == 0x0A || n == 0x0D || (0x20 ≤ n && n ≤ 0x7E) || n == 0x85
    || (0xA0 ≤ n && n ≤ 0xD7FF) || (0xE000 ≤ n && n ≤ 0xFFFD) || 0x10000 ≤ n

/-- Whether a line is the mark `---` or `...`, maybe with something after it. -/
def isMark (mark : Text) (l : Line) : Bool :=
  l.indent == 0 && l.text.startsWith mark && isOver (l.text.drop 3)

/-- The lines after the mark that begins a document, and up to the one that ends it.  There may be
    one document only. -/
def documentLines? (ls : List Line) : Option (List Line) :=
  let body := match ls with
    | l :: r => if isMark "---" l then r else ls
    | [] => []
  let content := body.takeWhile fun l => !isMark "..." l
  if content.any (isMark "---") || (body.drop (content.length + 1)).any (fun l => !isMark "..." l)
  then none else some content

/-- The value of a document.  An empty one is null. -/
def read? (text : Text) : Option Value :=
  let text := text.removeStart "\ufeff"
  if !text.all isAllowed then none
  else do
    let ls ← documentLines? (text.lines.filterMap Line.ofText?)
    let (v, rest) ← node (4 * text.length + 4) 0 ls
    if rest.isEmpty then return v else none

end DartData.Yaml
