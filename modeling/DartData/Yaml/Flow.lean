import DartData.Yaml.Scalar

/-!
# YAML in brackets

Lists in square and mappings in curly brackets, one inside of the other, over any number of lines.
-/

namespace DartData.Yaml

/-- What follows blanks, line feeds and comments. -/
def skipSpace (t : Text) : Text := go false t
where
  go (inComment : Bool) : Text → Text
    | [] => []
    | c :: r =>
      if inComment then go (c ≠ '\n') r
      else if c = ' ' || c = '\n' then go false r
      else if c = '#' then go true r
      else c :: r

/-- Whether a colon ends a key, from what follows it. -/
def endsKey (after : Text) : Bool :=
  match after with
  | [] => true
  | c :: _ => isSpace c || ",[]\x7b\x7d".toList.contains c

/-- A plain scalar inside of brackets, and what follows it. -/
def flowPlain : Text → Text × Text
  | [] => ([], [])
  | c :: r =>
    if c = '\n' || c = '\t' || ",?[]\x7b\x7d".toList.contains c || (c = ':' && endsKey r)
        || (c = ' ' && r.head? == some '#') then ([], c :: r)
    else
      let (t, rest) := flowPlain r
      (c :: t, rest)

/-- Whether a value can be a key. -/
def isKey : Value → Bool
  | .list _ | .map _ => false
  | _ => true

mutual

/-- A value inside of brackets, and what follows it.  The first argument bounds the depth and
    length of what is read. -/
def flowValue : Nat → Text → Option (Value × Text)
  | 0, _ => none
  | n + 1, t =>
    match t with
    | '[' :: r => flowItems n [] (skipSpace r)
    | '{' :: r => flowEntries n [] (skipSpace r)
    | '\x22' :: r => (doubleQuoted r).map fun (s, rest) => (.text s, rest)
    | '\x27' :: r => (singleQuoted r).map fun (s, rest) => (.text s, rest)
    | t =>
      if beginsPlain true t then
        let (s, rest) := flowPlain t
        some (resolve (trimBlanks s), rest)
      else none

/-- The value after the colon of an entry, null if there is none, and what follows it. -/
def flowEntryValue : Nat → Text → Option (Value × Text)
  | 0, _ => none
  | n + 1, t =>
    if t.head?.any fun c => c = ',' || c = '}' || c = ']' then some (.null, t) else flowValue n t

/-- The rest of a list, `items` being what came before. -/
def flowItems : Nat → List Value → Text → Option (Value × Text)
  | 0, _, _ => none
  | n + 1, items, t =>
    match t with
    | ']' :: r => some (.list items, r)
    | t => do
      let (v, r) ← flowValue n t
      match skipSpace r with
      | ':' :: r =>
        let (w, r) ← flowEntryValue n (skipSpace r)
        if isKey v then flowNextItem n (items ++ [.map [(v, w)]]) (skipSpace r) else none
      | r => flowNextItem n (items ++ [v]) r

/-- After an item of a list: a comma, or the end of the list. -/
def flowNextItem : Nat → List Value → Text → Option (Value × Text)
  | 0, _, _ => none
  | n + 1, items, t =>
    match t with
    | ',' :: r => flowItems n items (skipSpace r)
    | ']' :: r => some (.list items, r)
    | _ => none

/-- The rest of a mapping, `entries` being what came before. -/
def flowEntries : Nat → List (Value × Value) → Text → Option (Value × Text)
  | 0, _, _ => none
  | n + 1, entries, t =>
    match t with
    | '}' :: r => some (.map entries, r)
    | t => do
      let (k, r) ← flowValue n t
      if !isKey k then none
      else match skipSpace r with
        | ':' :: r =>
          let (v, r) ← flowEntryValue n (skipSpace r)
          flowNextEntry n (Value.putEntry entries k v) (skipSpace r)
        | r => flowNextEntry n (Value.putEntry entries k .null) r

/-- After an entry of a mapping: a comma, or the end of the mapping. -/
def flowNextEntry : Nat → List (Value × Value) → Text → Option (Value × Text)
  | 0, _, _ => none
  | n + 1, entries, t =>
    match t with
    | ',' :: r => flowEntries n entries (skipSpace r)
    | '}' :: r => some (.map entries, r)
    | _ => none

end

/-- A value that begins with a bracket, and what follows it. -/
def flow (t : Text) : Option (Value × Text) := flowValue (3 * t.length + 3) t

end DartData.Yaml
