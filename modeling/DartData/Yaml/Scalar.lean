import DartData.Value

/-!
# YAML scalars

Scalars of YAML 1.1 on one line: what a plain scalar stands for, and the two kinds of quoted
scalars.  `Yaml.resolve` gives plain scalars their meaning; a text that is none of the other kinds
is itself.
-/

namespace DartData.Yaml

/-! ## §1. Numbers. -/

/-- The value of a digit in a base up to sixteen. -/
def digitValue? (base : Nat) (c : Char) : Option Nat :=
  let n :=
    if '0' ≤ c && c ≤ '9' then c.toNat - '0'.toNat
    else if 'a' ≤ c && c ≤ 'f' then c.toNat - 'a'.toNat + 10
    else if 'A' ≤ c && c ≤ 'F' then c.toNat - 'A'.toNat + 10
    else base
  if n < base then some n else none

/-- The number that digits write, underscores being left out; none if there is no digit or another
    character. -/
def digits? (base : Nat) (t : Text) : Option Nat :=
  let ds := t.filter (· ≠ '_')
  if ds.isEmpty then none
  else ds.foldl (fun n c => do return (← n) * base + (← digitValue? base c)) (some 0)

/-- A sign taken off the front: whether it is a minus, and the rest. -/
def signed (t : Text) : Bool × Text :=
  match t with
  | '-' :: r => (true, r)
  | '+' :: r => (false, r)
  | _ => (false, t)

/-- Digits in groups of sixty, divided by colons. -/
def sexagesimal? (groups : List Text) : Option Nat :=
  groups.foldl (fun n g => do
    let d ← digits? 10 g
    if g.length ≤ 2 && d < 60 then return (← n) * 60 + d else none) (some 0)

/-- A whole number without its sign: binary, hexadecimal, octal or decimal, or in groups of
    sixty. -/
def natural? (t : Text) : Option Nat :=
  match t with
  | '0' :: 'b' :: r => digits? 2 r
  | '0' :: 'x' :: r => digits? 16 r
  | ['0'] => some 0
  | '0' :: r => digits? 8 r
  | c :: _ =>
    if c = '_' then none
    else match t.split ':' with
      | [whole] => digits? 10 whole
      | first :: groups => do
        let n ← digits? 10 first
        return n * Nat.pow 60 groups.length + (← sexagesimal? groups)
      | [] => none
  | [] => none

/-- A whole number. -/
def integer? (t : Text) : Option Int := do
  let (negative, r) := signed t
  let n ← natural? r
  return if negative then -(n : Int) else n

/-- The power of ten at the end of a decimal: a letter, a sign and digits, or nothing. -/
def exponent? (t : Text) : Option Int :=
  match t with
  | [] => some 0
  | e :: s :: ds => do
    if (e = 'e' || e = 'E') && (s = '+' || s = '-') && ds.all Char.isDigit then
      let n ← digits? 10 ds
      return if s = '-' then -(n : Int) else n
    else none
  | _ => none

/-- A number with a point.  Digits in front of the point may be missing if there is no sign. -/
def decimal? (t : Text) : Option Decimal := do
  let (negative, r) := signed t
  let (whole, rest) ← r.cut? "."
  let fraction := rest.takeWhile fun c => c.isDigit || c = '_'
  let e ← exponent? (rest.drop fraction.length)
  let wholeFits := match whole with
    | [] => r.length == t.length && fraction.head?.any Char.isDigit
    | c :: cs => c.isDigit && cs.all fun d => d.isDigit || d = '_'
  if !wholeFits then none
  else
    let places := fraction.filter (· ≠ '_')
    let n ← digits? 10 (whole ++ places)
    return ⟨negative, n, e - places.length⟩

/-! ## §2. Plain scalars. -/

/-- The spellings of null. -/
def nullWords : List Text := ["", "~", "null", "Null", "NULL"]

/-- The spellings of true. -/
def trueWords : List Text :=
  ["yes", "Yes", "YES", "true", "True", "TRUE", "on", "On", "ON"].map String.toList

/-- The spellings of false. -/
def falseWords : List Text :=
  ["no", "No", "NO", "false", "False", "FALSE", "off", "Off", "OFF"].map String.toList

/-- What a plain scalar stands for. -/
def resolve (t : Text) : Value :=
  if nullWords.contains t then .null
  else if trueWords.contains t then .bool true
  else if falseWords.contains t then .bool false
  else match integer? t with
    | some n => .int n
    | none => match decimal? t with
      | some d => .float d
      | none => .text t

/-- Whether a character is white space between scalars. -/
def isSpace (c : Char) : Bool :=
  c = ' ' || c = '\t' || c = '\n' || c = '\r' || c = '\u0085' || c = '\u2028' || c = '\u2029'

/-- What is left without the blanks at the end. -/
def trimBlanks (t : Text) : Text := (t.reverse.dropWhile (· == ' ')).reverse

/-- Characters that mean something else at the start of a scalar. -/
def indicators : Text := "-?:,[]\x7b\x7d#&*!|>'\"%@`"

/-- Whether a plain scalar can begin here.  A dash may begin one if no blank follows it, and outside
    of brackets so may a question mark and a colon. -/
def beginsPlain (inFlow : Bool) (t : Text) : Bool :=
  match t with
  | [] => false
  | c :: r =>
    if isSpace c then false
    else if c = '-' || (!inFlow && (c = '?' || c = ':')) then r.head?.any fun d => !isSpace d
    else !indicators.contains c

/-! ## §3. Quoted scalars. -/

/-- The rest of a single-quoted scalar, in which a quote is written twice, and what follows it. -/
def singleQuoted : Text → Option (Text × Text)
  | [] => none
  | '\x27' :: '\x27' :: r => (singleQuoted r).map fun (t, rest) => ('\x27' :: t, rest)
  | '\x27' :: r => some ([], r)
  | '\n' :: _ => none
  | c :: r => (singleQuoted r).map fun (t, rest) => (c :: t, rest)

/-- The characters with an escape of one letter. -/
def escapes : List (Char × Nat) :=
  [('0', 0x00), ('a', 0x07), ('b', 0x08), ('t', 0x09), ('\t', 0x09), ('n', 0x0A), ('v', 0x0B),
   ('f', 0x0C), ('r', 0x0D), ('e', 0x1B), (' ', 0x20), ('\x22', 0x22), ('\\', 0x5C), ('/', 0x2F),
   ('N', 0x85), ('_', 0xA0), ('L', 0x2028), ('P', 0x2029)]

/-- The character with a code in hexadecimal. -/
def hexChar? (ds : Text) : Option Char := (digits? 16 ds).map Char.ofNat

/-- The rest of a double-quoted scalar, with its escapes, and what follows it. -/
def doubleQuoted : Text → Option (Text × Text)
  | [] => none
  | '\x22' :: r => some ([], r)
  | '\n' :: _ => none
  | '\\' :: 'x' :: a :: b :: r => do
    let (t, rest) ← doubleQuoted r
    return ((← hexChar? [a, b]) :: t, rest)
  | '\\' :: 'u' :: a :: b :: c :: d :: r => do
    let (t, rest) ← doubleQuoted r
    return ((← hexChar? [a, b, c, d]) :: t, rest)
  | '\\' :: 'U' :: a :: b :: c :: d :: e :: f :: g :: h :: r => do
    let (t, rest) ← doubleQuoted r
    return ((← hexChar? [a, b, c, d, e, f, g, h]) :: t, rest)
  | '\\' :: x :: r => do
    let (t, rest) ← doubleQuoted r
    return (Char.ofNat (← escapes.lookup x) :: t, rest)
  | c :: r => (doubleQuoted r).map fun (t, rest) => (c :: t, rest)

end DartData.Yaml
