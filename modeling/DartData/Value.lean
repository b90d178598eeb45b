import DartData.Decimal
import DartData.Text.Printable

/-!
# Configured values

A settings file may hold any value at all.  `Value` is what it can hold; mappings keep their
entries in the order they were written.
-/

namespace DartData

/-- A value of a settings file. -/
inductive Value where
  | null
  | bool (b : Bool)
  | int (n : Int)
  | float (d : Decimal)
  | text (t : Text)
  | list (items : List Value)
  | map (entries : List (Value × Value))
  deriving Repr

namespace Value

instance : Inhabited Value := ⟨.null⟩

/-! ## §1. Truth and kind. -/

/-- Whether a value counts as true: all do but null, false, zero and what is empty. -/
def truth : Value → Bool
  | .null => false
  | .bool b => b
  | .int n => n != 0
  | .float d => !d.isZero
  | .text t => !t.isEmpty
  | .list vs => !vs.isEmpty
  | .map es => !es.isEmpty

/-- The name of the kind of a value, as messages give it. -/
def kind : Value → Text
  | .null => "NoneType"
  | .bool _ => "bool"
  | .int _ => "int"
  | .float _ => "float"
  | .text _ => "str"
  | .list _ => "list"
  | .map _ => "dict"

/-- Whether a value is this text. -/
def isText (v : Value) (t : Text) : Bool :=
  match v with
  | .text u => u == t
  | _ => false

/-- Whether two scalars are the same key of a mapping. -/
def sameKey : Value → Value → Bool
  | .null, .null => true
  | .bool a, .bool b => a == b
  | .int a, .int b => a == b
  | .float a, .float b => a == b
  | .text a, .text b => a == b
  | _, _ => false

/-- The entries with one more: a key that is there already keeps its place and gets the new
    value. -/
def putEntry (es : List (Value × Value)) (key value : Value) : List (Value × Value) :=
  match es with
  | [] => [(key, value)]
  | (k, v) :: r => if k.sameKey key then (k, value) :: r else (k, v) :: putEntry r key value

/-- The value under a text as key. -/
def entry? (es : List (Value × Value)) (key : Text) : Option Value :=
  (es.find? (·.1.isText key)).map Prod.snd

/-! ## §2. Text. -/

/-- A code point in hexadecimal with at least `width` digits. -/
def hexDigits (n width : Nat) : Text :=
  let ds := Nat.toDigits 16 n
  List.replicate (width - ds.length) '0' ++ ds

/-- A character inside of a quoted text. -/
def quotedChar (quote c : Char) : Text :=
  if c = quote || c = '\\' then ['\\', c]
  else if c = '\n' then "\\n"
  else if c = '\r' then "\\r"
  else if c = '\t' then "\\t"
  else if isPrintable c then [c]
  else if c.toNat < 0x100 then "\\x" ++ hexDigits c.toNat 2
  else if c.toNat < 0x10000 then "\\u" ++ hexDigits c.toNat 4
  else "\\U" ++ hexDigits c.toNat 8

/-- A text in quotes: single ones, unless the text has single quotes and no double ones. -/
def quotedText (t : Text) : Text :=
  let quote := if t.contains '\x27' && !t.contains '\x22' then '\x22' else '\x27'
  [quote] ++ (t.map (quotedChar quote)).flatten ++ [quote]

mutual

/-- A value inside of another one. -/
def nestedText : Value → Text
  | .null => "None"
  | .bool true => "True"
  | .bool false => "False"
  | .int n => Text.ofInt n
  | .float d => d.toText
  | .text t => quotedText t
  | .list vs => ['['] ++ Text.join ", " (nestedTexts vs) ++ [']']
  | .map es => ['{'] ++ Text.join ", " (entryTexts es) ++ ['}']

/-- The items of a list. -/
def nestedTexts : List Value → List Text
  | [] => []
  | v :: vs => nestedText v :: nestedTexts vs

/-- The entries of a mapping. -/
def entryTexts : List (Value × Value) → List Text
  | [] => []
  | e :: es => entryText e :: entryTexts es

/-- One entry of a mapping. -/
def entryText : Value × Value → Text
  | (k, v) => Text.of [nestedText k, ": ", nestedText v]

end

/-- A value as text.  A text is shown without quotes. -/
def toText : Value → Text
  | .text t => t
  | v => nestedText v

end Value

end DartData
