import DartData.Generation

/-!
# The report

The outcome of a run as a JSON document, indented by two blanks a level.
-/

namespace DartData

/-! ## §1. Documents. -/

/-- A JSON document. -/
inductive Document where
  | null
  | bool (b : Bool)
  | int (n : Int)
  | text (t : Text)
  | list (items : List Document)
  | object (entries : List (Text × Document))

namespace Document

/-- A character inside of a JSON string.  Characters beyond ASCII are written as they are. -/
def escapedChar (c : Char) : Text :=
  if c = '\x22' || c = '\\' then ['\\', c]
  else if c = '\n' then "\\n"
  else if c = '\r' then "\\r"
  else if c = '\t' then "\\t"
  else if c.toNat = 0x08 then "\\b"
  else if c.toNat = 0x0C then "\\f"
  else if c.toNat < 0x20 then
    let ds := Nat.toDigits 16 c.toNat
    "\\u" ++ List.replicate (4 - ds.length) '0' ++ ds
  else [c]

/-- A JSON string. -/
def quoted (t : Text) : Text := ['\x22'] ++ (t.map escapedChar).flatten ++ ['\x22']

/-- Pieces between brackets, one a line. -/
def enclosed (opening closing : Char) (margin : Text) (pieces : List Text) : Text :=
  if pieces.isEmpty then [opening, closing]
  else
    let inner := Text.of ["\n", margin, "  "]
    Text.of [[opening], inner, Text.join (',' :: inner) pieces, "\n", margin, [closing]]

mutual

/-- A document whose lines after the first begin with `margin`. -/
def print (margin : Text) : Document → Text
  | .null => "null"
  | .bool true => "true"
  | .bool false => "false"
  | .int n => Text.ofInt n
  | .text t => quoted t
  | .list ds => enclosed '[' ']' margin (printItems (margin ++ [' ', ' ']) ds)
  | .object es => enclosed '{' '}' margin (printEntries (margin ++ [' ', ' ']) es)

/-- The items of a list. -/
def printItems (margin : Text) : List Document → List Text
  | [] => []
  | d :: ds => print margin d :: printItems margin ds

/-- The entries of an object. -/
def printEntries (margin : Text) : List (Text × Document) → List Text
  | [] => []
  | e :: es => printEntry margin e :: printEntries margin es

/-- One entry of an object. -/
def printEntry (margin : Text) : Text × Document → Text
  | (k, d) => Text.of [quoted k, ": ", print margin d]

end

/-- Null where there is nothing. -/
def ofOption {α : Type} (f : α → Document) : Option α → Document
  | none => .null
  | some a => f a

/-- An object with its names as string literals. -/
def ofEntries (es : List (String × Document)) : Document :=
  .object (es.map fun (k, d) => (k.toList, d))

end Document

/-! ## §2. The report. -/

open Document

/-- A class in the report. -/
def SourceClass.reported (c : SourceClass) : Document := ofEntries
  [("name", ofOption .text c.head.name), ("start_line", ofOption .int c.first),
   ("end_line", ofOption .int c.last), ("valid", .bool c.isValid),
   ("fields", .list (c.fields.map fun f => .text f.name))]

/-- The edit of a class in the report. -/
def ClassEdit.reported (e : ClassEdit) : Document := ofEntries
  [("class_name", ofOption .text e.className), ("start_line", ofOption .int e.first),
   ("end_line", ofOption .int e.last), ("text", .text e.text)]

/-- The edit of the directives in the report. -/
def DirectiveEdit.reported (e : DirectiveEdit) : Document := ofEntries
  [("start_line", ofOption .int e.first), ("end_line", ofOption .int e.last),
   ("text", .text e.text)]

/-- The report on a file, made at the time `now`. -/
def Generation.report (g : Generation) (now path : Text) : Text := print [] <| ofEntries
  [("generated_at", .text now), ("file", .text path), ("changed", .bool (!g.edits.isEmpty)),
   ("classes", .list (g.classes.map SourceClass.reported)),
   ("class_edits", .list (g.edits.classes.map ClassEdit.reported)),
   ("import_edit", ofOption DirectiveEdit.reported g.edits.directives),
   ("diagnostics", .list (g.issues.map .text))]

end DartData
