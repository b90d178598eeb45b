import DartData.SourceClass

/-!
# The `json_serializable` template

A class for the `json_serializable` package is written as a whole: the fields are kept, the
constructor takes them by name, and `fromJson` and `toJson` hand over to the functions of the
generated part file.
-/

namespace DartData

/-- The library that the template needs. -/
def jsonAnnotationLibrary : Text := "package:json_annotation/json_annotation.dart"

/-- The annotation of the class, without its round brackets. -/
def templateMark : Text := "@JsonSerializable"

/-- Whether the class is annotated in the text of its file: the closest line above it that is not
    blank says so. -/
def SourceClass.isAnnotatedIn (c : SourceClass) (text : Text) : Except Fault Bool :=
  match c.first with
  | none => .error .noLineNumber
  | some first =>
    let lines := text.lines
    if first < 2 then .ok false
    else if first - 2 ≥ lines.length then .error .lineOutOfRange
    else
      let above := (lines.take (first - 1).toNat).reverse.dropWhile Text.allBlank
      .ok (above.head?.any fun l => l.trim.startsWith templateMark)

/-- The directive for the generated part file. -/
def partDirective (fileName : Text) : Text := Text.of ["part '", fileName, ".g.dart';"]

/-- The declaration of a field. -/
def Field.declarationLine (f : Field) : Text :=
  let modifiers : List Text :=
    (if f.isLate then ["late".toList] else [])
      ++ (if f.isFinal then ["final".toList] else if f.isConst then ["const".toList] else [])
  Text.join " " (modifiers ++ [f.rawType, f.name]) ++ [';']

/-- The class written from the template, with the annotation if `annotate` holds. -/
def SourceClass.fromTemplate (c : SourceClass) (annotate : Bool) : Text :=
  let name := c.shownName
  Text.unlines <|
    (if annotate then [templateMark ++ "()".toList] else [])
      ++ [c.declarationLine ++ " \x7b".toList]
      ++ c.fields.map (fun f => "  ".toList ++ f.declarationLine)
      ++ ["".toList, Text.of ["  ", name, "(\x7b"]]
      ++ c.fields.map (fun f =>
        Text.of ["    ", if f.isNullable then "" else "required ", "this.", f.name, ","])
      ++ ["  \x7d);".toList, "".toList,
        Text.of ["  factory ", name, ".fromJson(Map<String, dynamic> json) => _$", name,
          "FromJson(json);"],
        "".toList,
        Text.of ["  Map<String, dynamic> toJson() => _$", name, "ToJson(this);"],
        "\x7d".toList]

end DartData
