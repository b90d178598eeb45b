import DartData.Member

/-!
# Text form and equality

`toString`, `operator ==` and `hashCode`, and the members that take their place in classes that
are compared through the `equatable` package.
-/

namespace DartData.Member

/-! ## §1. Text form. -/

/-- The method `toString`. -/
def toString (c : SourceClass) : Member where
  name := "toString"
  text :=
    let values := Text.join ", " (c.fields.map fun f => Text.of [f.name, ": $", f.name])
    let shown := Text.of ["'", c.shownName, "(", values, ")'"]
    if c.hasFewFields then Text.unlines ["@override", Text.of ["String toString() => ", shown, ";"]]
    else
      Text.unlines
        ["@override", "String toString() \x7b", Text.of ["  return ", shown, ";"], "\x7d"]
  finder := "String toString()"

/-- The getter that has `equatable` write `toString`. -/
def stringify : Member where
  name := "stringify"
  text := Text.unlines ["@override", "bool get stringify => true;"]
  finder := "bool get stringify"

/-! ## §2. Equality. -/

/-- The function of the foundation library that compares two collections of the kind of the
    field. -/
def flutterEquals (f : Field) : Text :=
  if f.isSet then "setEquals" else if f.isMap then "mapEquals" else "listEquals"

/-- The name of the local function that compares collections: named after their kind where they
    are all of one. -/
def localEquals (collections : List Field) : Text :=
  if collections.all Field.isList then "listEquals"
  else if collections.all Field.isMap then "mapEquals"
  else if collections.all Field.isSet then "setEquals"
  else "collectionEquals"

/-- The operator `==`.  Collections are compared in depth: by the foundation library in a Flutter
    package, by the collection package in any other. -/
def equality (c : SourceClass) (flutter : Bool) : Member :=
  let collections := c.fields.filter Field.isCollection
  let helper : Option Text :=
    if collections.isEmpty || flutter then none else some (localEquals collections)
  let comparison (f : Field) : Text :=
    if f.isCollection then
      Text.of ["    ", helper.getD (flutterEquals f), "(other.", f.name, ", ", f.name, ")"]
    else Text.of ["    other.", f.name, " == ", f.name]
  { name := "equality"
    text := Text.unlines <|
      ["@override".toList, Text.of ["bool operator ==(covariant ", c.type, " other) \x7b"],
        "  if (identical(this, other)) return true;".toList]
        ++ (helper.map fun h =>
          Text.of ["  final ", h, " = const DeepCollectionEquality().equals;"]).toList
        ++ ["".toList, "  return".toList]
        ++ (if c.fields.isEmpty then []
          else [Text.join " &&\n" (c.fields.map comparison) ++ [';']])
        ++ ["\x7d".toList]
    finder := "bool operator =="
    imports :=
      if collections.isEmpty then []
      else [⟨if flutter then flutterFoundation else collectionLibrary, []⟩] }

/-- The libraries of Flutter that bring `hashList` along. -/
def flutterUiLibraries : List Text :=
  ["package:flutter/material.dart", "package:flutter/cupertino.dart",
   "package:flutter/widgets.dart"]

/-- The getter `hashCode`. -/
def hashCode (c : SourceClass) (jenkins : Bool) : Member where
  name := "hashCode"
  text :=
    let codes := c.fields.map fun f => f.name ++ ".hashCode".toList
    if jenkins then
      Text.unlines <|
        ["@override".toList, "int get hashCode \x7b".toList, "  return hashList([".toList]
          ++ c.fields.map (fun f => Text.of ["    ", f.name, ","])
          ++ ["  ]);".toList, "\x7d".toList]
    else if c.hasFewFields then
      Text.unlines ["@override", Text.of ["int get hashCode => ", Text.join " ^ " codes, ";"]]
    else
      Text.unlines ["@override", "int get hashCode \x7b",
        Text.of ["  return ", Text.join " ^\n    " codes, ";"], "\x7d"]
  finder := "int get hashCode"
  imports := if jenkins then [⟨dartUi, flutterUiLibraries⟩] else []

/-- The getter `props` of a class that is compared through `equatable`. -/
def props (c : SourceClass) : Member where
  name := "props"
  text :=
    let names := c.fields.map Field.name
    if names.length ≤ 4 then
      Text.unlines ["@override",
        Text.of ["List<Object?> get props => [", Text.join ", " names, "];"]]
    else
      Text.unlines <|
        ["@override".toList, "List<Object?> get props \x7b".toList, "  return [".toList]
          ++ names.map (fun n => Text.of ["    ", n, ","])
          ++ ["  ];".toList, "\x7d".toList]
  finder := "List<Object> get props"

end DartData.Member
