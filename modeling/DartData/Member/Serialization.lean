import DartData.Member

/-!
# Serialization members

`toMap` and `fromMap` turn an object into a map of plain values and back; `toJson` and `fromJson`
go through them.  The keys are the names of the fields as written.
-/

namespace DartData.Member

/-! ## §1. `toMap`. -/

/-- The plain value of a field, or of one element of it, that stands under the name `x`. -/
def plainValue (f : Field) (x : Text) : Text :=
  let e := if f.isCollection then f.element else f
  if e.type == "DateTime" then Text.of [x, e.nullMark, ".millisecondsSinceEpoch"]
  else if e.type == "Color" then Text.of [x, e.nullMark, ".value"]
  else if e.type == "IconData" then Text.of [x, e.nullMark, ".codePoint"]
  else if e.isPrimitive then x
  else Text.of [x, e.nullMark, ".toMap()"]

/-- The value that `toMap` stores for a field. -/
def storedValue (f : Field) : Text :=
  if f.isEnum then
    if f.isCollection then Text.of [f.name, f.nullMark, ".map((x) => x.index).toList()"]
    else Text.of [f.name, f.nullMark, ".index"]
  else if f.isCollection then
    if f.isMap || f.element.isPrimitive then
      f.name ++ (if f.isSet then f.nullMark ++ ".toList()" else [])
    else Text.of [f.name, f.nullMark, ".map((x) => ", plainValue f "x", ").toList()"]
  else plainValue f f.name

/-- The method `toMap`. -/
def toMap (c : SourceClass) : Member where
  name := "toMap"
  text := Text.unlines <|
    ["Map<String, dynamic> toMap() \x7b".toList, "  return <String, dynamic>\x7b".toList]
      ++ c.fields.map (fun f => Text.of ["    '", f.sourceName, "': ", storedValue f, ","])
      ++ ["  \x7d;".toList, "\x7d".toList]
  finder := "Map<String, dynamic> toMap()"

/-! ## §2. `fromMap`. -/

/-- The choices in writing `fromMap`. -/
structure MapReading where
  /-- Whether a missing value is replaced by a default. -/
  defaultValues : Bool := false
  /-- Whether numbers are converted to the type of the field. -/
  coerceNumbers : Bool := false
  deriving DecidableEq, Repr

/-- Where `fromMap` finds the value of a field. -/
def mapEntry (f : Field) : Text := Text.of ["map['", f.sourceName, "']"]

/-- A text in round brackets if `b` holds. -/
def parensIf (b : Bool) (t : Text) : Text := if b then Text.of ["(", t, ")"] else t

/-- The value of a field, or of one element of it, made from a plain value.  `given` is that value;
    without it the entry of the map is taken. -/
def readValue (r : MapReading) (f : Field) (given : Option Text) : Text :=
  let asInt : Text := if f.isCollection then [] else " as int"
  let e := if f.isCollection then f.element else f
  let addDefault :=
    r.defaultValues && e.rawType != "dynamic" && !e.isNullable && e.isPrimitive
  let x := given.getD ((if addDefault then ['('] else []) ++ mapEntry e)
  let orZero := if r.defaultValues then Text.of ["(", x, " ?? 0)"] else x
  if e.type == "DateTime" then
    Text.of ["DateTime.fromMillisecondsSinceEpoch(", orZero, asInt, ")"]
  else if e.type == "Color" then Text.of ["Color(", orZero, asInt, ")"]
  else if e.type == "IconData" then
    Text.of ["IconData(", orZero, asInt, ", fontFamily: 'MaterialIcons')"]
  else if !e.isPrimitive then Text.of [e.type, ".fromMap(", x, " as Map<String, dynamic>)"]
  else
    let coerced : Text :=
      if r.coerceNumbers && e.isDouble then x ++ ".toDouble()"
      else if r.coerceNumbers && e.isInt then x ++ ".toInt()"
      else x
    if addDefault then Text.of [coerced, " ?? ", e.defaultValue, ")"] else coerced

/-- The default that guards the entry of a collection of plain values. -/
def collectionDefault (r : MapReading) (f : Field) : Text :=
  if r.defaultValues && !f.isNullable then
    if f.isMap then " ?? const <String, dynamic>\x7b\x7d"
    else Text.of [" ?? const <", f.element.type, ">", if f.isList then "[]" else "\x7b\x7d"]
  else []

/-- The expression that `fromMap` reads a field with, nulls apart. -/
def readField (r : MapReading) (f : Field) : Text :=
  let orElse (default : Text) : Text :=
    parensIf r.defaultValues (mapEntry f ++ if r.defaultValues then default else [])
  if f.isEnum then
    if f.isCollection then
      Text.of [f.type, ".from((", orElse " ?? <int>[]", " as List<int>).map<", f.element.type,
        ">((x) => ", f.element.type, ".values[x]),)"]
    else Text.of [f.type, ".values[", orElse " ?? 0", " as int]"]
  else if f.isCollection then
    if f.isPrimitive then
      let default := collectionDefault r f
      Text.of [f.type, ".from((", parensIf (!default.isEmpty) (mapEntry f ++ default), " as ",
        f.type, "))"]
    else
      Text.of [f.type, ".from((", mapEntry f, " as List<dynamic>).map<", f.element.type,
        ">((x) => ", readValue r f (some "x"), ",),)"]
  else if f.isPrimitive then Text.of [readValue r f none, " as ", f.type]
  else readValue r f none

/-- The argument that `fromMap` passes for a field. -/
def mapArgument (c : SourceClass) (r : MapReading) (f : Field) : Text :=
  Text.of [c.label f,
    if f.isNullable then Text.of [mapEntry f, " != null ? ", readField r f, " : null"]
    else readField r f]

/-- The factory `fromMap`. -/
def fromMap (c : SourceClass) (r : MapReading) : Member where
  name := "fromMap"
  text := Text.unlines <|
    [Text.of ["factory ", c.shownName, ".fromMap(Map<String, dynamic> map) \x7b"],
      Text.of ["  return ", c.type, "("]]
      ++ c.fields.map (fun f => Text.of ["    ", mapArgument c r f, ","])
      ++ ["  );".toList, "\x7d".toList]
  finder := Text.of ["factory ", c.shownName, ".fromMap(Map<String, dynamic> map)"]

/-! ## §3. `toJson` and `fromJson`. -/

/-- The method `toJson`. -/
def toJson : Member where
  name := "toJson"
  text := "String toJson() => json.encode(toMap());"
  finder := "String toJson()"
  imports := [⟨dartConvert, []⟩]

/-- The factory `fromJson`. -/
def fromJson (c : SourceClass) : Member where
  name := "fromJson"
  text := Text.of ["factory ", c.shownName, ".fromJson(String source) => ", c.shownName,
    ".fromMap(json.decode(source) as Map<String, dynamic>);"]
  finder := Text.of ["factory ", c.shownName, ".fromJson(String source)"]
  imports := [⟨dartConvert, []⟩]

end DartData.Member
