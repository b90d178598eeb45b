import DartData.Identifier

/-!
# Fields

A field of a class as its declaration gives it, and what its type says about it.  Types are kept
as text; lists and sets are known by the head of that text, and the type of their elements by
cutting the brackets off.
-/

namespace DartData

/-- A field of a class. -/
structure Field where
  /-- The type as written, with its question mark. -/
  rawType : Text
  /-- The name as written, which may be the key of a map such as `first-name`. -/
  sourceName : Text
  /-- The line of the declaration. -/
  line : Int := 1
  isFinal : Bool := true
  isConst : Bool := false
  isLate : Bool := false
  /-- Whether a comment marks the field as an enumeration value. -/
  isEnum : Bool := false
  deriving DecidableEq, Repr

/-- The collections that get a treatment of their own. -/
inductive Collection where
  | list
  | map
  | set
  deriving DecidableEq, Repr

/-- The name of a collection type. -/
def Collection.typeName : Collection → Text
  | .list => "List"
  | .map => "Map"
  | .set => "Set"

namespace Field

/-! ## §1. The type as written. -/

/-- The identifier of the field. -/
def name (f : Field) : Text := variableName f.sourceName

/-- Whether the type ends with a question mark. -/
def isNullable (f : Field) : Bool := f.rawType.endsWith "?"

/-- The type without its question mark. -/
def type (f : Field) : Text := f.rawType.removeEnd "?"

/-- Whether the type is the collection `k`, with or without type arguments. -/
def isOf (f : Field) (k : Collection) : Bool :=
  f.rawType == k.typeName || f.rawType.startsWith (k.typeName ++ ['<'])

/-- Whether the field is a list. -/
def isList (f : Field) : Bool := f.isOf .list

/-- Whether the field is a map. -/
def isMap (f : Field) : Bool := f.isOf .map

/-- Whether the field is a set. -/
def isSet (f : Field) : Bool := f.isOf .set

/-- Whether the field is a list, a map or a set. -/
def isCollection (f : Field) : Bool := f.isList || f.isMap || f.isSet

/-! ## §2. Elements. -/

/-- The type of the elements of the collection `k`: the type without the head `k<` and without the
    first closing bracket, and `dynamic` where no type argument is given. -/
def elementType (f : Field) (k : Collection) : Text :=
  if f.rawType == k.typeName then "dynamic"
  else (f.rawType.eraseFirst (k.typeName ++ ['<'])).eraseFirst ['>']

/-- A field of the same name that holds a value of another type. -/
def holding (f : Field) (rawType : Text) : Field :=
  { rawType, sourceName := f.name, line := f.line, isFinal := f.isFinal }

/-- A field that holds one element of a list or set; the field itself if it is neither. -/
def element (f : Field) : Field :=
  if f.isSet then f.holding (f.elementType .set)
  else if f.isList then f.holding (f.elementType .list)
  else f

/-- Whether the field, or each element of it, is a whole number. -/
def isInt (f : Field) : Bool := f.element.type == "int"

/-- Whether the field, or each element of it, is a floating-point number. -/
def isDouble (f : Field) : Bool := f.element.type == "double"

/-- The types besides the numbers that are stored in a map as they are. -/
def plainTypes : List Text := ["String", "num", "dynamic", "bool"]

/-- Whether the field, or each element of it, is stored in a map as it is. -/
def isPrimitive (f : Field) : Bool :=
  plainTypes.contains f.element.type || f.isDouble || f.isInt || f.isMap

/-! ## §3. Default values. -/

/-- The value that stands in for a missing one: empty collections, empty text, zero, false and
    null, and a call of the constructor for every other type. -/
def defaultValue (f : Field) : Text :=
  if f.isList then "const []"
  else if f.isMap || f.isSet then "const \x7b\x7d"
  else if f.type == "String" then "''"
  else if f.type == "num" || f.type == "int" then "0"
  else if f.type == "double" then "0.0"
  else if f.type == "bool" then "false"
  else if f.type == "dynamic" then "null"
  else f.type ++ ['(', ')']

end Field

end DartData
