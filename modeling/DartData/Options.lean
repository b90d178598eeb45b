import DartData.Fault

/-!
# Options

What the generator can be told: which members to write and how, which one category of members to
write alone, and what is known about the package.
-/

namespace DartData

/-- The members that can be switched on and off. -/
inductive MemberSection where
  | constructor
  | copyWith
  | toMap
  | fromMap
  | toJson
  | fromJson
  | toString
  | equality
  | hashCode
  deriving DecidableEq, Repr

/-- The options. -/
inductive Setting where
  /-- Whether a member is written. -/
  | enabled (s : MemberSection)
  /-- Whether constructor parameters get default values. -/
  | constructorDefaults
  /-- Whether `fromMap` replaces missing values by defaults. -/
  | fromMapDefaults
  /-- Whether `hashCode` is computed over a list. -/
  | jenkinsHash
  /-- Whether classes are compared through `equatable`. -/
  | useEquatable
  /-- Whether `equatable` is used as a mixin rather than a superclass. -/
  | equatableMixin
  deriving DecidableEq, Repr

/-- A value for each option. -/
abbrev Options (α : Type) := Setting → α

/-- All members are written, and nothing else is switched on. -/
def Options.default : Options Bool
  | .enabled _ => true
  | _ => false

/-- The categories of members that can be written alone.  The last one writes whole classes and is
    only done when asked for. -/
inductive Category where
  | constructor
  | copyWith
  | serialization
  | toString
  | equality
  | useEquatable
  | jsonSerializable
  deriving DecidableEq, Repr

namespace Category

/-- All categories in order. -/
def all : List Category :=
  [.constructor, .copyWith, .serialization, .toString, .equality, .useEquatable, .jsonSerializable]

/-- The name by which a category is asked for. -/
def name : Category → Text
  | .constructor => "constructor"
  | .copyWith => "copyWith"
  | .serialization => "serialization"
  | .toString => "toString"
  | .equality => "equality"
  | .useEquatable => "useEquatable"
  | .jsonSerializable => "jsonSerializable"

/-- The category with a name. -/
def ofName (n : Text) : Except Fault Category :=
  match all.find? (·.name == n) with
  | some c => .ok c
  | none => .error (.unknownPart n (all.map name))

end Category

/-- All that the generator is told besides the text. -/
structure Request where
  options : Options Bool := .default
  /-- The category that is written alone; all but the template if there is none. -/
  category : Option Category := none
  /-- The name of the package, as it stands in imports. -/
  package : Option Text := none
  /-- Whether the package is a Flutter package. -/
  flutter : Bool := false
  /-- Whether `fromMap` converts numbers to the type of the field. -/
  coerceNumbers : Bool := false
  /-- The name of the file without its extension. -/
  fileName : Option Text := none

/-- Whether members of a category are to be written. -/
def Request.selects (r : Request) (c : Category) : Bool :=
  r.category.isNone || r.category == some c

end DartData
