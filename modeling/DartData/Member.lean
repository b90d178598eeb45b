import DartData.SourceClass

/-!
# Generated members

A member that is written into a class: its text, not indented, the head by which an existing copy
of it is known, and the imports that it needs.
-/

namespace DartData

/-- A library that a member needs, unless one of the alternatives is imported. -/
structure RequiredImport where
  uri : Text
  alternatives : List Text := []
  deriving DecidableEq, Repr

/-- A member to be written into a class. -/
structure Member where
  name : Text
  text : Text
  /-- What an existing copy of the member begins with. -/
  finder : Text
  imports : List RequiredImport := []
  deriving DecidableEq, Repr

/-- The text that stands in the place of an existing copy of a member.  The annotation on the line
    above the copy is left where it is. -/
def Member.replacement (m : Member) : Text :=
  (Text.indent (m.text.eraseAll "@override\n")).removeEnd "\n"

/-! ## Libraries. -/

/-- The library that reads and writes JSON. -/
def dartConvert : Text := "dart:convert"

/-- The library that has `hashList`. -/
def dartUi : Text := "dart:ui"

/-- The library that compares collections in Flutter packages. -/
def flutterFoundation : Text := "package:flutter/foundation.dart"

/-- The library that compares collections in other packages. -/
def collectionLibrary : Text := "package:collection/collection.dart"

/-- The library that brings `Equatable`. -/
def equatableLibrary : Text := "package:equatable/equatable.dart"

/-! ## Pieces of members. -/

/-- The argument label of a field in a call of the constructor. -/
def SourceClass.label (c : SourceClass) (f : Field) : Text :=
  if c.hasNamedConstructor then f.name ++ ": " else []

/-- The mark of null-aware access for nullable fields. -/
def Field.nullMark (f : Field) : Text := if f.isNullable then "?" else []

end DartData
