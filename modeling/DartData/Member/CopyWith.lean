import DartData.Member

/-!
# `copyWith`

A method that copies an object with some of its fields changed.
-/

namespace DartData.Member

/-- The type of a parameter that may be left out. -/
def optionalType (type : Text) : Text :=
  if type == "dynamic" then type else type ++ ['?']

/-- The method `copyWith`. -/
def copyWith (c : SourceClass) : Member where
  name := "copyWith"
  text := Text.unlines <|
    [Text.of [c.type, " copyWith(\x7b"]]
      ++ c.fields.map (fun f => Text.of ["  ", optionalType f.type, " ", f.name, ","])
      ++ ["\x7d) \x7b".toList, Text.of ["  return ", c.type, "("]]
      ++ c.fields.map (fun f => Text.of ["    ", c.label f, f.name, " ?? this.", f.name, ","])
      ++ ["  );".toList, "\x7d".toList]
  finder := c.type ++ " copyWith(".toList

end DartData.Member
