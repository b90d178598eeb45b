import DartData.Text.Digit
import DartData.Text.UpperCase

/-!
# Identifiers

A field may carry the key of a map, such as `first-name`, which is no identifier.  `variableName`
turns a key into one: characters that cannot stand in an identifier are dropped and the next word
capitalised, reserved words are written with their first letter doubled, and a leading digit gets
an `n` in front.
-/

namespace DartData

namespace Text

/-- The first character in upper case, the rest as it is. -/
def capitalize : Text → Text
  | [] => []
  | c :: r => upperCase c ++ r

/-- Drops every `sep` and capitalises what follows it. -/
def camelCase (t : Text) (sep : Char) : Text :=
  match t.split sep with
  | [] => []
  | w :: ws => w ++ (ws.map capitalize).flatten

end Text

/-- Characters of map keys that cannot stand in an identifier, in the order they are dropped. -/
def keyPunctuation : List Char := ['-', '~', ':', '#', '$']

/-- The reserved words of Dart. -/
def reservedWords : List Text :=
  ["assert", "break", "case", "catch", "class", "const", "continue", "default", "do", "else",
   "enum", "extends", "false", "final", "finally", "for", "if", "in", "is", "new", "null",
   "rethrow", "return", "super", "switch", "this", "throw", "true", "try", "var", "void", "while",
   "with"].map String.toList

/-- A reserved word with its first letter doubled and the second one capital: `cClass`. -/
def dodgeReserved (t : Text) : Text :=
  if reservedWords.contains t then t.take 1 ++ t.capitalize else t

/-- An `n` in front of a leading digit. -/
def dodgeDigit (t : Text) : Text :=
  if t.head?.any isDigit then 'n' :: t else t

/-- The identifier that stands for a map key. -/
def variableName (key : Text) : Text :=
  dodgeDigit (dodgeReserved (keyPunctuation.foldl Text.camelCase key))

end DartData
