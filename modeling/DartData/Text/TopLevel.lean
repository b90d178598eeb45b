import DartData.Text.Blank

/-!
# Splitting at the top level

A list such as the parameters of a generic type is split only where no bracket is open.  Brackets
of all four shapes are counted together, and the arrow `=>` does not close one.
-/

namespace DartData.Text

/-- The pieces of `t` between separators that stand outside of brackets, untrimmed.  `depth` counts
    the open brackets and `last` is the character before `t`, if any. -/
def topLevelPieces (isSep : Char → Bool) (depth : Int) (last : Option Char) : Text → List Text
  | [] => [[]]
  | c :: r =>
    if c = '(' || c = '<' || c = '[' || c = '\x7b' then
      push c (topLevelPieces isSep (depth + 1) (some c) r)
    else if c = ')' || c = ']' || c = '\x7d' || (c = '>' && last != some '=') then
      push c (topLevelPieces isSep (depth - 1) (some c) r)
    else if isSep c && depth == 0 then
      [] :: topLevelPieces isSep depth (some c) r
    else
      push c (topLevelPieces isSep depth (some c) r)
where
  /-- Puts a character in front of the first piece. -/
  push (c : Char) : List Text → List Text
    | [] => [[c]]
    | w :: ws => (c :: w) :: ws

/-- Splits at the separators outside of brackets, trims the pieces and drops the empty ones. -/
def splitTopLevelBy (isSep : Char → Bool) (t : Text) : List Text :=
  ((topLevelPieces isSep 0 none t).map trim).filter fun p => !p.isEmpty

/-- The items of a comma-separated list, commas inside of brackets not counting. -/
def splitTopLevel (t : Text) : List Text := splitTopLevelBy (· == ',') t

end DartData.Text
