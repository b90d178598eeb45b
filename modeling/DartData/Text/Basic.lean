/-!
# Text

Source text is a list of characters, so that every operation on it is a recursion on its
characters and a law about it an induction.  This module holds the operations that ask for no
character class: looking for a piece of text, cutting at it, splitting at a character and joining
again, and the order by code points.
-/

namespace DartData

/-- A piece of source text. -/
abbrev Text := List Char

instance : Coe String Text := ⟨String.toList⟩

namespace Text

/-! ## §1. Looking for a piece of text. -/

/-- Whether `t` begins with `p`. -/
def startsWith (t p : Text) : Bool := p.isPrefixOf t

/-- Whether `t` ends with `s`. -/
def endsWith (t s : Text) : Bool := s.isSuffixOf t

/-- Whether `p` stands somewhere in `t`. -/
def has (t p : Text) : Bool :=
  match t with
  | [] => p.isEmpty
  | c :: r => p.isPrefixOf (c :: r) || has r p

/-- Whether `t` begins with one of the pieces. -/
def startsWithOneOf (t : Text) (ps : List Text) : Bool := ps.any t.startsWith

/-- Whether one of the pieces stands somewhere in `t`. -/
def hasOneOf (t : Text) (ps : List Text) : Bool := ps.any (t.has ·)

/-- Whether all of the pieces stand somewhere in `t`. -/
def hasAllOf (t : Text) (ps : List Text) : Bool := ps.all (t.has ·)

/-! ## §2. Cutting. -/

/-- What stands before and after the first occurrence of `p`. -/
def cut? (t p : Text) : Option (Text × Text) :=
  match t with
  | [] => if p.isEmpty then some ([], []) else none
  | c :: r =>
    if p.isPrefixOf (c :: r) then some ([], (c :: r).drop p.length)
    else (cut? r p).map fun (before, after) => (c :: before, after)

/-- What stands before the first occurrence of `p`, and all of `t` where there is none. -/
def before (t p : Text) : Text := ((t.cut? p).map Prod.fst).getD t

/-- What is left without the first occurrence of `p`. -/
def eraseFirst (t p : Text) : Text :=
  match t.cut? p with
  | some (before, after) => before ++ after
  | none => t

/-- What is left without any occurrence of `p`, occurrences being taken from the left.  The counter
    is the number of characters still to be skipped. -/
def eraseAll (t p : Text) : Text := go 0 t
where
  go : Nat → Text → Text
    | _, [] => []
    | k + 1, _ :: r => go k r
    | 0, c :: r => if p.isPrefixOf (c :: r) && !p.isEmpty then go (p.length - 1) r else c :: go 0 r

/-- What is left without the piece `e` at the end, if it stands there. -/
def removeEnd (t e : Text) : Text :=
  if t.endsWith e then t.take (t.length - e.length) else t

/-- What is left without the piece `s` at the start, if it stands there. -/
def removeStart (t s : Text) : Text :=
  if t.startsWith s then t.drop s.length else t

/-! ## §3. Splitting and joining. -/

/-- The pieces between the occurrences of `sep`; there is one more of them than separators. -/
def split (t : Text) (sep : Char) : List Text :=
  match t with
  | [] => [[]]
  | c :: r =>
    if c = sep then [] :: split r sep
    else match split r sep with
      | [] => [[c]]
      | w :: ws => (c :: w) :: ws

/-- Whether one of the words is a word of `t`, words being divided by single blanks. -/
def hasWordOf (t : Text) (ws : List Text) : Bool := ws.any ((t.split ' ').contains ·)

/-- The pieces with `sep` between them. -/
def join (sep : Text) (pieces : List Text) : Text := sep.intercalate pieces

/-- The pieces one after another. -/
def of (pieces : List Text) : Text := pieces.flatten

/-- The lines of a text.  A line ends at a line feed and at nothing else. -/
def lines (t : Text) : List Text := t.split '\n'

/-- The text with these lines. -/
def unlines (ls : List Text) : Text := join ['\n'] ls

/-- Every line that is not empty moved to the right by `margin`; each line ends with a line feed,
    the last one too. -/
def indentBy (margin t : Text) : Text :=
  (t.lines.map fun l => (if l.isEmpty then l else margin ++ l) ++ ['\n']).flatten

/-- Every line that is not empty moved to the right by two blanks. -/
def indent (t : Text) : Text := indentBy "  " t

/-! ## §4. The order by code points. -/

/-- The dictionary order by code points. -/
def le : Text → Text → Bool
  | [], _ => true
  | _ :: _, [] => false
  | a :: s, b :: t => if a = b then le s t else a < b

/-- Puts a text in its place among ordered ones. -/
def insertOrdered (t : Text) : List Text → List Text
  | [] => [t]
  | u :: us => if t.le u then t :: u :: us else u :: insertOrdered t us

/-- The texts in dictionary order. -/
def sort (ts : List Text) : List Text := ts.foldr insertOrdered []

/-! ## §5. Numbers as text. -/

/-- A whole number in decimal. -/
def ofInt (n : Int) : Text :=
  if n < 0 then '-' :: Nat.toDigits 10 n.natAbs else Nat.toDigits 10 n.natAbs

end Text

end DartData
