import DartData.Lexer

/-!
# Bracket depth

The depth of curly and round brackets over a sequence of lines, counted in code only.
-/

namespace DartData

/-- How many brackets of each kind the code of a line has. -/
structure BracketCounts where
  curlyOpen : Nat
  curlyClose : Nat
  parenOpen : Nat
  parenClose : Nat
  deriving DecidableEq, Repr

/-- The brackets of a piece of code. -/
def BracketCounts.ofCode (code : Text) : BracketCounts :=
  { curlyOpen := code.count '{', curlyClose := code.count '}',
    parenOpen := code.count '(', parenClose := code.count ')' }

/-- The state of the lexer and the depths after some lines.  `opened` tells whether any curly
    bracket was opened, so that a declaration spread over several lines is not taken for a class
    with an empty body. -/
structure Brackets where
  lexer : Lexer := {}
  curly : Int := 0
  paren : Int := 0
  opened : Bool := false
  deriving DecidableEq, Repr

namespace Brackets

/-- The brackets that the next line has. -/
def countsOf (b : Brackets) (line : Text) : BracketCounts := .ofCode (b.lexer.feed line).1

/-- The depths after the next line. -/
def feed (b : Brackets) (line : Text) : Brackets :=
  let n := b.countsOf line
  { lexer := (b.lexer.feed line).2,
    curly := b.curly + n.curlyOpen - n.curlyClose,
    paren := b.paren + n.parenOpen - n.parenClose,
    opened := b.opened || n.curlyOpen != 0 }

/-- Whether a body was opened and is complete. -/
def closed (b : Brackets) : Bool := b.opened && b.curly == 0

end Brackets

end DartData
