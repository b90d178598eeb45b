import DartData.Text.Alphanumeric
import DartData.Text.Basic

/-!
# The lexer

A line-fed lexer for Dart.  Block comments and triple-quoted strings run over several lines, so
the lexer keeps its state between lines.  What it gives back of a line is the code alone: comments
and the contents of strings are left out, except for the code inside of an interpolation, which
comes without its braces.  So a brace in a string does not count as a bracket.

`Lexer.feed` reads a line, and `Lexer.step` is the rule for one character.
-/

namespace DartData

/-! ## §1. States. -/

/-- The two quotes of Dart. -/
inductive Quote where
  | single
  | double
  deriving DecidableEq, Repr

/-- The character of a quote. -/
def Quote.char : Quote → Char
  | .single => '\x27'
  | .double => '\x22'

/-- The quote that a character is. -/
def Quote.ofChar? (c : Char) : Option Quote :=
  if c = '\x27' then some .single else if c = '\x22' then some .double else none

/-- A kind of string literal: its quote, whether the quote is written three times, and whether the
    literal is raw, that is without escapes and interpolation. -/
structure Literal where
  quote : Quote
  triple : Bool
  raw : Bool
  deriving DecidableEq, Repr

/-- What ends a literal. -/
def Literal.closer (l : Literal) : Text := List.replicate (if l.triple then 3 else 1) l.quote.char

/-- What the lexer is in the middle of. -/
inductive Mode where
  | code
  | comment
  | literal (l : Literal)
  deriving DecidableEq, Repr

/-- An open interpolation: the number of braces open in it, its own included, and the literal that
    goes on after it. -/
structure Hole where
  depth : Nat
  resume : Literal
  deriving DecidableEq, Repr

/-- The state of the lexer; the innermost interpolation comes first. -/
structure Lexer where
  mode : Mode := .code
  holes : List Hole := []
  deriving DecidableEq, Repr

namespace Lexer

/-! ## §2. One character. -/

/-- What the lexer does at a character: stop reading the line, or take the character, keep it as
    code or not, skip some characters after it and go on in another state. -/
inductive Move where
  | stop
  | take (keep : Bool) (skip : Nat) (next : Lexer)

/-- Whether a character stands after an odd number of backslashes; `before` is what stands in front
    of it, backwards. -/
def escaped (before : Text) : Bool := (before.takeWhile (· == '\\')).length % 2 == 1

/-- Whether the character in front continues a word. -/
def afterWord (before : Text) : Bool := before.head?.any fun p => isAlphanumeric p || p == '_'

/-- The move at a quote that opens a literal, `skip` characters of which have still to be passed
    in the form with one quote. -/
def openLiteral (s : Lexer) (q : Quote) (raw : Bool) (skip : Nat) (fromQuote : Text) : Move :=
  if fromQuote.startsWith (List.replicate 3 q.char) then
    .take false (skip + 2) { s with mode := .literal ⟨q, true, raw⟩ }
  else .take false skip { s with mode := .literal ⟨q, false, raw⟩ }

/-- The move in code, braces of an interpolation apart. -/
def codeStep (s : Lexer) (before : Text) (c : Char) (rest : Text) : Move :=
  if c = '/' && rest.head? == some '/' then .stop
  else if c = '/' && rest.head? == some '*' then .take false 1 { s with mode := .comment }
  else match (if c = 'r' && !afterWord before then rest.head?.bind Quote.ofChar? else none) with
    | some q => openLiteral s q true 1 rest
    | none => match Quote.ofChar? c with
      | some q => openLiteral s q false 0 (c :: rest)
      | none => .take true 0 s

/-- The move inside of a literal. -/
def literalStep (s : Lexer) (l : Literal) (before : Text) (c : Char) (rest : Text) : Move :=
  let plain := l.raw || !escaped before
  if Text.startsWith (c :: rest) l.closer && plain then
    .take false (l.closer.length - 1) { s with mode := .code }
  else if !l.raw && plain && c = '$' && rest.head? == some '{' then
    .take false 1 { mode := .code, holes := ⟨1, l⟩ :: s.holes }
  else .take false 0 s

/-- The move at the character `c`, with `before` in front of it (backwards) and `rest` after it. -/
def step (s : Lexer) (before : Text) (c : Char) (rest : Text) : Move :=
  match s.mode, s.holes with
  | .code, [] => s.codeStep before c rest
  | .code, h :: hs =>
    if c = '{' then .take false 0 { s with holes := { h with depth := h.depth + 1 } :: hs }
    else if c = '}' then
      if h.depth ≤ 1 then .take false 0 { mode := .literal h.resume, holes := hs }
      else .take false 0 { s with holes := { h with depth := h.depth - 1 } :: hs }
    else s.codeStep before c rest
  | .comment, _ =>
    if c = '*' && rest.head? == some '/' then .take false 1 { s with mode := .code }
    else .take false 0 s
  | .literal l, _ => s.literalStep l before c rest

/-! ## §3. One line. -/

/-- Reads the rest of a line: its code and the state after its last character.  `skip` characters
    are passed over first; `before` is what has been read of the line, backwards. -/
def run (s : Lexer) (skip : Nat) (before : Text) : Text → Text × Lexer
  | [] => ([], s)
  | c :: rest =>
    match skip with
    | k + 1 => run s k (c :: before) rest
    | 0 =>
      match s.step before c rest with
      | .stop => ([], s)
      | .take keep k next =>
        let (code, last) := run next k (c :: before) rest
        (if keep then c :: code else code, last)

/-- At the end of a line, a literal with single quotes is over even if it was not closed. -/
def endLine (s : Lexer) : Lexer :=
  match s.mode with
  | .literal l => if l.triple then s else { s with mode := .code }
  | _ => s

/-- Reads a line: its code, and the state in which the next line is read. -/
def feed (s : Lexer) (line : Text) : Text × Lexer :=
  let (code, last) := s.run 0 [] line
  (code, last.endLine)

end Lexer

end DartData
