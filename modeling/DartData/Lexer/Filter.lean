import DartData.Lexer

/-!
# The code filter

The lexer as a loop over the indices of a line.  The filter is in one of ten states, and keeps two
stacks beside it that are pushed and popped each on its own: the braces that are open in every
interpolation, counted by integers, and the state that goes on after it.  What the loop asks for
need not be there: a character at an index, the top of a stack, the closer of a state.  Then the
reading ends with a `FilterFault`.

`CodeFilter.code` reads a line, `CodeFilter.turn` is the body of its loop.
-/

namespace DartData

/-! ## §1. States. -/

/-- What the filter is in the middle of: code, a comment, or a string by its quotes. -/
inductive FilterState where
  | code
  | comment
  | single
  | double
  | tripleSingle
  | tripleDouble
  | rawSingle
  | rawDouble
  | rawTripleSingle
  | rawTripleDouble
  deriving DecidableEq, Repr

namespace FilterState

/-- The strings that are over at the end of a line even if they were not closed. -/
def lineBound : List FilterState := [.single, .double, .rawSingle, .rawDouble]

/-- The strings without escapes and interpolation. -/
def raw : List FilterState := [.rawSingle, .rawDouble, .rawTripleSingle, .rawTripleDouble]

/-- What ends each kind of string. -/
def closers : List (FilterState × Text) :=
  [(.single, ['\x27']), (.double, ['\x22']),
   (.tripleSingle, List.replicate 3 '\x27'), (.tripleDouble, List.replicate 3 '\x22'),
   (.rawSingle, ['\x27']), (.rawDouble, ['\x22']),
   (.rawTripleSingle, List.replicate 3 '\x27'), (.rawTripleDouble, List.replicate 3 '\x22')]

end FilterState

/-- What is missing when the reading of a line breaks off. -/
inductive FilterFault where
  /-- The line has no character at the index. -/
  | noCharacter
  /-- The stack is empty. -/
  | emptyStack
  /-- The state has no closer. -/
  | noCloser
  deriving DecidableEq, Repr

/-- The state of the filter and its two stacks, whose tops come first. -/
structure CodeFilter where
  state : FilterState := .code
  /-- The braces that are open in each interpolation, its own included. -/
  braces : List Int := []
  /-- The states that go on after the interpolations. -/
  returns : List FilterState := []
  deriving DecidableEq, Repr

namespace CodeFilter

/-! ## §2. What may be missing. -/

/-- The character at an index. -/
def charAt (text : Text) (i : Nat) : Except FilterFault Char :=
  match text[i]? with
  | some c => .ok c
  | none => .error .noCharacter

/-- The stack with a number added to its top. -/
def addToTop (k : Int) : List Int → Except FilterFault (List Int)
  | [] => .error .emptyStack
  | n :: ns => .ok ((n + k) :: ns)

/-- The top of a stack, and the stack without it. -/
def pop {α : Type} : List α → Except FilterFault (α × List α)
  | [] => .error .emptyStack
  | a :: as => .ok (a, as)

/-- What ends a state. -/
def closerOf (s : FilterState) : Except FilterFault Text :=
  match FilterState.closers.lookup s with
  | some closer => .ok closer
  | none => .error .noCloser

/-! ## §3. One character. -/

/-- What the filter does at an index: leave the line, or go on in another state so many characters
    further, with the code that it keeps. -/
inductive Move where
  | leave
  | go (next : CodeFilter) (ahead : Nat) (kept : Text)
  deriving DecidableEq, Repr

/-- The characters of a line from an index on, as many of them as are asked for. -/
def slice (text : Text) (i count : Nat) : Text := (text.drop i).take count

/-- How many backslashes stand in front of an index without a gap. -/
def backslashes (text : Text) : Nat → Nat
  | 0 => 0
  | i + 1 => if text[i]? == some '\\' then backslashes text i + 1 else 0

/-- Whether the character at an index is escaped. -/
def isEscaped (text : Text) (i : Nat) : Bool := backslashes text i % 2 == 1

/-- Whether the character in front of an index continues a word. -/
def continuesWord (text : Text) (i : Nat) : Bool :=
  i > 0 && text[i - 1]?.any fun d => isAlphanumeric d || d == '_'

/-- At a brace in an interpolation.  The last closing one leads back to the string. -/
def braceMove (f : CodeFilter) (c : Char) : Except FilterFault Move := do
  if c = '{' then
    return .go { f with braces := ← addToTop 1 f.braces } 1 []
  else
    let braces ← addToTop (-1) f.braces
    let (count, below) ← pop braces
    if count = 0 then
      let (state, returns) ← pop f.returns
      return .go { state, braces := below, returns } 1 []
    else return .go { f with braces } 1 []

/-- At the quote `q`, `skip` characters after the index: three of them open another string than one
    does. -/
def openMove (f : CodeFilter) (text : Text) (i skip : Nat) (q : Char) (one three : FilterState) :
    Move :=
  if slice text (i + skip) 3 == List.replicate 3 q then .go { f with state := three } (skip + 3) []
  else .go { f with state := one } (skip + 1) []

/-- At a character of code. -/
def codeMove (f : CodeFilter) (text : Text) (i : Nat) (c : Char) : Move :=
  if c = '/' && text[i + 1]? == some '/' then .leave
  else if c = '/' && text[i + 1]? == some '*' then .go { f with state := .comment } 2 []
  else if c = 'r' && text[i + 1]? == some '\x27' && !continuesWord text i then
    f.openMove text i 1 '\x27' .rawSingle .rawTripleSingle
  else if c = 'r' && text[i + 1]? == some '\x22' && !continuesWord text i then
    f.openMove text i 1 '\x22' .rawDouble .rawTripleDouble
  else if c = '\x27' then f.openMove text i 0 '\x27' .single .tripleSingle
  else if c = '\x22' then f.openMove text i 0 '\x22' .double .tripleDouble
  else .go f 1 [c]

/-- At a character of a comment. -/
def commentMove (f : CodeFilter) (text : Text) (i : Nat) (c : Char) : Move :=
  if c = '*' && text[i + 1]? == some '/' then .go { f with state := .code } 2 []
  else .go f 1 []

/-- At a character of a string. -/
def stringMove (f : CodeFilter) (text : Text) (i : Nat) (c : Char) : Except FilterFault Move := do
  let closer ← closerOf f.state
  if FilterState.raw.contains f.state then
    if slice text i closer.length == closer then
      return .go { f with state := .code } closer.length []
    else return .go f 1 []
  else if slice text i closer.length == closer && !isEscaped text i then
    return .go { f with state := .code } closer.length []
  else if c = '$' && text[i + 1]? == some '{' && !isEscaped text i then
    return .go { state := .code, braces := 1 :: f.braces, returns := f.state :: f.returns } 2 []
  else return .go f 1 []

/-- At a character. -/
def move (f : CodeFilter) (text : Text) (i : Nat) (c : Char) : Except FilterFault Move :=
  if !f.braces.isEmpty && f.state == .code && (c = '{' || c = '}') then f.braceMove c
  else if f.state = .code then .ok (f.codeMove text i c)
  else if f.state = .comment then .ok (f.commentMove text i c)
  else f.stringMove text i c

/-! ## §4. One line. -/

/-- Where the loop is: the filter, the index and the code kept so far. -/
structure Point where
  filter : CodeFilter
  index : Nat := 0
  code : Text := []
  deriving DecidableEq, Repr

/-- A turn of the loop, unless the line is over or has been left. -/
def turn (text : Text) (p : Point) : Except FilterFault (Option Point) := do
  if p.index < text.length then
    match ← p.filter.move text p.index (← charAt text p.index) with
    | .leave => return none
    | .go next ahead kept =>
      return some { filter := next, index := p.index + ahead, code := p.code ++ kept }
  else return none

/-- The move goes ahead, if it goes on at all. -/
def Move.Advances : Move → Prop
  | .leave => True
  | .go _ ahead _ => 0 < ahead

/-- Every closer has a character. -/
theorem closerOf_length_pos {s : FilterState} {closer : Text} (h : closerOf s = .ok closer) :
    0 < closer.length := by
  cases s with
  | code => cases h
  | comment => cases h
  | single | double | tripleSingle | tripleDouble | rawSingle | rawDouble | rawTripleSingle
  | rawTripleDouble => cases h; decide

/-- A brace takes the filter on. -/
theorem braceMove_advances {f : CodeFilter} {c : Char} {m : Move} (h : f.braceMove c = .ok m) :
    m.Advances := by
  obtain ⟨state, braces, returns⟩ := f
  unfold braceMove at h
  cases braces with
  | nil => split at h <;> cases h
  | cons n ns =>
    split at h
    · cases h
      exact Nat.one_pos
    · simp only [addToTop, pop, bind, Except.bind] at h
      split at h
      · cases returns with
        | nil => cases h
        | cons s ss =>
          cases h
          exact Nat.one_pos
      · cases h
        exact Nat.one_pos

theorem openMove_advances (f : CodeFilter) (text : Text) (i skip : Nat) (q : Char)
    (one three : FilterState) : (f.openMove text i skip q one three).Advances := by
  unfold openMove
  split
  · exact Nat.succ_pos _
  · exact Nat.succ_pos _

theorem codeMove_advances (f : CodeFilter) (text : Text) (i : Nat) (c : Char) :
    (f.codeMove text i c).Advances := by
  unfold codeMove
  split
  · trivial
  split
  · exact Nat.two_pos
  iterate 4
    split
    · exact f.openMove_advances text i _ _ _ _
  exact Nat.one_pos

theorem commentMove_advances (f : CodeFilter) (text : Text) (i : Nat) (c : Char) :
    (f.commentMove text i c).Advances := by
  unfold commentMove
  split
  · exact Nat.two_pos
  · exact Nat.one_pos

/-- In a string the filter goes on. -/
theorem stringMove_advances {f : CodeFilter} {text : Text} {i : Nat} {c : Char} {m : Move}
    (h : f.stringMove text i c = .ok m) : m.Advances := by
  unfold stringMove at h
  cases hcloser : closerOf f.state with
  | error e => simp [hcloser, bind, Except.bind] at h
  | ok closer =>
    have hpos : 0 < closer.length := closerOf_length_pos hcloser
    simp only [hcloser, bind, Except.bind, pure, Except.pure] at h
    split at h
    · split at h <;> cases h
      · exact hpos
      · exact Nat.one_pos
    · split at h
      · cases h
        exact hpos
      · split at h <;> cases h
        · exact Nat.two_pos
        · exact Nat.one_pos

/-- **Every move that goes on goes ahead**, from every state and with every stacks. -/
theorem move_advances {f : CodeFilter} {text : Text} {i : Nat} {c : Char} {m : Move}
    (h : f.move text i c = .ok m) : m.Advances := by
  unfold move at h
  split at h
  · exact braceMove_advances h
  split at h
  · cases h
    exact f.codeMove_advances text i c
  split at h
  · cases h
    exact f.commentMove_advances text i c
  · exact stringMove_advances h

/-- A turn of the loop has a character to look at, and the index grows. -/
theorem turn_index_lt {text : Text} {p p' : Point} (h : turn text p = .ok (some p')) :
    p.index < text.length ∧ p.index < p'.index := by
  unfold turn at h
  split at h
  · next hlt =>
    refine ⟨hlt, ?_⟩
    cases hc : charAt text p.index with
    | error e => simp [hc, bind, Except.bind] at h
    | ok c =>
      cases hm : p.filter.move text p.index c with
      | error e => simp [hc, hm, bind, Except.bind] at h
      | ok m =>
        have hadvances : m.Advances := move_advances hm
        simp only [hc, hm, bind, Except.bind] at h
        cases m with
        | leave => cases h
        | go next ahead kept =>
          cases h
          exact Nat.lt_add_of_pos_right hadvances
  · cases h

/-- One turn after another, until the line is over or has been left. -/
def loop (text : Text) (p : Point) : Except FilterFault Point :=
  match hturn : turn text p with
  | .error e => .error e
  | .ok none => .ok p
  | .ok (some p') =>
    have := turn_index_lt hturn
    loop text p'
termination_by text.length - p.index

/-- Reads a line: its code, and the filter for the next line. -/
def code (f : CodeFilter) (text : Text) : Except FilterFault (Text × CodeFilter) := do
  let p ← loop text { filter := f }
  let state := if FilterState.lineBound.contains p.filter.state then .code else p.filter.state
  return (p.code, { p.filter with state })

/-! ## §5. Lines and resets. -/

/-- What can be asked of a filter: to read a line, or to start afresh. -/
inductive Call where
  | line (l : Text)
  | reset
  deriving DecidableEq, Repr

/-- The filter after a call. -/
def call (f : CodeFilter) : Call → Except FilterFault CodeFilter
  | .line l => Prod.snd <$> f.code l
  | .reset => .ok {}

/-- The filter after calls, one after another. -/
def callAll (f : CodeFilter) (calls : List Call) : Except FilterFault CodeFilter :=
  calls.foldlM call f

end CodeFilter

end DartData
