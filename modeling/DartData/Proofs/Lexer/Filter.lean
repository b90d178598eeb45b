import DartData.Lexer.Filter
import DartData.Proofs.Lexer.Line
import DartData.Proofs.Lexer.Segments
import Mathlib.Logic.Relation

/-!
# The stacks of the code filter

The filter keeps two stacks, which it pushes and pops in different branches of its loop, and pops
without looking whether there is anything to pop.  The lexer keeps one list of open interpolations.
Whatever is read, the filter is what the lexer is: its stacks are the two columns of that list
(`CodeFilter.ofLexer`), and a turn of its loop is a step of the lexer (`move_ofLexer`).  So nothing
that it asks for is missing.

Main statement, **`CodeFilter.callAll_sound`**: whatever lines are read and wherever the filter is
reset, no call fails; the stacks are as high as each other, every count is at least one and every
state to go back to is a string with interpolations, also at every turn inside of a line.
-/

namespace DartData

/-! ## §1. States of the filter and of the lexer. -/

namespace FilterState

/-- The state in the middle of a literal. -/
def ofLiteral : Literal → FilterState
  | ⟨.single, false, false⟩ => .single
  | ⟨.double, false, false⟩ => .double
  | ⟨.single, true, false⟩ => .tripleSingle
  | ⟨.double, true, false⟩ => .tripleDouble
  | ⟨.single, false, true⟩ => .rawSingle
  | ⟨.double, false, true⟩ => .rawDouble
  | ⟨.single, true, true⟩ => .rawTripleSingle
  | ⟨.double, true, true⟩ => .rawTripleDouble

/-- The state in a mode of the lexer. -/
def ofMode : Mode → FilterState
  | .code => .code
  | .comment => .comment
  | .literal l => ofLiteral l

/-- The strings with interpolations. -/
def plain : List FilterState := [.single, .double, .tripleSingle, .tripleDouble]

/-- The states that run over the end of a line. -/
def resting : List FilterState :=
  [.code, .comment, .tripleSingle, .tripleDouble, .rawTripleSingle, .rawTripleDouble]

theorem ofLiteral_ne (l : Literal) : ofLiteral l ≠ .code ∧ ofLiteral l ≠ .comment := by
  obtain ⟨q, triple, raw⟩ := l
  cases q <;> cases triple <;> cases raw <;> exact ⟨nofun, nofun⟩

theorem raw_ofLiteral (l : Literal) : raw.contains (ofLiteral l) = l.raw := by
  obtain ⟨q, triple, raw⟩ := l
  cases q <;> cases triple <;> cases raw <;> rfl

theorem ofLiteral_mem_plain {l : Literal} (h : l.raw = false) : ofLiteral l ∈ plain := by
  obtain ⟨q, triple, raw⟩ := l
  cases q <;> cases triple <;> cases h <;> decide

end FilterState

namespace CodeFilter

/-- Every string has its closer. -/
theorem closerOf_ofLiteral (l : Literal) : closerOf (.ofLiteral l) = .ok l.closer := by
  obtain ⟨q, triple, raw⟩ := l
  cases q <;> cases triple <;> cases raw <;> rfl

/-- The filter in the state of a lexer: the open interpolations make two stacks. -/
def ofLexer (s : Lexer) : CodeFilter where
  state := .ofMode s.mode
  braces := s.holes.map fun h => (h.depth : Int)
  returns := s.holes.map fun h => .ofLiteral h.resume

/-- The stacks are as high as each other, every interpolation has a brace to wait for, and goes back
    to one of the four strings that are not raw. -/
structure Sound (f : CodeFilter) : Prop where
  length_eq : f.braces.length = f.returns.length
  braces_pos : ∀ n ∈ f.braces, 1 ≤ n
  returns_plain : ∀ s ∈ f.returns, s ∈ FilterState.plain

/-- A filter between two lines: in code, in a comment, or in a string with three quotes. -/
structure Rests (f : CodeFilter) : Prop extends f.Sound where
  state_mem : f.state ∈ FilterState.resting

end CodeFilter

/-! ## §2. What a step leaves open. -/

namespace Lexer

/-- Every open interpolation has a brace to wait for, and goes back to a literal that is not raw. -/
def HolesOpen (s : Lexer) : Prop := ∀ h ∈ s.holes, 1 ≤ h.depth ∧ h.resume.raw = false

theorem holesOpen_init : HolesOpen {} := fun _ h => absurd h List.not_mem_nil

variable {s : Lexer}

theorem HolesOpen.sound (hs : s.HolesOpen) : (CodeFilter.ofLexer s).Sound where
  length_eq := by rw [CodeFilter.ofLexer, List.length_map, List.length_map]
  braces_pos := by
    intro n hn
    obtain ⟨h, hh, rfl⟩ := List.mem_map.mp hn
    have := (hs h hh).1
    omega
  returns_plain := by
    intro state hstate
    obtain ⟨h, hh, rfl⟩ := List.mem_map.mp hstate
    exact FilterState.ofLiteral_mem_plain (hs h hh).2

section

variable {before rest : Text} {c : Char}

/-- The rules for code leave the interpolations alone, their braces apart. -/
theorem codeStep_holes : (s.codeStep before c rest).To fun t => t.holes = s.holes := by
  have hopen : ∀ q raw k u, (s.openLiteral q raw k u).To fun t => t.holes = s.holes := by
    intro q raw k u
    unfold openLiteral
    split
    · rfl
    · rfl
  unfold codeStep
  split
  · trivial
  split
  · rfl
  split
  · exact hopen _ _ _ _
  split
  · exact hopen _ _ _ _
  · rfl

theorem Move.To.mono {P Q : Lexer → Prop} {m : Move} (h : m.To P) (hPQ : ∀ t, P t → Q t) :
    m.To Q := by
  cases m with
  | stop => trivial
  | take keep k next => exact hPQ next h

/-- **What one step does to the interpolations.**  It opens one in a literal that is not raw, counts
    a brace of the innermost one, or closes that one at its last brace. -/
theorem step_holesOpen (hs : s.HolesOpen) : (s.step before c rest).To HolesOpen := by
  obtain ⟨mode, holes⟩ := s
  cases mode with
  | comment =>
    unfold step
    dsimp only
    split
    · exact hs
    · exact hs
  | literal l =>
    show (literalStep ⟨.literal l, holes⟩ l before c rest).To HolesOpen
    unfold literalStep
    dsimp only
    split
    · exact hs
    split
    next hmark =>
      simp only [Bool.and_eq_true, Bool.not_eq_true'] at hmark
      exact List.forall_mem_cons.mpr ⟨⟨Nat.le_refl 1, hmark.1.1.1⟩, hs⟩
    · exact hs
  | code =>
    cases holes with
    | nil => exact codeStep_holes.mono fun t ht => by rw [HolesOpen, ht]; exact hs
    | cons h hs' =>
      obtain ⟨hh, hbelow⟩ := List.forall_mem_cons.mp hs
      unfold step
      dsimp only
      split
      · exact List.forall_mem_cons.mpr ⟨⟨Nat.succ_pos _, hh.2⟩, hbelow⟩
      split
      · split
        · exact hbelow
        · exact List.forall_mem_cons.mpr ⟨⟨by dsimp only; omega, hh.2⟩, hbelow⟩
      · exact codeStep_holes.mono fun t ht => by rw [HolesOpen, ht]; exact hs

end

theorem endLine_holes (s : Lexer) : s.endLine.holes = s.holes := by
  unfold endLine
  split
  · split
    · rfl
    · rfl
  · rfl

/-- The state of a lexer after a call. -/
def after (s : Lexer) : CodeFilter.Call → Lexer
  | .line l => (s.feed l).2
  | .reset => {}

end Lexer

/-! ## §3. A turn of the loop is a step of the lexer. -/

namespace CodeFilter

section

variable {text rest : Text} {i : Nat} {c : Char}

theorem drop_succ_of_drop (h : text.drop i = c :: rest) : text.drop (i + 1) = rest := by
  rw [← List.drop_drop, h, List.drop_succ_cons, List.drop_zero]

theorem getElem?_succ_of_drop (h : text.drop i = c :: rest) : text[i + 1]? = rest.head? := by
  rw [← List.head?_drop, drop_succ_of_drop h]

theorem slice_eq (h : text.drop i = rest) (p : Text) :
    (slice text i p.length == p) = rest.startsWith p := by
  rw [slice, h, Bool.eq_iff_iff, beq_iff_eq, Text.startsWith_iff, List.prefix_iff_eq_take, eq_comm]

/-- What stands in front of an index, backwards. -/
theorem reverse_take_succ (h : i < text.length) :
    (text.take (i + 1)).reverse = text[i] :: (text.take i).reverse := by
  rw [List.take_succ_eq_append_getElem h, List.reverse_concat]

theorem continuesWord_eq (h : i ≤ text.length) :
    continuesWord text i = Lexer.afterWord (text.take i).reverse := by
  cases i with
  | zero => rfl
  | succ i =>
    rw [continuesWord, Lexer.afterWord, reverse_take_succ h, Nat.add_sub_cancel,
      List.getElem?_eq_getElem h]
    rfl

theorem backslashes_eq (h : i ≤ text.length) :
    backslashes text i = ((text.take i).reverse.takeWhile (· == '\\')).length := by
  induction i with
  | zero => rfl
  | succ i ih =>
    rw [backslashes, reverse_take_succ h, List.getElem?_eq_getElem h, List.takeWhile_cons,
      ih (Nat.le_of_succ_le h)]
    by_cases hc : text[i] = '\\'
    · simp [hc]
    · simp [hc]

theorem isEscaped_eq (h : i ≤ text.length) :
    isEscaped text i = Lexer.escaped (text.take i).reverse := by
  rw [isEscaped, backslashes_eq h, Lexer.escaped]

/-- The move of the filter for a move of the lexer at a character. -/
def Move.ofLexer (c : Char) : Lexer.Move → Move
  | .stop => .leave
  | .take keep skip next => .go (CodeFilter.ofLexer next) (skip + 1) (if keep then [c] else [])

variable {s : Lexer}

theorem openMove_ofLexer {fromQuote : Text} {k : Nat} (h : text.drop (i + k) = fromQuote)
    (q : Quote) (raw : Bool) :
    (ofLexer s).openMove text i k q.char (.ofLiteral ⟨q, false, raw⟩) (.ofLiteral ⟨q, true, raw⟩)
      = .ofLexer c (s.openLiteral q raw k fromQuote) := by
  have hthree := slice_eq h (List.replicate 3 q.char)
  rw [List.length_replicate] at hthree
  rw [openMove, Lexer.openLiteral, hthree]
  split
  · rfl
  · rfl

theorem lt_length_of_drop (h : text.drop i = c :: rest) : i < text.length := by
  rw [← Nat.not_le, ← List.drop_eq_nil_iff, h]
  exact List.cons_ne_nil c rest

/-- Without one of the two quotes there is no quote. -/
theorem ofChar?_eq_none (hs : c ≠ '\x27') (hd : c ≠ '\x22') : Quote.ofChar? c = none := by
  rw [Quote.ofChar?, if_neg hs, if_neg hd]

/-- In code one test for each quote is one look whether there is a quote. -/
theorem codeMove_ofLexer (h : text.drop i = c :: rest) :
    (ofLexer s).codeMove text i c = .ofLexer c (s.codeStep (text.take i).reverse c rest) := by
  have hnext : text.drop (i + 1) = rest := drop_succ_of_drop h
  unfold codeMove Lexer.codeStep
  rw [getElem?_succ_of_drop h, continuesWord_eq (Nat.le_of_lt (lt_length_of_drop h))]
  split
  · rfl
  split
  · rfl
  split
  next hr =>
    simp only [Bool.and_eq_true, decide_eq_true_eq, beq_iff_eq] at hr
    rw [if_pos (by simp [hr]), hr.1.2]
    exact openMove_ofLexer hnext .single true
  next hsingle =>
    split
    next hr =>
      simp only [Bool.and_eq_true, decide_eq_true_eq, beq_iff_eq] at hr
      rw [if_pos (by simp [hr]), hr.1.2]
      exact openMove_ofLexer hnext .double true
    next hdouble =>
      have hnone : (if (decide (c = 'r') && !Lexer.afterWord (text.take i).reverse) = true
          then rest.head?.bind Quote.ofChar? else none) = none := by
        split
        next hr =>
          rw [Bool.and_eq_true, decide_eq_true_eq] at hr
          cases hhead : rest.head? with
          | none => rfl
          | some d =>
            refine ofChar?_eq_none ?_ ?_
            · rintro rfl
              exact hsingle (by simp [hhead, hr])
            · rintro rfl
              exact hdouble (by simp [hhead, hr])
        next => rfl
      rw [hnone]
      by_cases hs : c = '\x27'
      · subst hs
        exact openMove_ofLexer (i := i) (k := 0) h .single false
      by_cases hd : c = '\x22'
      · subst hd
        exact openMove_ofLexer (i := i) (k := 0) h .double false
      · rw [if_neg hs, if_neg hd, ofChar?_eq_none hs hd]
        rfl

/-- A count of braces is down to zero where the lexer is at the last brace. -/
theorem braceMove_ofLexer {hole : Hole} {holes : List Hole} (hpos : 1 ≤ hole.depth)
    (hc : c = '{' ∨ c = '}') (before rest : Text) :
    (ofLexer ⟨.code, hole :: holes⟩).braceMove c
      = .ok (.ofLexer c (Lexer.step ⟨.code, hole :: holes⟩ before c rest)) := by
  rcases hc with rfl | rfl
  · rfl
  · show (if (hole.depth : Int) + -1 = 0 then _ else _) = Except.ok (Move.ofLexer '}'
      (if hole.depth ≤ 1 then _ else _))
    by_cases hlast : hole.depth ≤ 1
    · rw [if_pos (by omega), if_pos hlast]
      rfl
    · have hdepth : (hole.depth : Int) + -1 = ((hole.depth - 1 : Nat) : Int) := by omega
      rw [if_neg (by omega), if_neg hlast, hdepth]
      rfl

theorem commentMove_ofLexer (holes : List Hole) (h : text.drop i = c :: rest) (before : Text) :
    (ofLexer ⟨.comment, holes⟩).commentMove text i c
      = .ofLexer c (Lexer.step ⟨.comment, holes⟩ before c rest) := by
  unfold commentMove Lexer.step
  rw [getElem?_succ_of_drop h]
  dsimp only
  split
  · rfl
  · rfl

/-- In a string the filter moves as the lexer does. -/
theorem stringMove_ofLexer (l : Literal) (holes : List Hole) (h : text.drop i = c :: rest) :
    (ofLexer ⟨.literal l, holes⟩).stringMove text i c
      = .ok (.ofLexer c (Lexer.literalStep ⟨.literal l, holes⟩ l (text.take i).reverse c
        rest)) := by
  have hlength : l.closer.length - 1 + 1 = l.closer.length := by
    rw [Literal.closer, List.length_replicate]
    split
    · rfl
    · rfl
  have hcloser : closerOf (ofLexer ⟨.literal l, holes⟩).state = .ok l.closer := closerOf_ofLiteral l
  have hraw : FilterState.raw.contains (ofLexer ⟨.literal l, holes⟩).state = l.raw :=
    FilterState.raw_ofLiteral l
  unfold stringMove Lexer.literalStep
  rw [hcloser, hraw, isEscaped_eq (Nat.le_of_lt (lt_length_of_drop h)), getElem?_succ_of_drop h]
  show (if l.raw then if (slice text i l.closer.length == l.closer) = true then _ else _
    else if (slice text i l.closer.length == l.closer && _) = true then _ else _) = _
  rw [slice_eq h]
  -- a raw literal ends at its closer, another one unless that is escaped
  cases l.raw with
  | true =>
    rw [if_pos rfl]
    dsimp only
    rw [Bool.true_or, Bool.and_true]
    split
    · rw [Move.ofLexer, hlength]
      rfl
    · rfl
  | false =>
    rw [if_neg Bool.false_ne_true]
    dsimp only
    rw [Bool.false_or, Bool.not_false, Bool.true_and]
    split
    · rw [Move.ofLexer, hlength]
      rfl
    · rw [Bool.and_comm (!_), Bool.and_right_comm]
      split
      · rfl
      · rfl

/-- **One character.**  Where nothing is wrong with the interpolations, the filter moves as the
    lexer does. -/
theorem move_ofLexer (hs : s.HolesOpen) (h : text.drop i = c :: rest) :
    (ofLexer s).move text i c = .ok (.ofLexer c (s.step (text.take i).reverse c rest)) := by
  obtain ⟨mode, holes⟩ := s
  cases mode with
  | comment =>
    have hstate : (ofLexer ⟨.comment, holes⟩).state = .comment := rfl
    rw [move, if_neg (by simp [hstate]), if_neg nofun, if_pos hstate, commentMove_ofLexer holes h]
  | literal l =>
    obtain ⟨hcode, hcomment⟩ := FilterState.ofLiteral_ne l
    rw [move, if_neg (by simp [ofLexer, FilterState.ofMode, hcode]), ofLexer, FilterState.ofMode]
    rw [if_neg hcode, if_neg hcomment]
    exact stringMove_ofLexer l holes h
  | code =>
    cases holes with
    | nil => exact congrArg Except.ok (codeMove_ofLexer h)
    | cons hole holes =>
      have hstate : (ofLexer ⟨.code, hole :: holes⟩).state = .code := rfl
      by_cases hc : c = '{' ∨ c = '}'
      · rw [move, if_pos (by simpa [ofLexer, FilterState.ofMode] using hc)]
        exact braceMove_ofLexer (hs hole List.mem_cons_self).1 hc _ rest
      · obtain ⟨hopens, hcloses⟩ := not_or.mp hc
        rw [move, if_neg (by simpa [ofLexer, FilterState.ofMode] using hc), if_pos hstate,
          codeMove_ofLexer h, Lexer.step]
        dsimp only
        rw [if_neg hopens, if_neg hcloses]

end

/-! ## §4. The loop over a line. -/

variable {s : Lexer} {text : Text} {p p' : Point}

/-- One turn after another leads from one point to another. -/
def Reaches (text : Text) : Point → Point → Prop :=
  Relation.ReflTransGen fun p p' => turn text p = .ok (some p')

/-- Skipping characters is to read on behind them. -/
theorem run_skip_eq (s : Lexer) (t : Text) (k : Nat) (before : Text) :
    s.run k before t = s.run 0 ((t.take k).reverse ++ before) (t.drop k) := by
  induction t generalizing k before with
  | nil => cases k <;> rfl
  | cons c t ih =>
    cases k with
    | zero => rfl
    | succ k =>
      rw [Lexer.run, ih, List.take_succ_cons, List.drop_succ_cons, List.reverse_cons,
        List.append_assoc]
      rfl

/-- The lexer is at the point, after it has read the line so far from the state `s`. -/
structure Point.On (p : Point) (s : Lexer) (text : Text) (here : Lexer) : Prop where
  filter_eq : p.filter = ofLexer here
  holesOpen : here.HolesOpen
  code_sublist : p.code.Sublist (text.take p.index)
  run_eq : s.run 0 [] text
    = Lexer.keeping p.code (here.run 0 (text.take p.index).reverse (text.drop p.index))

theorem Point.on_start (hs : s.HolesOpen) (text : Text) :
    Point.On { filter := ofLexer s } s text s :=
  ⟨rfl, hs, List.nil_sublist _, rfl⟩

/-- The turn at a character. -/
theorem turn_eq {c : Char} {rest : Text} (h : text.drop p.index = c :: rest) :
    turn text p = (p.filter.move text p.index c).map fun
      | .leave => none
      | .go next ahead kept =>
        some { filter := next, index := p.index + ahead, code := p.code ++ kept } := by
  have hc : charAt text p.index = .ok c := by
    rw [charAt, ← List.head?_drop, h]
    rfl
  rw [turn, if_pos (lt_length_of_drop h), hc]
  show (p.filter.move text p.index c).bind _ = _
  cases p.filter.move text p.index c with
  | error e => rfl
  | ok m => cases m <;> rfl

/-- **One turn of the loop.**  Nothing is missing.  Either the line has been read, or the lexer is
    at the next point. -/
theorem Point.On.turn {here : Lexer} (h : p.On s text here) :
    (turn text p = .ok none ∧ s.run 0 [] text = (p.code, here))
      ∨ ∃ p' there, turn text p = .ok (some p') ∧ p'.On s text there := by
  obtain ⟨hfilter, hopen, hcode, hrun⟩ := h
  cases hline : text.drop p.index with
  | nil =>
    have hend : text.length ≤ p.index := List.drop_eq_nil_iff.mp hline
    refine .inl ⟨by rw [CodeFilter.turn, if_neg (Nat.not_lt.mpr hend)]; rfl, ?_⟩
    rw [hrun, hline, Lexer.keeping, Lexer.run, List.append_nil]
  | cons c rest =>
    have hmove := move_ofLexer hopen hline
    rw [turn_eq hline, hfilter, hmove]
    cases hstep : here.step (text.take p.index).reverse c rest with
    | stop =>
      refine .inl ⟨rfl, ?_⟩
      rw [hrun, hline, Lexer.run, hstep, Lexer.keeping, List.append_nil]
    | take keep k next =>
      -- the characters up to the new index have been read
      have htake : text.take (p.index + (k + 1)) = text.take p.index ++ c :: rest.take k := by
        rw [List.take_add, hline, List.take_succ_cons]
      have hdrop : text.drop (p.index + (k + 1)) = rest.drop k := by
        rw [← List.drop_drop, hline, List.drop_succ_cons]
      have hnext : (Lexer.Move.take keep k next).To Lexer.HolesOpen :=
        hstep ▸ Lexer.step_holesOpen hopen
      refine .inr ⟨_, next, rfl, rfl, hnext, ?_, ?_⟩
      · dsimp only
        rw [htake]
        refine hcode.append ?_
        cases keep
        · exact List.nil_sublist _
        · exact (List.nil_sublist _).cons_cons c
      · dsimp only
        rw [hrun, hline, Lexer.run_cons hstep, run_skip_eq next rest k, Lexer.keeping_keeping,
          htake, hdrop, List.reverse_append, List.reverse_cons, List.append_assoc]
        rfl

theorem Point.On.reaches {here : Lexer} (h : p.On s text here) (hr : Reaches text p p') :
    ∃ there, p'.On s text there := by
  induction hr with
  | refl => exact ⟨here, h⟩
  | tail _ hnext ih =>
    obtain ⟨there, hthere⟩ := ih
    obtain ⟨hend, -⟩ | ⟨q, next, hq, hon⟩ := hthere.turn
    · rw [hend] at hnext
      cases hnext
    · rw [hq] at hnext
      cases hnext
      exact ⟨next, hon⟩

/-- The loop makes a turn and goes on. -/
theorem loop_eq (text : Text) (p : Point) : loop text p = (turn text p).bind fun
    | none => .ok p
    | some p' => loop text p' := by
  rw [loop]
  split
  next e hturn =>
    rw [hturn]
    rfl
  next hturn =>
    rw [hturn]
    rfl
  next p' hturn =>
    dsimp only
    rw [hturn]
    rfl

/-- The loop comes to its end, with what the lexer reads. -/
theorem Point.On.loop {here : Lexer} (h : p.On s text here) :
    ∃ p', CodeFilter.loop text p = .ok p' ∧ p'.On s text (s.run 0 [] text).2
      ∧ p'.code = (s.run 0 [] text).1 := by
  -- the index grows up to the end of the line
  induction hn : text.length - p.index using Nat.strongRecOn generalizing p here with
  | ind n ih =>
    rw [loop_eq]
    obtain ⟨hend, hrun⟩ | ⟨q, next, hq, hon⟩ := h.turn
    · rw [hend, hrun]
      exact ⟨p, rfl, h, rfl⟩
    · obtain ⟨hlt, hgrows⟩ := turn_index_lt hq
      rw [hq]
      exact ih (text.length - q.index) (by omega) hon rfl

/-- At the end of a line the filter ends what the lexer ends. -/
theorem endLine_ofLexer (s : Lexer) :
    { ofLexer s with state := if FilterState.lineBound.contains (ofLexer s).state then .code
        else (ofLexer s).state } = ofLexer s.endLine := by
  obtain ⟨mode, holes⟩ := s
  cases mode with
  | code => rfl
  | comment => rfl
  | literal l =>
    obtain ⟨q, triple, raw⟩ := l
    cases q <;> cases triple <;> cases raw <;> rfl

theorem endLine_state_mem (s : Lexer) : (ofLexer s.endLine).state ∈ FilterState.resting := by
  obtain ⟨mode, holes⟩ := s
  cases mode with
  | code => exact List.mem_cons_self
  | comment => exact List.mem_cons_of_mem _ List.mem_cons_self
  | literal l =>
    obtain ⟨q, triple, raw⟩ := l
    cases q <;> cases triple <;> cases raw <;> exact of_decide_eq_true rfl

/-! ## §5. Lines and resets. -/

/-- **One line.**  The filter gives the code that the lexer gives, and goes on as the lexer does. -/
theorem code_ofLexer (hs : s.HolesOpen) (text : Text) :
    (ofLexer s).code text = .ok ((s.feed text).1, ofLexer (s.feed text).2)
      ∧ (s.feed text).2.HolesOpen := by
  obtain ⟨p, hloop, hon, hcode⟩ := (Point.on_start hs text).loop
  have hfeed : s.feed text = ((s.run 0 [] text).1, (s.run 0 [] text).2.endLine) := rfl
  rw [hfeed]
  constructor
  · rw [code, hloop]
    show Except.ok (p.code, _) = _
    rw [hon.filter_eq, endLine_ofLexer, hcode]
  · rw [Lexer.HolesOpen, Lexer.endLine_holes]
    exact hon.holesOpen

theorem call_ofLexer (hs : s.HolesOpen) (c : Call) :
    (ofLexer s).call c = .ok (ofLexer (s.after c)) ∧ (s.after c).HolesOpen := by
  cases c with
  | reset => exact ⟨rfl, Lexer.holesOpen_init⟩
  | line l =>
    obtain ⟨hcode, hopen⟩ := code_ofLexer hs l
    exact ⟨by rw [call, hcode]; rfl, hopen⟩

/-- **All calls.**  The filter follows the lexer through lines and resets. -/
theorem callAll_ofLexer (hs : s.HolesOpen) (calls : List Call) :
    (ofLexer s).callAll calls = .ok (ofLexer (calls.foldl Lexer.after s))
      ∧ (calls.foldl Lexer.after s).HolesOpen := by
  induction calls generalizing s with
  | nil => exact ⟨rfl, hs⟩
  | cons c calls ih =>
    obtain ⟨hcall, hopen⟩ := call_ofLexer hs c
    rw [callAll, List.foldlM_cons, hcall]
    exact ih hopen

/-- Between two calls the filter rests. -/
theorem after_state_mem (calls : List Call) :
    (ofLexer (calls.foldl Lexer.after {})).state ∈ FilterState.resting := by
  obtain rfl | ⟨calls, c, rfl⟩ := calls.eq_nil_or_concat
  · exact List.mem_cons_self
  · rw [List.concat_eq_append, List.foldl_append, List.foldl_cons, List.foldl_nil]
    cases c with
    | reset => exact List.mem_cons_self
    | line l => exact endLine_state_mem _

/-- **The filter is always well formed.**  Lines and resets lead to a filter that stands between two
    lines: in code, in a comment or in a string with three quotes, its two stacks as high as each
    other, with counts of at least one and strings with interpolations to go back to.  From there
    every line can be read.  At every turn of the loop the stacks are as sound, nothing that the
    turn asks for is missing, the index grows, and the code so far is taken in order from what has
    been read. -/
theorem callAll_sound (calls : List Call) (text : Text) :
    ∃ f, callAll {} calls = .ok f ∧ f.Rests
      ∧ (∀ p, Reaches text { filter := f } p →
        p.filter.Sound ∧ p.code.Sublist (text.take p.index)
          ∧ (turn text p = .ok none
            ∨ ∃ p', turn text p = .ok (some p') ∧ p.index < p'.index))
      ∧ ∃ code g, f.code text = .ok (code, g) ∧ g.Rests ∧ code.Sublist text := by
  obtain ⟨hcalls, hopen⟩ := callAll_ofLexer Lexer.holesOpen_init calls
  obtain ⟨hcode, hopen'⟩ := code_ofLexer hopen text
  refine ⟨_, hcalls, ⟨hopen.sound, after_state_mem calls⟩, fun p hp => ?_, _, _, hcode,
    ⟨hopen'.sound, endLine_state_mem _⟩, Lexer.feed_sublist _ text⟩
  obtain ⟨here, hon⟩ := (Point.on_start hopen text).reaches hp
  refine ⟨hon.filter_eq ▸ hon.holesOpen.sound, hon.code_sublist, ?_⟩
  obtain ⟨hend, -⟩ | ⟨p', -, hp', -⟩ := hon.turn
  · exact .inl hend
  · exact .inr ⟨p', hp', (turn_index_lt hp').2⟩

/-- One interpolation inside of another, each open over the end of a line, after a comment that was
    given up.  Two braces close the inner one. -/
theorem callAll_sound_nested :
    let f : CodeFilter := ⟨.code, [2, 1], [.single, .tripleSingle]⟩
    let p : Point := { filter := ⟨.single, [1], [.tripleSingle]⟩, index := 2 }
    callAll {} [.line "/* a", .reset, .line "\x27\x27\x27a $\x7b f(\x27b $\x7bx", .line "\x7b y"]
        = .ok f
      ∧ Reaches "\x7d\x7d" { filter := f } p
      ∧ p.filter.Sound := by
  intro f p
  have hcalls : callAll {} [.line "/* a", .reset, .line "\x27\x27\x27a $\x7b f(\x27b $\x7bx",
      .line "\x7b y"] = .ok f :=
    (callAll_ofLexer Lexer.holesOpen_init _).1
  have hfirst : Reaches "\x7d\x7d" { filter := f }
      { filter := ⟨.code, [1, 1], [.single, .tripleSingle]⟩, index := 1 } := .single rfl
  have hreach : Reaches "\x7d\x7d" { filter := f } p := hfirst.tail rfl
  refine ⟨hcalls, hreach, ?_⟩
  obtain ⟨g, hg, -, hpoints, -⟩ := callAll_sound [.line "/* a", .reset,
    .line "\x27\x27\x27a $\x7b f(\x27b $\x7bx", .line "\x7b y"] "\x7d\x7d"
  obtain rfl : g = f := Except.ok.inj (hg.symm.trans hcalls)
  exact (hpoints p hreach).1

end CodeFilter

end DartData
