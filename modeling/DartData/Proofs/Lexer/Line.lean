import DartData.Proofs.Lexer.Code

/-!
# Lines that leave nothing open

Only three things run over the end of a line: a block comment, a literal with three quotes and an
interpolation.  After a line with no mark of any of them the lexer is in code again
(`Lexer.feed_of_endsOnLine`).
-/

namespace DartData

open List Text

/-- The line has no mark of what may run over the end of a line. -/
def Text.EndsOnLine (t : Text) : Prop :=
  t.hasOneOf ["/*", "\x27\x27\x27", "\x22\x22\x22", "$\x7b"] = false

instance (t : Text) : Decidable t.EndsOnLine := inferInstanceAs (Decidable (_ = _))

namespace Lexer

/-- In code, or in a literal that is over at the end of the line. -/
def OnLine (s : Lexer) : Prop :=
  s.holes = [] ∧ (s.mode = .code ∨ ∃ l, s.mode = .literal l ∧ l.triple = false)

section

variable {s : Lexer} {c : Char} {rest before : Text}

theorem endsOnLine_tail (h : EndsOnLine (c :: rest)) : EndsOnLine rest := by
  simp only [EndsOnLine, hasOneOf, any_eq_false] at h ⊢
  intro p hp hrest
  exact h p hp (has_iff.mpr ((has_iff.mp hrest).trans (suffix_cons c rest).isInfix))

theorem not_startsWith_of_endsOnLine {t : Text} (h : t.EndsOnLine) (q : Quote) :
    t.startsWith (replicate 3 q.char) = false := by
  rw [Bool.eq_false_iff]
  intro hs
  rw [EndsOnLine, hasOneOf, any_eq_false] at h
  refine h (replicate 3 q.char) (by cases q <;> decide) (has_iff.mpr ?_)
  exact (List.isPrefixOf_iff_prefix.mp hs).isInfix

/-- Nothing begins that goes over the line. -/
theorem not_pair_of_endsOnLine (h : EndsOnLine (c :: rest)) :
    ¬ (c = '/' ∧ rest.head? = some '*') ∧ ¬ (c = '$' ∧ rest.head? = some '{') := by
  rw [EndsOnLine, hasOneOf, any_eq_false] at h
  cases rest with
  | nil => simp
  | cons d rest =>
    constructor
    · rintro ⟨rfl, hd⟩
      obtain rfl : d = '*' := Option.some.inj hd
      exact h "/*" (by decide) (has_iff.mpr ⟨[], rest, rfl⟩)
    · rintro ⟨rfl, hd⟩
      obtain rfl : d = '{' := Option.some.inj hd
      exact h "$\x7b" (by decide) (has_iff.mpr ⟨[], rest, rfl⟩)

/-- What a move leads to. -/
def Move.To (P : Lexer → Prop) : Move → Prop
  | .stop => True
  | .take _ _ next => P next

theorem openLiteral_onLine (hs : s.holes = []) (q : Quote) (raw : Bool) (skip : Nat)
    (h : rest.EndsOnLine) : (s.openLiteral q raw skip rest).To OnLine := by
  rw [openLiteral, not_startsWith_of_endsOnLine h q, if_neg (by simp)]
  exact ⟨hs, .inr ⟨_, rfl, rfl⟩⟩

/-- In code the lexer stays on the line. -/
theorem codeStep_onLine (hs : s.holes = []) (hm : s.mode = .code) (h : EndsOnLine (c :: rest)) :
    (s.codeStep before c rest).To OnLine := by
  unfold codeStep
  split
  · trivial
  · split
    next hpair =>
      refine absurd ?_ (not_pair_of_endsOnLine h).1
      simpa using hpair
    · split
      · exact openLiteral_onLine hs _ _ _ (endsOnLine_tail h)
      · split
        · exact openLiteral_onLine hs _ _ _ h
        · exact ⟨hs, .inl hm⟩

/-- One step stays on the line. -/
theorem step_onLine (hs : s.OnLine) (h : EndsOnLine (c :: rest)) :
    (s.step before c rest).To OnLine := by
  obtain ⟨hholes, hm | ⟨l, hm, hl⟩⟩ := hs
  · unfold step
    rw [hm, hholes]
    exact codeStep_onLine hholes hm h
  · unfold step
    rw [hm]
    unfold literalStep
    dsimp only
    split
    · exact ⟨hholes, .inl rfl⟩
    · split
      next hpair =>
        refine absurd ?_ (not_pair_of_endsOnLine h).2
        simp only [Bool.and_eq_true, decide_eq_true_eq, beq_iff_eq] at hpair
        exact ⟨hpair.1.2, hpair.2⟩
      · exact ⟨hholes, .inr ⟨l, hm, hl⟩⟩

end

/-- So at the end of the line nothing is open. -/
theorem run_onLine (t : Text) (s : Lexer) (skip : Nat) (before : Text) (hs : s.OnLine)
    (h : t.EndsOnLine) : (s.run skip before t).2.OnLine := by
  induction t generalizing s skip before with
  | nil => exact hs
  | cons c r ih =>
    cases skip with
    | succ k => exact ih s k (c :: before) hs (endsOnLine_tail h)
    | zero =>
      have hstep : (s.step before c r).To OnLine := step_onLine hs h
      unfold run
      cases hmove : s.step before c r with
      | stop => exact hs
      | take keep k next =>
        rw [hmove] at hstep
        exact ih next k (c :: before) hstep (endsOnLine_tail h)

/-- **A line without these marks leaves nothing open.** -/
theorem feed_of_endsOnLine {line : Text} (h : line.EndsOnLine) : (feed {} line).2 = {} := by
  obtain ⟨hholes, hm⟩ := run_onLine line {} 0 [] ⟨rfl, .inl rfl⟩ h
  show (run {} 0 [] line).2.endLine = {}
  generalize (run {} 0 [] line).2 = s at hholes hm
  obtain ⟨mode, holes⟩ := s
  cases hholes
  rcases hm with hm | ⟨l, hm, hl⟩
  · cases hm
    rfl
  · cases hm
    simp [endLine, hl]

end Lexer

end DartData
