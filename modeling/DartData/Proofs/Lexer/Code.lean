import DartData.Brackets
import DartData.Field.Line
import DartData.Proofs.Text.Search

/-!
# The code of a line

The code that the lexer gives back of a line is taken from the line in order, so a bracket that is
counted stands in the line.
-/

namespace DartData

/-! ## §1. Code is taken from the line. -/

/-- The code is part of the line, in order. -/
theorem Lexer.run_sublist (t : Text) (s : Lexer) (skip : Nat) (before : Text) :
    ((s.run skip before t).1).Sublist t := by
  induction t generalizing s skip before with
  | nil => exact List.Sublist.refl _
  | cons c r ih =>
    cases skip with
    | succ k =>
      show ((s.run k (c :: before) r).1).Sublist (c :: r)
      exact (ih s k (c :: before)).cons c
    | zero =>
      unfold Lexer.run
      cases s.step before c r with
      | stop => exact List.nil_sublist _
      | take keep k next =>
        cases keep with
        | false => exact (ih next k (c :: before)).cons c
        | true => exact (ih next k (c :: before)).cons_cons c

theorem Lexer.feed_sublist (s : Lexer) (line : Text) : (s.feed line).1.Sublist line :=
  Lexer.run_sublist line s 0 []

/-! ## §2. Depths. -/

namespace Brackets

theorem feed_opened (b : Brackets) (line : Text) (h : b.opened) : (b.feed line).opened := by
  simp [feed, h]

theorem feed_curly_le {b : Brackets} {line : Text} (h : (b.feed line).opened = false) :
    (b.feed line).curly ≤ b.curly := by
  simp only [feed, Bool.or_eq_false_iff, bne_eq_false_iff_eq] at h ⊢
  omega

theorem brace_mem_of_feed_opened {b : Brackets} {line : Text} (h₀ : b.opened = false)
    (h : (b.feed line).opened) : '{' ∈ line := by
  simp only [feed, h₀, Bool.false_or, bne_iff_ne, ne_eq, countsOf, BracketCounts.ofCode] at h
  exact (b.lexer.feed_sublist line).subset (List.count_pos_iff.mp (Nat.pos_of_ne_zero h))

end Brackets

/-- A line with a curly bracket declares no field. -/
theorem isFieldLine_of_brace_mem {line : Text} (h : '{' ∈ line) (name : Option Text) (seen : Bool) :
    isFieldLine name seen line = false := by
  have hs : line.hasOneOf memberSymbols := by
    simp [Text.hasOneOf, memberSymbols, Text.has_singleton_iff, h]
  simp [isFieldLine, hs]

end DartData
