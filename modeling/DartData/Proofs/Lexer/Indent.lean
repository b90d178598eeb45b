import DartData.Proofs.Lexer.Marks

/-!
# Moving a text to the right

Blanks in front of a line are passed over in every state of the lexer, in code and inside of a
string that runs over several lines.  So the brackets of a text are where they were when its lines
are moved to the right.

`Text.ClosesBraced` says that a brace stands right before the round bracket that closes the first
one; moving the text leaves that as it is (`Text.closesBraced_indent`).
-/

namespace DartData

open List

/-! ## §1. Lines. -/

namespace Lexer

theorem neutral_blank {c : Char} (hc : isBlank c) : Neutral [c] := by
  intro d hd
  cases hd
  exact ⟨ne_of_isBlank hc (by decide), isAlphanumeric_of_isBlank hc, ne_of_isBlank hc (by decide)⟩

/-- A blank in front of a line, whatever the state. -/
theorem read_blank {c : Char} (hc : isBlank c) (s : Lexer) (l : Text) :
    (∃ keep, s.marks 0 [] (c :: l) = (c, keep) :: s.marks 0 [] l)
      ∧ (s.feed (c :: l)).2 = (s.feed l).2 := by
  obtain ⟨keep, hstep⟩ := step_blank hc s [] l
  -- a blank ends no word and escapes nothing, so the rest is read as if it stood first
  have hmarks : s.marks 0 [c] l = s.marks 0 [] l :=
    marks_congr (neutral_blank hc) neutral_nil l s 0 []
  have hrun : s.run 0 [c] l = s.run 0 [] l := run_congr (neutral_blank hc) neutral_nil l s 0 []
  refine ⟨⟨keep, ?_⟩, ?_⟩
  · rw [marks, hstep]
    simp only [hmarks]
  · rw [feed, feed, run, hstep]
    simp only [hrun]

/-- The margin of a line is marked in front of it. -/
theorem read_indentLine (s : Lexer) (l : Text) : (∃ m, (∀ x ∈ m, isBlank x.1)
      ∧ s.marks 0 [] (Text.indentLine l) = m ++ s.marks 0 [] l)
      ∧ (s.feed (Text.indentLine l)).2 = (s.feed l).2 := by
  unfold Text.indentLine
  split
  · exact ⟨⟨[], by simp, rfl⟩, rfl⟩
  · have hblank : isBlank ' ' := by decide
    obtain ⟨⟨k, hk⟩, hfeed⟩ := read_blank hblank s (' ' :: l)
    obtain ⟨⟨k', hk'⟩, hfeed'⟩ := read_blank hblank s l
    refine ⟨⟨[(' ', k), (' ', k')], by simp [hblank], ?_⟩, hfeed.trans hfeed'⟩
    exact hk.trans (congrArg _ hk')

end Lexer

/-! ## §2. A brace before the closing bracket. -/

namespace Text

/-- The round bracket that closes the first one of the code stands right after a brace. -/
def ClosesBraced (t : Text) : Prop :=
  ∃ u tail, t.afterParens = some tail ∧ t = u ++ '}' :: ')' :: tail

/-- The same, found from left to right: `braced` tells whether a brace has just been passed. -/
def bracedClose (braced : Bool) (depth : Nat) : List (Char × Bool) → Bool
  | [] => false
  | (c, isCode) :: r =>
    if isCode && c == '(' then bracedClose (c == '}') (depth + 1) r
    else if isCode && c == ')' then
      if depth = 1 then braced else bracedClose (c == '}') (depth - 1) r
    else bracedClose (c == '}') depth r

/-- The brace stands right in front of the closing bracket. -/
theorem bracedClose_iff (m : List (Char × Bool)) :
    ∀ {b : Bool} {d : Nat}, bracedClose b d m ↔ ∃ tail, afterClose d m = some tail
      ∧ ((b ∧ m.map Prod.fst = ')' :: tail)
        ∨ ∃ u, m.map Prod.fst = u ++ '}' :: ')' :: tail) := by
  induction m with
  | nil => simp [bracedClose, afterClose]
  | cons x r ih =>
    obtain ⟨c, isCode⟩ := x
    intro b d
    -- the bracket is not this character: then it may be the next one, or one further on
    have hnext : ∀ e, (bracedClose (c == '}') e r ↔ ∃ tail, afterClose e r = some tail
        ∧ ((b ∧ c :: r.map Prod.fst = ')' :: tail)
          ∨ ∃ u, c :: r.map Prod.fst = u ++ '}' :: ')' :: tail)) := by
      intro e
      rw [ih]
      refine exists_congr fun tail => and_congr_right fun htail => ?_
      have hfirst : ¬ (b ∧ c :: r.map Prod.fst = ')' :: tail) := by
        obtain ⟨u, hu⟩ := exists_of_afterClose r htail
        rintro ⟨-, heq⟩
        have hlen := congrArg length (hu.symm.trans (List.cons.inj heq).2)
        rw [length_append, length_cons] at hlen
        omega
      rw [beq_iff_eq, or_iff_right hfirst]
      constructor
      · rintro (⟨rfl, hr⟩ | ⟨u, hr⟩)
        · exact ⟨[], by rw [hr]; rfl⟩
        · exact ⟨c :: u, by rw [hr]; rfl⟩
      · rintro ⟨u, hu⟩
        cases u with
        | nil => exact .inl (List.cons.inj hu)
        | cons y u => exact .inr ⟨u, (List.cons.inj hu).2⟩
    rw [bracedClose, afterClose]
    split
    · exact hnext _
    · split
      next hclose =>
        split
        next =>
          rw [Bool.and_eq_true, beq_iff_eq] at hclose
          constructor
          · exact fun hb => ⟨_, rfl, .inl ⟨hb, by rw [← hclose.2]; rfl⟩⟩
          · rintro ⟨tail, htail, ⟨hb, -⟩ | ⟨u, hu⟩⟩
            · exact hb
            · have hlen := congrArg length hu
              rw [← Option.some.inj htail] at hlen
              simp only [map_cons, length_cons, length_append] at hlen
              omega
        next => exact hnext _
      next => exact hnext _

theorem closesBraced_iff (t : Text) : t.ClosesBraced ↔ bracedClose false 0 t.marked := by
  rw [bracedClose_iff, ClosesBraced, exists_comm, marked_text]
  refine exists_congr fun tail => ?_
  rw [exists_and_left]
  simp [afterParens]

instance (t : Text) : Decidable t.ClosesBraced := decidable_of_iff _ (closesBraced_iff t).symm

theorem bracedClose_blank {m : List (Char × Bool)} (hm : ∀ x ∈ m, isBlank x.1) (d : Nat)
    (r : List (Char × Bool)) : bracedClose false d (m ++ r) = bracedClose false d r := by
  induction m with
  | nil => rfl
  | cons x m ih =>
    have hx := hm x mem_cons_self
    have hne : ∀ e, isBlank e = false → (x.1 == e) = false := fun e he =>
      beq_eq_false_iff_ne.mpr (ne_of_isBlank hx he)
    rw [cons_append, bracedClose, hne '(' (by decide), hne ')' (by decide),
      hne '}' (by decide), Bool.and_false, if_neg Bool.false_ne_true, if_neg Bool.false_ne_true]
    exact ih (forall_mem_cons.mp hm).2

/-- Only how many brackets are open is known of the lines above. -/
theorem bracedClose_congr {r r' : List (Char × Bool)}
    (h : ∀ d, bracedClose false d r = bracedClose false d r') (m : List (Char × Bool)) (b : Bool)
    (d : Nat) :
    bracedClose b d (m ++ ('\n', false) :: r) = bracedClose b d (m ++ ('\n', false) :: r') := by
  induction m generalizing b d with
  | nil => exact h d
  | cons x m ih =>
    simp only [cons_append, bracedClose, ih]

theorem bracedClose_feed (m : List (Char × Bool)) (b : Bool) (d : Nat) :
    bracedClose b d (m ++ [('\n', false)]) = bracedClose b d m := by
  induction m generalizing b d with
  | nil => rfl
  | cons x m ih =>
    simp only [cons_append, bracedClose, ih]

/-- Moving lines to the right makes no difference. -/
theorem bracedClose_indentLines (ls : List Text) (s : Lexer) (d : Nat) :
    bracedClose false d (s.markLines (ls.map indentLine))
      = bracedClose false d (s.markLines ls) := by
  induction ls generalizing s d with
  | nil => rfl
  | cons l ls ih =>
    obtain ⟨⟨m, hm, hmarks⟩, hfeed⟩ := s.read_indentLine l
    cases ls with
    | nil =>
      show bracedClose false d (s.marks 0 [] (indentLine l)) = bracedClose false d (s.marks 0 [] l)
      rw [hmarks, bracedClose_blank hm]
    | cons l' ls =>
      show bracedClose false d (s.marks 0 [] (indentLine l)
          ++ ('\n', false) :: (s.feed (indentLine l)).2.markLines ((l' :: ls).map indentLine))
        = bracedClose false d (s.marks 0 [] l ++ ('\n', false) :: (s.feed l).2.markLines (l' :: ls))
      rw [hmarks, hfeed, append_assoc, bracedClose_blank hm]
      -- the state after the line is the same, and the line feed hides what stood before it
      exact bracedClose_congr (ih _) _ _ _

/-- **Moving a text to the right leaves its brackets where they are.** -/
theorem closesBraced_indent (t : Text) : t.indent.ClosesBraced ↔ t.ClosesBraced := by
  have hne : t.lines.map indentLine ≠ [] := by simpa using lines_ne_nil t
  have hfeed : ∀ l ∈ t.lines.map indentLine, '\n' ∉ l := by
    intro l hl
    obtain ⟨k, hk, rfl⟩ := mem_map.mp hl
    unfold indentLine
    split
    · exact not_mem_of_mem_lines hk
    · simpa using not_mem_of_mem_lines hk
  have hlines : t.indent.lines = t.lines.map indentLine ++ [[]] := by
    rw [indent_eq_endLines, endLines_eq_unlines hne, lines_append_line, lines_unlines hne hfeed]
    rfl
  have hmarked : t.indent.marked
      = Lexer.markLines {} (t.lines.map indentLine) ++ [('\n', false)] := by
    rw [marked, hlines, Lexer.markLines_append (by simp) _ _ hne]
    rfl
  rw [closesBraced_iff, closesBraced_iff, hmarked, bracedClose_feed, bracedClose_indentLines]
  rfl

end Text

end DartData
