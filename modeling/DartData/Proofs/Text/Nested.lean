import DartData.Proofs.Declaration.Words

/-!
# Items of a list

An item is a text in which every bracket closes the one that was opened last and no comma stands
outside of brackets.  The arrow `=>` is no bracket.  An item is not divided (`endDepth?_nested`).
-/

namespace DartData

namespace Text

/-- Whether every bracket closes the one that was opened last and no comma stands outside of
    brackets.  `expected` are the closing brackets of those that are open, the innermost first, and
    `last` is the character in front of the text. -/
def nestedFrom (expected : List Char) (last : Option Char) : Text → Bool
  | [] => expected.isEmpty
  | c :: r =>
    match closerOf? c with
    | some d => nestedFrom (d :: expected) (some c) r
    | none =>
      if closes last c then expected.head? == some c && nestedFrom expected.tail (some c) r
      else !(c == ',' && expected.isEmpty) && nestedFrom expected (some c) r

variable {c : Char}

/-- What a character does in a nested text: it opens a bracket, closes the last one, or is no
    bracket and no comma outside of all. -/
theorem nestedFrom_cons {expected : List Char} {last : Option Char} {r : Text}
    (h : nestedFrom expected last (c :: r)) :
    (∃ d, closerOf? c = some d ∧ nestedFrom (d :: expected) (some c) r)
      ∨ (closerOf? c = none ∧ closes last c
        ∧ ∃ outer, expected = c :: outer ∧ nestedFrom outer (some c) r)
      ∨ (closerOf? c = none ∧ closes last c = false ∧ (c ≠ ',' ∨ expected ≠ [])
        ∧ nestedFrom expected (some c) r) := by
  unfold nestedFrom at h
  cases hc : closerOf? c with
  | some d => exact .inl ⟨d, rfl, by simpa [hc] using h⟩
  | none =>
    rw [hc] at h
    dsimp only at h
    cases hd : closes last c with
    | false =>
      rw [hd, if_neg (by decide), Bool.and_eq_true, Bool.not_eq_true', Bool.and_eq_false_iff,
        beq_eq_false_iff_ne, List.isEmpty_eq_false_iff] at h
      exact .inr (.inr ⟨rfl, rfl, h⟩)
    | true =>
      rw [hd, if_pos rfl, Bool.and_eq_true, beq_iff_eq] at h
      obtain ⟨outer, houter⟩ := List.head?_eq_some_iff.mp h.1
      rw [houter, List.tail_cons] at h
      exact .inr (.inl ⟨rfl, rfl, outer, houter, h.2⟩)

theorem isFlatItem_of_isWord (h : isWord c) : isFlatItem c :=
  isFlatItem_of_class h (by decide)

/-- An item is not divided: the depth is the number of brackets that are expected. -/
theorem endDepth?_nested (t : Text) {expected : List Char} {last : Option Char}
    (h : nestedFrom expected last t) :
    endDepth? (expected.length : Int) last t = some 0 := by
  induction t generalizing expected last with
  | nil =>
    rw [List.isEmpty_iff.mp h]
    rfl
  | cons c r ih =>
    rw [endDepth?]
    rcases nestedFrom_cons h with ⟨d, ho, hr⟩ | ⟨ho, hc, outer, rfl, hr⟩ | ⟨ho, hc, hsep, hr⟩
    · rw [if_neg (by rintro ⟨rfl, -⟩; cases ho)]
      simpa [depthAfter, ho] using ih hr
    · rw [if_neg (by simp; omega)]
      simpa [depthAfter, ho, hc] using ih hr
    · rw [if_neg fun h => hsep.elim (absurd h.1) fun hne => hne (by simpa using h.2)]
      simpa [depthAfter, ho, hc] using ih hr

end Text

end DartData
