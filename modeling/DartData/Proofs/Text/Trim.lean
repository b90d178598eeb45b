import DartData.Text.Blank

/-!
# Trimming

A text that begins and ends with something else than a blank is not changed by trimming, and
blanks in front of it are all that trimming at the start takes away.
-/

namespace DartData.Text

open List

/-! ## §1. At the start. -/

@[simp] theorem trimStart_nil : trimStart [] = [] := rfl

variable {c : Char} {b r t : Text}

theorem trimStart_cons_of_blank (h : isBlank c) (t : Text) : trimStart (c :: t) = t.trimStart := by
  simp [trimStart, h]

theorem trimStart_cons_of_not_blank (h : isBlank c = false) (t : Text) :
    trimStart (c :: t) = c :: t := by
  simp [trimStart, h]

theorem trimStart_append_of_blank (h : ∀ c ∈ b, isBlank c) (t : Text) :
    trimStart (b ++ t) = t.trimStart :=
  dropWhile_append_of_pos h

theorem trimStart_eq_nil_iff : t.trimStart = [] ↔ t.allBlank := by
  unfold trimStart allBlank
  induction t with
  | nil => simp
  | cons c t ih => cases hc : isBlank c <;> simp [hc, ih]

theorem not_blank_of_trimStart_eq_cons (h : t.trimStart = c :: r) : isBlank c = false := by
  have := head_dropWhile_not (p := isBlank) (l := t)
    (by rw [show t.dropWhile isBlank = c :: r from h]; simp)
  simpa [show t.dropWhile isBlank = c :: r from h] using this

/-! ## §2. At the end. -/

@[simp] theorem trimEnd_nil : trimEnd [] = [] := rfl

theorem trimEnd_append_of_not_blank (h : isBlank c = false) (t : Text) :
    trimEnd (t ++ [c]) = t ++ [c] := by
  simp [trimEnd, h]

theorem trimEnd_append_of_blank (h : ∀ c ∈ b, isBlank c) (t : Text) :
    trimEnd (t ++ b) = t.trimEnd := by
  have hb : ∀ c ∈ b.reverse, isBlank c := fun c hc => h c (mem_reverse.mp hc)
  rw [trimEnd, trimEnd, reverse_append, dropWhile_append_of_pos hb]

/-- The blanks at the end are those of the last part, unless it is blank. -/
theorem trimEnd_append (h : t.allBlank = false) (u : Text) : (u ++ t).trimEnd = u ++ t.trimEnd := by
  have hne : t.reverse.dropWhile isBlank ≠ [] := by
    intro hnil
    have hall : allBlank t.reverse := trimStart_eq_nil_iff.mp hnil
    rw [allBlank, all_reverse, ← allBlank, h] at hall
    cases hall
  rw [trimEnd, trimEnd, reverse_append, dropWhile_append, if_neg (by simpa using hne),
    reverse_append, reverse_reverse]

theorem trimEnd_cons_of_not_blank (h : isBlank c = false) (t : Text) :
    trimEnd (c :: t) = c :: t.trimEnd := by
  unfold trimEnd
  rw [reverse_cons, dropWhile_append]
  split
  next he =>
    rw [List.isEmpty_iff] at he
    simp [he, h]
  next => simp

/-! ## §3. At both ends. -/

@[simp] theorem trim_nil : trim [] = [] := rfl

theorem trim_append_of_blank (h : ∀ c ∈ b, isBlank c) (t : Text) : trim (b ++ t) = t.trim := by
  rw [trim, trimStart_append_of_blank h, trim]

theorem trim_eq_self (hh : ∀ c, t.head? = some c → isBlank c = false)
    (hl : ∀ c, t.getLast? = some c → isBlank c = false) : t.trim = t := by
  cases t with
  | nil => rfl
  | cons c r =>
    rw [trim, trimStart_cons_of_not_blank (hh c rfl)]
    obtain ⟨i, d, he⟩ : ∃ i d, c :: r = i ++ [d] :=
      ⟨_, _, (dropLast_concat_getLast (cons_ne_nil c r)).symm⟩
    rw [he, trimEnd_append_of_not_blank (hl d (by rw [he]; simp))]

theorem head?_trim (h : t.trimStart = c :: r) : t.trim.head? = some c := by
  rw [trim, h, trimEnd_cons_of_not_blank (not_blank_of_trimStart_eq_cons h)]
  rfl

theorem trim_trim (t : Text) : t.trim.trim = t.trim := by
  refine trim_eq_self (fun c hc => ?_) fun c hc => ?_
  · cases hs : t.trimStart with
    | nil => simp [trim, hs] at hc
    | cons d r =>
      rw [head?_trim hs, Option.some.injEq] at hc
      exact hc ▸ not_blank_of_trimStart_eq_cons hs
  · have hlast : (t.trimStart.reverse.dropWhile isBlank).head? = some c := by
      rw [← hc, trim, trimEnd, getLast?_reverse]
    obtain ⟨r, hr⟩ := head?_eq_some_iff.mp hlast
    exact not_blank_of_trimStart_eq_cons (t := t.trimStart.reverse) hr

theorem trim_sublist (t : Text) : t.trim.Sublist t := by
  have hend : ∀ u : Text, u.trimEnd.Sublist u := fun u => by
    simpa [trimEnd] using (dropWhile_sublist isBlank (l := u.reverse)).reverse
  exact (hend t.trimStart).trans (dropWhile_sublist isBlank)

/-- A text of blanks only is empty after trimming, and only such a text. -/
theorem trim_eq_nil_iff : t.trim = [] ↔ t.allBlank := by
  constructor
  · intro h
    cases hs : t.trimStart with
    | nil => exact trimStart_eq_nil_iff.mp hs
    | cons c r =>
      have := head?_trim hs
      simp [h] at this
  · intro h
    rw [trim, trimStart_eq_nil_iff.mpr h, trimEnd_nil]

theorem allBlank_trim (t : Text) : t.trim.allBlank = t.allBlank := by
  rw [Bool.eq_iff_iff, ← trim_eq_nil_iff, ← trim_eq_nil_iff, trim_trim]

end DartData.Text
