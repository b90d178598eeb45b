import DartData.Proofs.Text.Lines
import DartData.Proofs.Text.Trim

/-!
# Up to white space

Trimming takes nothing but blanks away, so a text and its trimmed form are the same up to white
space.  The last character of a trimmed text is the last one that is no blank.
-/

namespace DartData.Text

open List

/-! ## §1. What trimming takes away. -/

theorem exists_trimStart (t : Text) : ∃ b : Text, (∀ c ∈ b, isBlank c) ∧ t = b ++ t.trimStart :=
  ⟨t.takeWhile isBlank, all_eq_true.mp all_takeWhile,
    takeWhile_append_dropWhile.symm⟩

theorem exists_trimEnd (t : Text) : ∃ b : Text, (∀ c ∈ b, isBlank c) ∧ t = t.trimEnd ++ b := by
  refine ⟨(t.reverse.takeWhile isBlank).reverse, fun c hc => ?_, ?_⟩
  · exact all_eq_true.mp all_takeWhile c (mem_reverse.mp hc)
  · rw [trimEnd, ← reverse_append, takeWhile_append_dropWhile, reverse_reverse]

theorem exists_trim (t : Text) : ∃ a b : Text, (∀ c ∈ a, isBlank c)
    ∧ (∀ c ∈ b, isBlank c) ∧ t = a ++ (t.trim ++ b) := by
  obtain ⟨a, ha, hstart⟩ := exists_trimStart t
  obtain ⟨b, hb, hend⟩ := exists_trimEnd t.trimStart
  exact ⟨a, b, ha, hb, hstart.trans (congrArg (a ++ ·) hend)⟩

theorem trimEnd_last (t : Text) :
    t.trimEnd = [] ∨ ∃ i e, t.trimEnd = i ++ [e] ∧ isBlank e = false := by
  cases hr : t.reverse.dropWhile isBlank with
  | nil => exact .inl (by rw [trimEnd, hr]; rfl)
  | cons e r =>
    exact .inr ⟨r.reverse, e, by rw [trimEnd, hr, reverse_cons],
      not_blank_of_trimStart_eq_cons (t := t.reverse) hr⟩

theorem trimEnd_append_cons {c : Char} (hc : isBlank c = false) (u t : Text) :
    trimEnd (u ++ c :: t) = u ++ c :: t.trimEnd := by
  rw [trimEnd_append (by simp [allBlank, hc]), trimEnd_cons_of_not_blank hc]

variable {b t : Text} {d : Char}

theorem trim_append_blank (h : ∀ c ∈ b, isBlank c) (t : Text) : trim (t ++ b) = t.trim := by
  rw [trim, trim, trimStart, trimStart, dropWhile_append]
  split
  next hnil =>
    rw [List.isEmpty_iff.mp hnil, ← trimStart, trimStart_eq_nil_iff.mpr (all_eq_true.mpr h)]
  next => exact trimEnd_append_of_blank h _

/-! ## §2. White space. -/

theorem squeeze_eq_nil_iff : b.squeeze = [] ↔ ∀ c ∈ b, isBlank c := by
  simp [squeeze]

theorem squeeze_of_allBlank (h : b.allBlank) : b.squeeze = [] :=
  squeeze_eq_nil_iff.mpr (all_eq_true.mp h)

theorem squeeze_cons (hd : isBlank d = false) (t : Text) : squeeze (d :: t) = d :: t.squeeze := by
  simp [squeeze, hd]

theorem mem_squeeze : d ∈ t.squeeze ↔ d ∈ t ∧ isBlank d = false := by
  simp [squeeze]

/-- A text with one character that is no blank. -/
theorem exists_of_squeeze_eq_singleton {e : Char} (h : t.squeeze = [e]) :
    ∃ a b : Text, (∀ c ∈ a, isBlank c) ∧ (∀ c ∈ b, isBlank c) ∧ t = a ++ e :: b := by
  induction t with
  | nil => cases h
  | cons c r ih =>
    cases hc : isBlank c with
    | true =>
      have hr : squeeze (c :: r) = squeeze r := by simp [squeeze, hc]
      obtain ⟨a, b, ha, hb, hab⟩ := ih (hr.symm.trans h)
      refine ⟨c :: a, b, ?_, hb, by rw [hab, cons_append]⟩
      exact forall_mem_cons.mpr ⟨hc, ha⟩
    | false =>
      rw [squeeze_cons hc, List.cons.injEq] at h
      exact ⟨[], r, by simp, squeeze_eq_nil_iff.mp h.2, by rw [h.1]; rfl⟩

theorem squeeze_trimEnd (t : Text) : t.trimEnd.squeeze = t.squeeze := by
  obtain ⟨b, hb, ht⟩ := exists_trimEnd t
  conv => rhs; rw [ht, squeeze_append, squeeze_eq_nil_iff.mpr hb, append_nil]

theorem squeeze_trim (t : Text) : t.trim.squeeze = t.squeeze := by
  obtain ⟨a, b, ha, hb, ht⟩ := exists_trim t
  conv => rhs; rw [ht, squeeze_append, squeeze_append, squeeze_eq_nil_iff.mpr ha,
    squeeze_eq_nil_iff.mpr hb, append_nil, nil_append]

theorem mem_trimEnd (hd : isBlank d = false) (ht : d ∈ t) : d ∈ t.trimEnd := by
  have h := mem_squeeze.mpr ⟨ht, hd⟩
  rw [← squeeze_trimEnd] at h
  exact (mem_squeeze.mp h).1

theorem mem_trim (hd : isBlank d = false) (ht : d ∈ t) : d ∈ t.trim := by
  have h := mem_squeeze.mpr ⟨ht, hd⟩
  rw [← squeeze_trim] at h
  exact (mem_squeeze.mp h).1

theorem getLast?_trimEnd (t : Text) : t.trimEnd.getLast? = t.squeeze.getLast? := by
  rw [← squeeze_trimEnd]
  rcases trimEnd_last t with h | ⟨i, e, h, he⟩
  · rw [h]
    rfl
  · have hone : squeeze [e] = [e] := squeeze_cons he []
    rw [h, squeeze_append, hone, getLast?_concat, getLast?_concat]

end DartData.Text
