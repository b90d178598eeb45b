import DartData.Identifier
import DartData.Proofs.Text.Lines

/-!
# Identifiers are not changed again

`variableName` turns a key into an identifier.  An identifier that it has made is left as it is: the
punctuation of keys is gone, and neither the upper case of a letter nor what is put in the place of
a reserved word brings it back.  Nor do these bring in a quote or a line feed that the key has not.
The texts that are left as they are, are those without punctuation of keys that are no reserved word
and do not begin with a digit (`variableName_normalizes`).
-/

namespace DartData

open List Text

/-! ## §1. Punctuation of keys. -/

theorem Char.ofNat_eq {n : Nat} {d : Char} (h : Char.ofNat n = d) (hd : d ≠ Char.ofNat 0) :
    n = d.toNat := by
  subst h
  by_cases hv : n.isValidChar
  · rw [Char.ofNat, dif_pos hv]
    rfl
  · have hnul : Char.ofNat n = Char.ofNat 0 := by
      rw [Char.ofNat, dif_neg hv]
      rfl
    exact absurd hnul hd

/-- The punctuation of keys, the quote of literals and the line feed. -/
def plainMarks : List Char := '\x27' :: '\n' :: keyPunctuation

theorem mem_plainMarks {d : Char} (h : d ∈ keyPunctuation) : d ∈ plainMarks :=
  mem_cons_of_mem _ (mem_cons_of_mem _ h)

/-- The upper case of a letter is no mark. -/
theorem eq_of_mem_upperCase {c d : Char} (hd : d ∈ plainMarks) (h : d ∈ upperCase c) : c = d := by
  have hnul : ∀ d ∈ plainMarks, d ≠ Char.ofNat 0 := forall_mem_of_all (by decide)
  -- the tables are looked through once for each mark
  have hascii : ∀ d ∈ plainMarks, ∀ n < 0x80,
      (Char.ofNat n).toUpper = d → Char.ofNat n = d := forall_mem_of_all (by decide +kernel)
  have hlone : ∀ letters ∈ loneLetters, letters.tail.all (!plainMarks.contains ·) = true :=
    all_eq_true.mp (by decide +kernel)
  have hruns : ∀ d ∈ plainMarks, ∀ r ∈ caseRuns,
      d.toNat < r.target ∨ r.target + (r.last - r.first) < d.toNat :=
    forall_mem_of_all (by decide +kernel)
  unfold upperCase at h
  split at h
  next hlt =>
    have hc := hascii d hd c.toNat hlt
    rw [Char.ofNat_toNat] at hc
    exact hc (mem_singleton.mp h).symm
  next =>
    split at h
    next letters hletters =>
      have hno := all_eq_true.mp (hlone letters (mem_of_find?_eq_some hletters)) d h
      exact absurd hd (by simpa using hno)
    next =>
      rw [mem_singleton] at h
      cases hr : caseRuns.findSome? (·.upper? c.toNat) with
      | none => simpa [hr] using h.symm
      | some m =>
        obtain ⟨r, hmem, hm⟩ := exists_of_findSome?_eq_some hr
        rw [hr] at h
        have hmd := Char.ofNat_eq (n := m) h.symm (hnul d hd)
        unfold CaseRun.upper? at hm
        split at hm
        next hin =>
          rw [Option.some.injEq] at hm
          have := hruns d hd r hmem
          omega
        next => simp at hm

namespace Text

variable {t : Text} {d sep : Char}

theorem camelCase_of_not_mem (h : sep ∉ t) : t.camelCase sep = t := by
  simp [camelCase, split_eq_singleton h]

theorem mem_of_mem_capitalize (hd : d ∈ plainMarks) (h : d ∈ t.capitalize) : d ∈ t := by
  cases t with
  | nil => exact h
  | cons c r =>
    rcases mem_append.mp h with hc | hr
    · exact eq_of_mem_upperCase hd hc ▸ mem_cons_self
    · exact mem_cons_of_mem _ hr

/-- A mark in the words put together stood in one of the words. -/
theorem mem_split_of_mem_camelCase (hd : d ∈ plainMarks) (h : d ∈ t.camelCase sep) :
    ∃ w ∈ t.split sep, d ∈ w := by
  unfold camelCase at h
  split at h
  next => simp at h
  next w ws hsplit =>
    rw [hsplit]
    rcases mem_append.mp h with hw | hws
    · exact ⟨w, mem_cons_self, hw⟩
    · obtain ⟨u, hu, hdu⟩ := mem_flatten.mp hws
      obtain ⟨v, hv, rfl⟩ := mem_map.mp hu
      exact ⟨v, mem_cons_of_mem _ hv, mem_of_mem_capitalize hd hdu⟩

theorem not_mem_camelCase_self (hsep : sep ∈ plainMarks) (t : Text) : sep ∉ t.camelCase sep := by
  intro h
  obtain ⟨w, hw, hmem⟩ := mem_split_of_mem_camelCase hsep h
  exact not_mem_of_mem_split hw hmem

theorem not_mem_camelCase (hd : d ∈ plainMarks) (h : d ∉ t) (sep : Char) : d ∉ t.camelCase sep := by
  intro hmem
  obtain ⟨w, hw, hdw⟩ := mem_split_of_mem_camelCase hd hmem
  exact h (mem_of_mem_split w hw d hdw)

theorem mem_capitalize (hup : upperCase d = [d]) (h : d ∈ t) : d ∈ t.capitalize := by
  cases t with
  | nil => exact h
  | cons c r =>
    rcases mem_cons.mp h with rfl | h
    · exact mem_append_left r (by rw [hup]; exact mem_singleton_self d)
    · exact mem_append_right _ h

/-- A character that is no letter stays where it is, unless it is the separator. -/
theorem mem_camelCase (hup : upperCase d = [d]) (hne : d ≠ sep) (h : d ∈ t) :
    d ∈ t.camelCase sep := by
  have hword : ∃ w ∈ t.split sep, d ∈ w := by
    rw [← join_split t sep] at h
    rcases mem_join h with hsep | hword
    · exact absurd (mem_singleton.mp hsep) hne
    · exact hword
  obtain ⟨w, hw, hd⟩ := hword
  unfold camelCase
  split
  next hnil => exact absurd hnil (split_ne_nil t sep)
  next v vs hsplit =>
    rw [hsplit] at hw
    rcases mem_cons.mp hw with rfl | hw
    · exact mem_append_left _ hd
    · exact mem_append_right _
        (mem_flatten.mpr ⟨w.capitalize, mem_map_of_mem hw, mem_capitalize hup hd⟩)

/-- A separator that is dropped at some point is not there at the end. -/
theorem not_mem_foldl_camelCase (hd : d ∈ plainMarks) :
    ∀ (seps : List Char) (t : Text), d ∈ seps ∨ d ∉ t → d ∉ seps.foldl camelCase t := by
  intro seps
  induction seps with
  | nil => simp
  | cons sep seps ih =>
    intro t h
    refine ih _ ?_
    rcases h with h | h
    · rcases mem_cons.mp h with rfl | h
      · exact .inr (not_mem_camelCase_self hd t)
      · exact .inl h
    · exact .inr (not_mem_camelCase hd h sep)

theorem foldl_camelCase_of_not_mem :
    ∀ seps : List Char, (∀ d ∈ seps, d ∉ t) → seps.foldl camelCase t = t := by
  intro seps h
  induction seps with
  | nil => rfl
  | cons sep seps ih =>
    rw [foldl_cons, camelCase_of_not_mem (h sep mem_cons_self)]
    exact ih (forall_mem_cons.mp h).2

end Text

/-! ## §2. Reserved words and digits. -/

variable {d : Char} {key t : Text}

theorem not_mem_dodgeReserved (hd : d ∈ plainMarks) (h : d ∉ t) : d ∉ dodgeReserved t := by
  unfold dodgeReserved
  split
  next =>
    intro hmem
    rcases mem_append.mp hmem with htake | hcap
    · exact h (mem_of_mem_take htake)
    · exact h (mem_of_mem_capitalize hd hcap)
  next => exact h

theorem not_mem_dodgeDigit (hd : d ∈ plainMarks) (h : d ∉ t) : d ∉ dodgeDigit t := by
  have hn : ∀ d ∈ plainMarks, d ≠ 'n' := forall_mem_of_all (by decide)
  unfold dodgeDigit
  split
  next => simpa [hn d hd] using h
  next => exact h

theorem not_reserved_dodgeReserved (t : Text) : dodgeReserved t ∉ reservedWords := by
  have hdouble : ∀ w ∈ reservedWords, w.take 1 ++ w.capitalize ∉ reservedWords := by decide +kernel
  unfold dodgeReserved
  split
  next h => exact hdouble t (by simpa using h)
  next h => simpa using h

theorem not_reserved_dodgeDigit (h : t ∉ reservedWords) : dodgeDigit t ∉ reservedWords := by
  have hlead : ∀ w ∈ reservedWords, (w.drop 1).head?.any isDigit = false := by decide +kernel
  unfold dodgeDigit
  split
  next hd =>
    intro hmem
    simpa [hd] using hlead _ hmem
  next => exact h

theorem head?_dodgeDigit (t : Text) : (dodgeDigit t).head?.any isDigit = false := by
  unfold dodgeDigit
  split
  next => rfl
  next h => simpa using h

theorem not_mem_variableName (hd : d ∈ plainMarks) (h : d ∉ key) : d ∉ variableName key :=
  not_mem_dodgeDigit hd
    (not_mem_dodgeReserved hd (not_mem_foldl_camelCase hd keyPunctuation key (.inr h)))

/-- A character that is no letter and no punctuation of keys is kept. -/
theorem mem_variableName (hup : upperCase d = [d]) (hd : d ∉ keyPunctuation) (h : d ∈ key) :
    d ∈ variableName key := by
  have hfold : ∀ (seps : List Char) (t : Text), d ∉ seps → d ∈ t → d ∈ seps.foldl camelCase t := by
    intro seps
    induction seps with
    | nil => exact fun t _ ht => ht
    | cons sep seps ih =>
      intro t hseps ht
      rw [mem_cons, not_or] at hseps
      exact ih _ hseps.2 (mem_camelCase hup hseps.1 ht)
  have hreserved : ∀ {t : Text}, d ∈ t → d ∈ dodgeReserved t := by
    intro t ht
    unfold dodgeReserved
    split
    · exact mem_append_right _ (mem_capitalize hup ht)
    · exact ht
  have hdigit : ∀ {t : Text}, d ∈ t → d ∈ dodgeDigit t := by
    intro t ht
    unfold dodgeDigit
    split
    · exact mem_cons_of_mem _ ht
    · exact ht
  exact hdigit (hreserved (hfold _ _ hd h))

/-! ## §3. Texts that stand for themselves. -/

/-- The text has no punctuation of keys, is no reserved word and does not begin with a digit. -/
structure IsVariable (t : Text) : Prop where
  no_punctuation : ∀ d ∈ keyPunctuation, d ∉ t
  not_reserved : t ∉ reservedWords
  no_digit : t.head?.any isDigit = false

/-- No step brings back what an earlier one has taken away. -/
theorem isVariable_variableName (key : Text) : IsVariable (variableName key) where
  no_punctuation := fun _ hd =>
    not_mem_dodgeDigit (mem_plainMarks hd) (not_mem_dodgeReserved (mem_plainMarks hd)
      (not_mem_foldl_camelCase (mem_plainMarks hd) keyPunctuation key (.inl hd)))
  not_reserved := not_reserved_dodgeDigit (not_reserved_dodgeReserved _)
  no_digit := head?_dodgeDigit _

theorem IsVariable.variableName_eq (h : IsVariable t) : variableName t = t :=
  calc variableName t
      = dodgeDigit (dodgeReserved t) := by
        rw [variableName, foldl_camelCase_of_not_mem keyPunctuation h.no_punctuation]
    _ = dodgeDigit t := by simp [dodgeReserved, h.not_reserved]
    _ = t := by simp [dodgeDigit, h.no_digit]

/-- An identifier stands for itself. -/
theorem variableName_variableName (key : Text) :
    variableName (variableName key) = variableName key :=
  (isVariable_variableName key).variableName_eq

/-- **Keys are taken to the texts that stand for themselves.**  What stands for a key has no
    punctuation of keys, is no reserved word, does not begin with a digit and stands for itself; and
    the keys that stand for themselves are all the texts of this form. -/
theorem variableName_normalizes (key : Text) :
    IsVariable (variableName key) ∧ variableName (variableName key) = variableName key
      ∧ (variableName key = key ↔ IsVariable key) := by
  refine ⟨isVariable_variableName key, variableName_variableName key, fun h => ?_,
    IsVariable.variableName_eq⟩
  exact h ▸ isVariable_variableName key

example : variableName "-class" = "Class"
    ∧ variableName "class-" = "cClass"
    ∧ variableName "-1st" = "n1st" := by decide +kernel

end DartData
