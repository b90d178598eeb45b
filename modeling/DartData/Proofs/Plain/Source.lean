import DartData.Proofs.Lexer.Reads
import DartData.Proofs.Text.Lines
import DartData.Proofs.Text.Trim

/-!
# Plain data classes

The form in which data classes are written before anything is generated for them: a class line,
one final field a line, and a closing brace, with nothing but blank lines around the classes.  The
types of fields are names with type arguments, and a field has a name that is an identifier of its
own.  Such texts are values of `PlainFile`; `PlainFile.print` is their text.
-/

namespace DartData

open List

/-! ## §1. Identifiers. -/

/-- A character of an identifier. -/
def isWord (c : Char) : Bool := c.isAlphanum || c == '_' || c == '$'

/-- Whether a text is an identifier in ASCII. -/
def isIdentifier (t : Text) : Bool := t.head?.any (fun c => !c.isDigit) && t.all isWord

variable {c : Char} {t : Text}

theorem isWord_of_isUpper (h : c.isUpper) : isWord c := by
  show ((((c.isUpper || c.isLower) || c.isDigit) || c == '_') || c == '$')
  rw [h]
  rfl

/-- The characters of words. -/
theorem toNat_of_isWord (h : isWord c) :
    c.toNat = 36 ∨ (48 ≤ c.toNat ∧ c.toNat ≤ 57) ∨ (65 ≤ c.toNat ∧ c.toNat ≤ 90) ∨ c.toNat = 95
      ∨ (97 ≤ c.toNat ∧ c.toNat ≤ 122) := by
  delta isWord Char.isAlphanum Char.isAlpha Char.isUpper Char.isLower Char.isDigit at h
  simp only [Bool.or_eq_true, Bool.and_eq_true, decide_eq_true_eq, beq_iff_eq, ge_iff_le,
    UInt32.le_iff_toNat_le] at h
  rcases h with (((h | h) | h) | h) | h
  · exact .inr (.inr (.inl h))
  · exact .inr (.inr (.inr (.inr h)))
  · exact .inr (.inl h)
  · subst h
    decide
  · subst h
    decide

theorem isBlank_of_isWord (h : isWord c) : isBlank c = false := by
  have hn := toNat_of_isWord h
  simp only [isBlank, Bool.or_eq_false_iff, Bool.and_eq_false_iff, decide_eq_false_iff_not,
    beq_eq_false_iff_ne]
  omega

theorem all_isWord_of_isIdentifier (h : isIdentifier t) : t.all isWord := by
  rw [isIdentifier, Bool.and_eq_true] at h
  exact h.2

theorem ne_nil_of_isIdentifier (h : isIdentifier t) : t ≠ [] := by
  rintro rfl
  simp [isIdentifier] at h

/-! ## §2. Words of a text. -/

namespace Text

variable {t u : Text} {sep : Char}

/-- What is put after a text without blanks goes on with its last word. -/
theorem split_append_of_not_mem (hu : sep ∉ u) (a : Text) :
    ∃ ws w, a.split sep = ws ++ [w] ∧ (a ++ u).split sep = ws ++ [w ++ u] := by
  induction a with
  | nil => exact ⟨[], [], rfl, by simpa using split_eq_singleton hu⟩
  | cons c a ih =>
    obtain ⟨ws, w, ha, hau⟩ := ih
    by_cases hc : c = sep
    · subst hc
      exact ⟨[] :: ws, w, by simp [ha], by simp [hau]⟩
    · cases ws with
      | nil =>
        exact ⟨[], c :: w, split_cons_of_ne hc ha, split_cons_of_ne hc hau⟩
      | cons x xs =>
        exact ⟨(c :: x) :: xs, w, split_cons_of_ne hc ha, split_cons_of_ne hc hau⟩

/-- What is put before a text without blanks goes into its first word. -/
theorem split_prepend_of_not_mem (hu : sep ∉ u) {a w : Text} {ws : List Text}
    (ha : a.split sep = w :: ws) : (u ++ a).split sep = (u ++ w) :: ws := by
  induction u with
  | nil => exact ha
  | cons c u ih =>
    rw [mem_cons, not_or] at hu
    exact split_cons_of_ne (Ne.symm hu.1) (ih hu.2)

/-- All words of the text have a character. -/
def NoGap (t : Text) : Prop := ∀ w ∈ t.split ' ', w ≠ []

theorem NoGap.append (ht : t.NoGap) (hu : ' ' ∉ u) : (t ++ u).NoGap := by
  obtain ⟨ws, w, hs, hsu⟩ := split_append_of_not_mem hu t
  intro x hx
  rw [hsu, mem_append, mem_singleton] at hx
  rcases hx with hx | rfl
  · exact ht x (by simp [hs, hx])
  · have hw : w ≠ [] := ht w (by simp [hs])
    simp [hw]

theorem NoGap.prepend (ht : t.NoGap) (hu : ' ' ∉ u) : (u ++ t).NoGap := by
  cases hs : t.split ' ' with
  | nil => exact absurd hs (split_ne_nil t ' ')
  | cons w ws =>
    intro x hx
    rw [split_prepend_of_not_mem hu hs, mem_cons] at hx
    rcases hx with rfl | hx
    · have hw : w ≠ [] := ht w (by simp [hs])
      simp [hw]
    · exact ht x (by simp [hs, hx])

theorem noGap_of_not_mem (h : ' ' ∉ t) (hne : t ≠ []) : t.NoGap := by
  intro w hw
  rw [split_eq_singleton h, mem_singleton] at hw
  exact hw ▸ hne

/-- Joined types have no gaps. -/
theorem noGap_join {ts : List Text} (hne : ts ≠ []) (h : ∀ t ∈ ts, NoGap t) :
    NoGap (join ", " ts) := by
  induction ts with
  | nil => exact absurd rfl hne
  | cons t ts ih =>
    cases ts with
    | nil => simpa using h t mem_cons_self
    | cons u us =>
      have ht : NoGap (t ++ [',']) := (h t mem_cons_self).append (by decide)
      have hus := ih (by simp) fun x hx => h x (mem_cons_of_mem _ hx)
      have heq : join ", " (t :: u :: us) = (t ++ [',']) ++ ' ' :: join ", " (u :: us) := by
        rw [join_cons_cons]
        simp
      intro w hw
      rw [heq, split_append_sep, mem_append] at hw
      rcases hw with hw | hw
      · exact ht w hw
      · exact hus w hw

end Text
/-! ## §3. Types. -/

/-- A type: a name, type arguments if there are any, and a question mark or none. -/
inductive IsType : Text → Prop
  | name {n m : Text} (hn : isIdentifier n = true) (hm : m = [] ∨ m = ['?']) : IsType (n ++ m)
  | generic {n m : Text} {args : List Text} (hn : isIdentifier n = true) (hm : m = [] ∨ m = ['?'])
      (hne : args ≠ []) (ha : ∀ a ∈ args, IsType a) :
      IsType (n ++ '<' :: (Text.join ", " args ++ '>' :: m))

/-- A character of a type. -/
def isTypeChar (c : Char) : Bool := isWord c || ['<', '>', ',', ' ', '?'].contains c

theorem isTypeChar_of_isWord {c : Char} (h : isWord c) : isTypeChar c := by
  simp [isTypeChar, h]

namespace IsType

theorem mark_cases {m : Text} (hm : m = [] ∨ m = ['?']) : ' ' ∉ m ∧ ∀ c ∈ m, isTypeChar c := by
  rcases hm with rfl | rfl
  · simp
  · exact ⟨by decide, all_eq_true.mp (by decide)⟩

/-- The characters of types. -/
theorem all_isTypeChar {t : Text} (h : IsType t) : ∀ c ∈ t, isTypeChar c := by
  have hword : ∀ {n : Text}, isIdentifier n → ∀ c ∈ n, isTypeChar c :=
    fun hn c hc => isTypeChar_of_isWord (all_eq_true.mp (all_isWord_of_isIdentifier hn) c hc)
  have hsep : ∀ c ∈ ", ".toList, isTypeChar c := List.all_eq_true.mp (by decide)
  induction h with
  | name hn hm =>
    intro c hc
    rcases mem_append.mp hc with hc | hc
    · exact hword hn c hc
    · exact (mark_cases hm).2 c hc
  | generic hn hm hne ha ih =>
    intro c hc
    simp only [mem_append, mem_cons] at hc
    rcases hc with hc | rfl | hc | rfl | hc
    · exact hword hn c hc
    · decide
    · rcases Text.mem_join hc with hc | ⟨a, hmem, hc⟩
      · exact hsep c hc
      · exact ih a hmem c hc
    · decide
    · exact (mark_cases hm).2 c hc

theorem noGap {t : Text} (h : IsType t) : t.NoGap := by
  have hword : ∀ {n : Text}, isIdentifier n → ' ' ∉ n :=
    fun hn => Text.not_mem_of_all (all_isWord_of_isIdentifier hn) (by decide)
  induction h with
  | name hn hm =>
    exact (Text.noGap_of_not_mem (hword hn) (ne_nil_of_isIdentifier hn)).append (mark_cases hm).1
  | @generic n m args hn hm hne ha ih =>
    have hargs : Text.NoGap (Text.join ", " args ++ '>' :: m) :=
      (Text.noGap_join hne ih).append (by simp [(mark_cases hm).1])
    have := hargs.prepend (u := n ++ ['<']) (by simp [hword hn])
    simpa using this

theorem ne_nil {t : Text} (h : IsType t) : t ≠ [] := by
  cases h with
  | name hn hm => simp [ne_nil_of_isIdentifier hn]
  | generic hn hm hne ha => simp

end IsType

/-! ## §4. Fields, classes and files. -/

/-- The words that are no type of a field. -/
def nonTypes : List Text := memberKeywords ++ ["final".toList, "late".toList, "const".toList]

/-- A final field with a plain type and a name that needs no change. -/
structure PlainField where
  type : Text
  name : Text
  isType : IsType type
  type_words : type.hasWordOf nonTypes = false
  isName : isIdentifier name = true
  lower : name.head?.any (fun c => c.isLower || c == '_') = true
  variable_eq : variableName name = name
  not_required : name.has "required" = false

/-- The line that declares the field. -/
def PlainField.line (f : PlainField) : Text := Text.of ["  final ", f.type, " ", f.name, ";"]

/-- A class of plain fields. -/
structure PlainClass where
  name : Text
  fields : List PlainField
  isName : isIdentifier name = true
  upper : name.head?.any Char.isUpper = true
  fields_ne : fields ≠ []
  distinct : (fields.map PlainField.name).Nodup

/-- The lines of the class. -/
def PlainClass.lines (c : PlainClass) : List Text :=
  Text.of ["class ", c.name, " \x7b"] :: c.fields.map PlainField.line ++ [['}']]

/-- A line between classes. -/
def isGap (line : Text) : Bool := line.allBlank && !line.contains '\n'

/-- Plain classes, with blank lines above them, between them and after them. -/
structure PlainFile where
  above : List Text
  /-- The classes, each with the lines that follow it. -/
  classes : List (PlainClass × List Text)
  above_blank : ∀ l ∈ above, isGap l = true
  between_blank : ∀ c ∈ classes, ∀ l ∈ c.2, isGap l = true
  classes_ne : classes ≠ []

/-- The text of the file. -/
def PlainFile.print (p : PlainFile) : Text :=
  Text.unlines (p.above ++ p.classes.flatMap fun c => c.1.lines ++ c.2)

end DartData
