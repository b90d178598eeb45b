import DartData.Generation.Plan
import DartData.Proofs.Identifier
import DartData.Proofs.Member.Expression
import DartData.Proofs.Plain.Line

/-!
# Pieces of generated members

The expressions that members are written with, for fields whose types are written with the
characters of types: each of them is read as code, on one line, and opens as many curly brackets as
it closes.  Round brackets are counted along, as an expression that reads an element of a collection
may close one too many.
-/

namespace DartData

open List

/-! ## §1. Regular fields. -/

/-- What a name must not have to stand in a literal as it is. -/
def literalMarks : Text := ['\x27', '\\', '{', '@', '\n', '/']

namespace Field

/-- The type of the elements has no other characters than the type itself, or is `dynamic`. -/
theorem forall_mem_elementType {p : Char → Bool} (hp : "dynamic".toList.all p) {f : Field}
    (h : ∀ c ∈ f.rawType, p c) (k : Collection) : ∀ c ∈ f.elementType k, p c := by
  unfold elementType
  split
  · exact all_eq_true.mp hp
  · intro c hc
    exact h c (((Text.eraseFirst_sublist _ _).trans (Text.eraseFirst_sublist _ _)).subset hc)

/-- A field whose type has the characters of types, and whose name is a word. -/
structure Regular (f : Field) : Prop where
  type_chars : ∀ c ∈ f.rawType, isRawTypeChar c = true
  name_word : f.name.all isWord = true

namespace Regular

variable {f : Field}

theorem mem_type (h : f.Regular) : ∀ c ∈ f.type, isRawTypeChar c := fun c hc =>
  h.type_chars c ((Text.removeEnd_sublist _ _).subset hc)

theorem mem_elementType (h : f.Regular) : ∀ c ∈ f.element.type, isRawTypeChar c := by
  have hholding : ∀ k, ∀ c ∈ (f.holding (f.elementType k)).type, isRawTypeChar c :=
    fun k c hc => forall_mem_elementType (by decide) h.type_chars k c
      ((Text.removeEnd_sublist _ _).subset hc)
  unfold element
  split
  · exact hholding .set
  split
  · exact hholding .list
  · exact h.mem_type

/-- What cannot stand in the name cannot stand in the name as written either. -/
theorem not_mem_sourceName (h : f.Regular) : ∀ d ∈ literalMarks, d ∉ f.sourceName := by
  have hall : ∀ d ∈ literalMarks, upperCase d = [d] ∧ d ∉ keyPunctuation ∧ isWord d = false :=
    Text.forall_mem_of_all (by decide)
  intro d hd hmem
  obtain ⟨hup, hmark, hword⟩ := hall d hd
  exact Text.not_mem_of_all h.name_word hword (mem_variableName hup hmark hmem)

end Regular

end Field

theorem PlainField.regular_field (f : PlainField) (n : Int) : (f.field n).Regular where
  type_chars := fun c hc => isRawTypeChar_of_isTypeChar (f.isType.all_isTypeChar c hc)
  name_word := f.name_field n ▸ all_isWord_of_isIdentifier f.isName

/-! ## §2. Legible pieces. -/

namespace Text

/-- A piece of one line with `k` more curly brackets opened than closed, and `j` more round ones. -/
structure Legible (t : Text) (k j : Int) : Prop extends Tame t k where
  round : Adds '(' ')' t j

variable {t u w : Text} {ts : List Text} {i j k l : Int}

theorem Legible.append (ht : Legible t k i) (hu : Legible u l j) :
    Legible (t ++ u) (k + l) (i + j) :=
  ⟨ht.toTame.append hu.toTame, ht.round.append hu.round⟩

theorem Legible.and (ht : Legible t 0 0) (hu : Legible u 0 0) : Legible (t ++ u) 0 0 := ht.append hu

theorem adds_of_isTame (h : t.all isTame) : Adds '(' ')' t t.rounds := by
  refine adds_code (all_eq_true.mpr fun c hc => ?_) '(' ')'
  have hc := all_eq_true.mp h c hc
  simp only [isTame, Bool.and_eq_true] at hc
  exact hc.1.1

theorem legible_code (h : (t.all isTame && ((t.count '{' : Int) - t.count '}' == k)))
    (hj : t.rounds = j) : Legible t k j :=
  ⟨tame_code h, hj ▸ adds_of_isTame (Bool.and_eq_true_iff.mp h).1⟩

theorem legible_nil : Legible [] 0 0 := legible_code rfl rfl

theorem legible_flat (h : ∀ c ∈ t, isRawTypeChar c) : Legible t 0 0 := by
  have hflat : ∀ c ∈ t, isFlat c := fun c hc => isFlat_of_isRawTypeChar (h c hc)
  have hround : t.rounds = 0 := by
    rw [rounds, count_eq_zero.mpr fun hm => absurd (h _ hm) (by decide),
      count_eq_zero.mpr fun hm => absurd (h _ hm) (by decide)]
    rfl
  refine ⟨tame_flat hflat, hround ▸ adds_of_isTame (all_eq_true.mpr fun c hc => ?_)⟩
  have hc := hflat c hc
  simp only [isFlat, Bool.and_eq_true] at hc
  exact hc.1.1

theorem legible_word (h : t.all isWord) : Legible t 0 0 :=
  legible_flat fun c hc => isRawTypeChar_of_isWord (all_eq_true.mp h c hc)

theorem quotable_of_not_mem (h : ∀ d ∈ literalMarks, d ∉ w) : w.all isQuotable := by
  refine all_eq_true.mpr fun c hc => ?_
  have hne : ∀ d ∈ literalMarks, c ≠ d := fun d hd he => h d hd (he ▸ hc)
  simp only [literalMarks, mem_cons, not_mem_nil, or_false, forall_eq_or_imp,
    forall_eq] at hne
  simp [isQuotable, Lexer.isInert, hne]

theorem quotable_word (h : w.all isWord) : w.all isQuotable := by
  have hall : ∀ d ∈ literalMarks, isWord d = false := forall_mem_of_all (by decide)
  exact quotable_of_not_mem fun d hd => not_mem_of_all h (hall d hd)

/-- A literal after a blank or a square bracket. -/
theorem legible_quoted {d : Char} (hd : d = ' ' ∨ d = '[') (hw : w.all isQuotable) :
    Legible (Lexer.quoted d w) 0 0 := by
  have hinert : w.all Lexer.isInert := by
    rw [all_eq_true] at hw ⊢
    intro c hc
    have hc := hw c hc
    simp only [isQuotable, Bool.and_eq_true] at hc
    exact hc.1.1.1
  refine ⟨tame_quoted hd hw, ?_⟩
  rcases hd with rfl | rfl
  · exact adds_quoted (by decide) (by decide) (by decide) (by decide) hinert
  · exact adds_quoted (by decide) (by decide) (by decide) (by decide) hinert

theorem legible_last (ht : t.isPlainCode) (h0 : t.rounds = 0) (hw : w.all isQuotable) :
    Legible (t ++ (Lexer.quoted ' ' w ++ [')'])) 0 (-1) := by
  have hclose : Legible [')'] 0 (-1) := legible_code rfl rfl
  exact (legible_code ht h0).append ((legible_quoted (.inl rfl) hw).append hclose)

theorem Legible.cons (ht : Legible t 0 i) (hts : Legible (of ts) k j) :
    Legible (of (t :: ts)) k (i + j) := by
  have hsum : Legible (of (t :: ts)) (0 + k) (i + j) := ht.append hts
  rwa [Int.zero_add] at hsum

theorem Legible.text (ht : t.isPlainCode) (hts : Legible (of ts) k j) :
    Legible (of (t :: ts)) k (t.rounds + j) := .cons (legible_code ht rfl) hts

theorem Legible.nil : Legible (of []) 0 0 := legible_nil

theorem Legible.weigh (ht : Legible t k i) (hij : i = j) : Legible t k j := hij ▸ ht

/-- What holds of pieces put together holds of pieces joined. -/
theorem forall_join {P : Text → Prop} (hnil : P []) (happend : ∀ {t u}, P t → P u → P (t ++ u))
    {sep : Text} (hsep : P sep) (h : ∀ t ∈ ts, P t) : P (join sep ts) := by
  induction ts with
  | nil => exact join_nil sep ▸ hnil
  | cons t ts ih =>
    have ht := h t mem_cons_self
    have hts := ih fun u hu => h u (mem_cons_of_mem _ hu)
    cases ts with
    | nil => exact (join_singleton sep t).symm ▸ ht
    | cons u us =>
      rw [join_cons_cons]
      exact happend (happend ht hsep) hts

end Text

/-! ## §3. Expressions. -/

open Text

/-- **Expressions for a regular field are legible**, whatever entries they have. -/
theorem Field.Regular.measures {f : Field} (h : f.Regular) :
    Member.Measures (fun _ j t => Legible t 0 j) f where
  append := .append
  code := legible_code
  icon := legible_last (t := ", fontFamily:") (w := "MaterialIcons") rfl rfl rfl
  empty := legible_last (t := " ??") (w := []) rfl rfl rfl
  type := legible_flat h.mem_type
  elementType := legible_flat h.mem_elementType
  name := legible_word h.name_word
  entry := by
    have heq : Member.mapEntry f = "map" ++ (Lexer.quoted '[' f.sourceName ++ [']']) := by
      simp [Member.mapEntry, of, Lexer.quoted]
    rw [heq]
    exact (legible_code rfl rfl).and ((legible_quoted (.inr rfl)
      (quotable_of_not_mem h.not_mem_sourceName)).and (legible_code rfl rfl))

end DartData
