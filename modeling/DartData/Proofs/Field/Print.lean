import DartData.Proofs.Plain.Source
import DartData.Scan
import DartData.Template

/-!
# Fields that are written and read back

A field is declared on a line of its own: its modifiers, its type and its name.  The scanner takes
such a line for a field line and reads the same field from it (`ofLine?_bodyLine`), as long as the
words of the type are neither modifiers nor keywords of other members.
-/

namespace DartData

open List Text

/-! ## §1. Characters. -/

/-- A character of a type whose names may have a prefix. -/
def isRawTypeChar (c : Char) : Bool := isTypeChar c || c == '.'

theorem isRawTypeChar_of_isWord {c : Char} (h : isWord c) : isRawTypeChar c := by
  simp [isRawTypeChar, isTypeChar_of_isWord h]

theorem ne_of_isRawTypeChar {c d : Char} (hc : isRawTypeChar c)
    (hd : isRawTypeChar d = false) : c ≠ d := by
  rintro rfl
  simp [hc] at hd

theorem isFlat_of_isRawTypeChar {c : Char} (h : isRawTypeChar c) : isFlat c := by
  have hne : ∀ d, isRawTypeChar d = false → c ≠ d := fun d hd => ne_of_isRawTypeChar h hd
  simp [isFlat, isTame, Lexer.isCode, Quote.ofChar?, hne '/' (by decide),
    hne '\x27' (by decide), hne '\x22' (by decide), hne '@' (by decide), hne '\n' (by decide),
    hne '{' (by decide), hne '}' (by decide)]

theorem isBlank_of_isRawTypeChar {c : Char} (h : isRawTypeChar c) (hne : c ≠ ' ') :
    isBlank c = false := by
  simp only [isRawTypeChar, isTypeChar, Bool.or_eq_true, contains_iff_mem, mem_cons,
    not_mem_nil, or_false, beq_iff_eq] at h
  rcases h with (h | rfl | rfl | rfl | rfl | rfl) | rfl
  · exact isBlank_of_isWord h
  · decide
  · decide
  · decide
  · exact absurd rfl hne
  · decide
  · decide

/-! ## §2. Reading the words. -/

namespace FieldReader

/-- A word that is neither a modifier nor a name belongs to the type. -/
theorem readWord_type {r : FieldReader} {w : Text} (hw : w ∉ nonTypes) (hne : w ≠ [])
    (hc : ∀ c ∈ w, isRawTypeChar c) (next : Option Text) (hn : next ≠ some ['='])
    (hname : r.name = none) (first : Bool) :
    r.readWord first w next
      = { r with rawType := some (match r.rawType with
          | none => w
          | some t => t ++ ' ' :: w) } := by
  have hbrace : ∀ d, isRawTypeChar d = false → w ≠ [d] := by
    rintro d hd rfl
    simp [hc d (mem_singleton_self d)] at hd
  have hkey : w ≠ "final" ∧ w ≠ "late" ∧ w ≠ "const" := by
    refine ⟨?_, ?_, ?_⟩ <;> (rintro rfl; revert hw; decide)
  have hend : w.endsWith [';'] = false :=
    endsWith_eq_false_of_not_mem (mem_singleton_self ';') fun h =>
      ne_of_isRawTypeChar (hc ';' h) (show isRawTypeChar ';' = false by decide) rfl
  have hno : isName w next = false := by simp [isName, hend, hn]
  unfold readWord
  rw [if_neg (by simp [hne, hbrace '{' (by decide), hbrace '}' (by decide)]),
    if_neg (by simpa using hkey.1), if_neg (by simpa using hkey.2.1),
    if_neg (by simpa using hkey.2.2), if_neg (by simp [hno])]
  cases ht : r.rawType with
  | none => simp
  | some t => simp [hname]

/-- The words of a type, and the name after them. -/
theorem readWords_type (ws : List Text) (r : FieldReader) (first : Bool) (name : Text)
    (hws : ∀ w ∈ ws, w ∉ nonTypes ∧ w ≠ [] ∧ (∀ c ∈ w, isRawTypeChar c))
    (hn : name.all isWord) (hnone : r.name = none) (hor : ws ≠ [] ∨ r.rawType.isSome) :
    r.readWords first (ws ++ [name ++ [';']]) = { r with
        rawType := some (join " " (r.rawType.toList ++ ws))
        name := some name } := by
  induction ws generalizing r first name with
  | nil =>
    -- the last word ends with a semicolon, so it is the name
    have hsome : r.rawType.isSome := by simpa using hor
    obtain ⟨t, ht⟩ := Option.isSome_iff_exists.mp hsome
    have hmem : ∀ {d : Char}, isWord d = false → d ∉ name := fun hd => not_mem_of_all hn hd
    have hparen : ∀ {d : Char}, isWord d = false → d ≠ ';' → (name ++ [';']).has [d] = false := by
      intro d hd hs
      refine has_eq_false_of_not_mem (mem_singleton_self d) ?_
      simp [hmem hd, hs]
    have hname : isName (name ++ [';']) none := by
      have hend : (name ++ [';']).endsWith [';'] :=
        endsWith_iff.mpr (suffix_append name [';'])
      simp [isName, hend, hparen (show isWord '(' = false by decide) (by decide),
        hparen (show isWord ')' = false by decide) (by decide)]
    have hsemi : ∀ k : Text, ';' ∉ k → name ++ [';'] ≠ k := by
      rintro k hk rfl
      simp at hk
    have hremove : (name ++ [';']).removeEnd [';'] = name := removeEnd_append name [';']
    show r.readWord first (name ++ [';']) none = _
    unfold readWord
    rw [if_neg (by simp [hsemi ['{'] (by decide), hsemi ['}'] (by decide)]),
      if_neg (by simpa using hsemi "final" (by decide)),
      if_neg (by simpa using hsemi "late" (by decide)),
      if_neg (by simpa using hsemi "const" (by decide)), if_pos hname, hnone]
    simp [ht, hremove]
  | cons w ws ih =>
    -- any other word belongs to the type, unless an equals sign follows it
    obtain ⟨hkey, hne, hchar⟩ := hws w mem_cons_self
    have hnext : (ws ++ [name ++ [';']]).head? ≠ some ['='] := by
      cases ws with
      | nil =>
        simp only [nil_append, head?_cons, ne_eq, Option.some.injEq]
        intro h
        have : ';' ∈ ['='] := by rw [← h]; simp
        simp at this
      | cons v vs =>
        simp only [cons_append, head?_cons, ne_eq, Option.some.injEq]
        rintro rfl
        exact ne_of_isRawTypeChar ((hws ['='] (by simp)).2.2 '=' (by simp))
          (show isRawTypeChar '=' = false by decide) rfl
    show (r.readWord first w (ws ++ [name ++ [';']]).head?).readWords false
      (ws ++ [name ++ [';']]) = _
    rw [readWord_type hkey hne hchar _ hnext hnone first]
    refine (ih _ false name (forall_mem_cons.mp hws).2 hn ?_ (.inr ?_)).trans ?_
    · exact hnone
    · rfl
    cases ht : r.rawType with
    | none => simp
    | some t =>
      simp only [Option.toList_some, singleton_append, mk.injEq, and_true,
        Option.some.injEq]
      cases ws with
      | nil => simp [join_cons_cons]
      | cons v vs => simp [join_cons_cons]

end FieldReader

/-! ## §3. Declarations. -/

namespace Field

/-- The modifiers that a field is written with. -/
def modifiers (f : Field) : List Text :=
  (if f.isLate then ["late".toList] else [])
    ++ (if f.isFinal then ["final".toList] else if f.isConst then ["const".toList] else [])

/-- The words that can be modifiers. -/
def modifierWords : List Text := ["late", "final", "const"]

theorem mem_modifiers {f : Field} {m : Text} (h : m ∈ f.modifiers) : m ∈ modifierWords := by
  have hone : ∀ w ∈ modifierWords, m ∈ [w] → m ∈ modifierWords :=
    fun w hw hm => mem_singleton.mp hm ▸ hw
  rcases List.mem_append.mp h with h | h
  · split at h
    · exact hone "late".toList (by decide) h
    · exact absurd h not_mem_nil
  · split at h
    · exact hone "final".toList (by decide) h
    · split at h
      · exact hone "const".toList (by decide) h
      · exact absurd h not_mem_nil

/-- The line of a class body that declares the field. -/
def bodyLine (f : Field) : Text := "  " ++ f.declarationLine

/-- The field as its declaration has it: under its identifier, and without a place. -/
def bare (f : Field) : Field :=
  { rawType := f.rawType, sourceName := f.name, isFinal := f.isFinal, isConst := f.isConst,
    isLate := f.isLate }

/-- The words of the type belong to a type, and the modifiers go together. -/
structure Printable (f : Field) : Prop where
  type_words : ∀ w ∈ f.rawType.split ' ', w ∉ nonTypes ∧ w ≠ []
  type_chars : ∀ c ∈ f.rawType, isRawTypeChar c = true
  isName : isIdentifier f.name = true
  const_alone : f.isConst = true → f.isLate = false ∧ f.isFinal = false

theorem declarationLine_eq (f : Field) :
    f.declarationLine = join " " (f.modifiers ++ [f.rawType, f.name ++ [';']]) := by
  show join " " (f.modifiers ++ [f.rawType, f.name]) ++ [';'] = _
  generalize f.modifiers = ms
  induction ms with
  | nil => simp [join_cons_cons]
  | cons m ms ih =>
    have hcons : ∀ t : Text, join " " (m :: ms ++ [f.rawType, t])
        = m ++ " ".toList ++ join " " (ms ++ [f.rawType, t]) := by
      intro t
      rw [List.cons_append, join_cons (by simp)]
    rw [hcons, hcons, List.append_assoc, ih]

/-- A field has no modifiers, or it begins with one. -/
theorem declarationLine_cases (f : Field) :
    (f.modifiers = [] ∧ f.declarationLine = f.rawType ++ ' ' :: (f.name ++ [';']))
      ∨ ∃ m r, m ∈ modifierWords ∧ f.declarationLine = m ++ ' ' :: r := by
  rw [declarationLine_eq]
  cases hm : f.modifiers with
  | nil => exact .inl ⟨rfl, by simp [join_cons_cons]⟩
  | cons m ms =>
    refine .inr ⟨m, join " " (ms ++ [f.rawType, f.name ++ [';']]), ?_, ?_⟩
    · exact mem_modifiers (hm ▸ mem_cons_self)
    · rw [cons_append, join_cons (by simp)]
      simp

namespace Printable

variable {f : Field}

section

variable (h : f.Printable)
include h

theorem name_word : f.name.all isWord := all_isWord_of_isIdentifier h.isName

theorem rawType_cons : ∃ c r, f.rawType = c :: r ∧ isBlank c = false := by
  cases ht : f.rawType with
  | nil => exact absurd rfl (h.type_words [] (by simp [ht, split])).2
  | cons c r =>
    refine ⟨c, r, rfl, isBlank_of_isRawTypeChar (h.type_chars c (ht ▸ mem_cons_self)) ?_⟩
    rintro rfl
    exact absurd rfl (h.type_words [] (by simp [ht])).2

/-- The characters of the line of a field. -/
theorem mem_bodyLine {c : Char} (hc : c ∈ f.bodyLine) : isRawTypeChar c ∨ c = ';' := by
  have hfixed : ∀ t ∈ " ".toList :: modifierWords, ∀ c ∈ t, isRawTypeChar c :=
    fun t ht => all_eq_true.mp
      ((by decide : ∀ t ∈ " ".toList :: modifierWords, t.all isRawTypeChar) t ht)
  rw [bodyLine, declarationLine_eq, mem_append] at hc
  rcases hc with hc | hc
  · exact .inl (hfixed " " (by decide) c (by simpa using hc))
  · rcases mem_join hc with hc | ⟨t, ht, hc⟩
    · exact .inl (hfixed _ (by decide) c hc)
    · rcases mem_append.mp ht with ht | ht
      · exact .inl (hfixed t (mem_cons_of_mem _ (mem_modifiers ht)) c hc)
      · simp only [mem_cons, not_mem_nil, or_false] at ht
        rcases ht with rfl | rfl
        · exact .inl (h.type_chars c hc)
        · rcases mem_append.mp hc with hc | hc
          · exact .inl (isRawTypeChar_of_isWord (all_eq_true.mp h.name_word c hc))
          · exact .inr (mem_singleton.mp hc)

theorem not_mem_bodyLine {c : Char} (hc : isRawTypeChar c = false) (hs : c ≠ ';') :
    c ∉ f.bodyLine := by
  intro hmem
  rcases h.mem_bodyLine hmem with h | h
  · simp [hc] at h
  · exact hs h

theorem tame_bodyLine : Tame f.bodyLine 0 := by
  refine tame_flat fun c hc => ?_
  rcases h.mem_bodyLine hc with hc | rfl
  · exact isFlat_of_isRawTypeChar hc
  · decide

theorem adds_paren_bodyLine : Adds '(' ')' f.bodyLine 0 := by
  obtain ⟨code, hr, -⟩ := h.tame_bodyLine.adds
  have hsub : code.Sublist f.bodyLine := by
    have := Lexer.feed_sublist {} f.bodyLine
    rwa [hr.feed_eq] at this
  refine ⟨code, hr, ?_⟩
  rw [count_eq_zero.mpr fun hm => h.not_mem_bodyLine (by decide) (by decide) (hsub.subset hm),
    count_eq_zero.mpr fun hm => h.not_mem_bodyLine (by decide) (by decide) (hsub.subset hm)]
  rfl

/-- The line without its margin. -/
theorem trimStart_bodyLine : f.bodyLine.trimStart = f.declarationLine := by
  have hcons : ∃ c r, f.declarationLine = c :: r ∧ isBlank c = false := by
    rcases f.declarationLine_cases with ⟨-, heq⟩ | ⟨m, r, hm, heq⟩
    · obtain ⟨c, r, ht, hc⟩ := h.rawType_cons
      exact ⟨c, _, by rw [heq, ht]; rfl, hc⟩
    · rw [heq]
      simp only [modifierWords, mem_cons, not_mem_nil, or_false] at hm
      rcases hm with rfl | rfl | rfl
      · exact ⟨'l', _, rfl, by decide⟩
      · exact ⟨'f', _, rfl, by decide⟩
      · exact ⟨'c', _, rfl, by decide⟩
  obtain ⟨c, r, heq, hc⟩ := hcons
  rw [bodyLine, trimStart_append_of_blank (all_eq_true.mp (by decide)), heq]
  exact trimStart_cons_of_not_blank hc r

theorem trim_bodyLine : f.bodyLine.trim = f.declarationLine := by
  rw [trim, h.trimStart_bodyLine]
  exact trimEnd_append_of_not_blank (by decide) _

/-- The words of the line are the modifiers, the words of the type, and the name. -/
theorem words_bodyLine :
    f.bodyLine.trim.split ' ' = f.modifiers ++ (f.rawType.split ' ' ++ [f.name ++ [';']]) := by
  have hname : ' ' ∉ f.name ++ [';'] := by
    simp [not_mem_of_all h.name_word (show isWord ' ' = false by decide)]
  have hmodifier : ∀ m ∈ f.modifiers, ' ' ∉ m := by
    have hfixed : ∀ m ∈ modifierWords, ' ' ∉ m := by decide
    exact fun m hm => hfixed m (mem_modifiers hm)
  rw [h.trim_bodyLine, declarationLine_eq]
  generalize f.modifiers = ms at hmodifier
  induction ms with
  | nil =>
    have hjoin : join " " [f.rawType, f.name ++ [';']]
        = f.rawType ++ ' ' :: (f.name ++ [';']) := by simp [join_cons_cons]
    rw [nil_append, hjoin, split_append_sep, split_eq_singleton hname]
    rfl
  | cons m ms ih =>
    have hjoin : join " " (m :: ms ++ [f.rawType, f.name ++ [';']])
        = m ++ ' ' :: join " " (ms ++ [f.rawType, f.name ++ [';']]) := by
      rw [cons_append, join_cons (by simp)]
      simp
    rw [hjoin, split_append_sep, split_eq_singleton (hmodifier m mem_cons_self),
      ih (forall_mem_cons.mp hmodifier).2]
    rfl

/-- The line begins no class if the words of the type do not. -/
theorem isClassLine_bodyLine (hplain : f.modifiers = [] → isClassLine f.declarationLine = false) :
    isClassLine f.bodyLine = false := by
  rcases f.declarationLine_cases with ⟨hm, heq⟩ | ⟨m, r, hm, heq⟩
  · obtain ⟨c, r, ht, hc⟩ := h.rawType_cons
    have hsame : f.declarationLine.trimStart = f.declarationLine := by
      rw [heq, ht]
      exact trimStart_cons_of_not_blank hc _
    have := hplain hm
    rwa [isClassLine, hsame, ← h.trimStart_bodyLine] at this
  · rw [isClassLine, h.trimStart_bodyLine, heq]
    simp only [modifierWords, mem_cons, not_mem_nil, or_false] at hm
    rcases hm with rfl | rfl | rfl <;> rfl

/-- **The line declares a field** if it does not begin with the name of the class, and is final in
    case that the constructor has been seen. -/
theorem isFieldLine_bodyLine {name : Text} (hn : name.head?.any Char.isUpper)
    (hplain : f.modifiers = [] → f.declarationLine.startsWith name = false) {seen : Bool}
    (hseen : seen → f.isFinal) : isFieldLine (some name) seen f.bodyLine := by
  -- one fact for each test; most of them look for characters that the line does not have
  have hno : ∀ {c : Char} {p : Text}, c ∈ p → isRawTypeChar c = false → c ≠ ';' →
      f.bodyLine.has p = false :=
    fun hp hc hs => has_eq_false_of_not_mem hp (h.not_mem_bodyLine hc hs)
  have hname : f.bodyLine.trimStart.startsWith name = false := by
    rw [h.trimStart_bodyLine]
    rcases f.declarationLine_cases with ⟨hm, -⟩ | ⟨m, r, hm, heq⟩
    · exact hplain hm
    · rw [heq]
      cases name with
      | nil => simp at hn
      | cons d t =>
        simp only [modifierWords, mem_cons, not_mem_nil, or_false] at hm
        rcases hm with rfl | rfl | rfl
        · exact startsWith_eq_false (c := 'l') rfl rfl (by rintro rfl; simp at hn)
        · exact startsWith_eq_false (c := 'f') rfl rfl (by rintro rfl; simp at hn)
        · exact startsWith_eq_false (c := 'c') rfl rfl (by rintro rfl; simp at hn)
  have hcomment : f.bodyLine.trimStart.startsWith "//" = false := by
    rw [startsWith_eq_false_iff]
    intro hpre
    exact h.not_mem_bodyLine (c := '/') (by decide) (by decide)
      ((dropWhile_sublist _).subset (hpre.subset (by decide)))
  have hsymbols : f.bodyLine.hasOneOf memberSymbols = false := by
    simp only [hasOneOf, memberSymbols, any_cons, any_nil, Bool.or_false,
      Bool.or_eq_false_iff]
    refine ⟨?_, ?_, ?_, ?_⟩
    · exact hno (show '{' ∈ _ by decide) (by decide) (by decide)
    · exact hno (show '}' ∈ _ by decide) (by decide) (by decide)
    · exact hno (show '=' ∈ _ by decide) (by decide) (by decide)
    · exact hno (show '@' ∈ _ by decide) (by decide) (by decide)
  have hwords : f.bodyLine.trim.hasWordOf memberKeywords = false := by
    simp only [hasWordOf, any_eq_false, contains_iff_mem, h.words_bodyLine]
    intro k hk hmem
    rcases mem_append.mp hmem with hmem | hmem
    · have hfixed : ∀ m ∈ modifierWords, m ∉ memberKeywords := by decide
      exact hfixed k (mem_modifiers hmem) hk
    · rcases mem_append.mp hmem with hmem | hmem
      · exact (h.type_words k hmem).1 (mem_append_left _ hk)
      · have hsemi : ∀ k ∈ memberKeywords, ';' ∉ k := by decide
        rw [mem_singleton] at hmem
        exact hsemi k hk (by simp [hmem])
  have hvalue : f.bodyLine.hasAllOf ["final ", "="] = false := by
    simp [hasAllOf, hno (show '=' ∈ ['='] by decide) (by decide) (by decide)]
  have hfinal : (!seen || f.bodyLine.has "final ") := by
    cases seen with
    | false => rfl
    | true =>
      have hf := hseen rfl
      refine Bool.or_eq_true_iff.mpr (.inr (has_iff.mpr ?_))
      rw [bodyLine, declarationLine_eq, modifiers, hf]
      cases f.isLate with
      | false =>
        exact ⟨"  ", join " " [f.rawType, f.name ++ [';']], by simp [join_cons_cons]⟩
      | true =>
        exact ⟨"  late ", join " " [f.rawType, f.name ++ [';']], by
          simp [join_cons_cons]⟩
  have hcall : f.bodyLine.squeeze.endsWith ");" = false := by
    refine endsWith_eq_false_of_not_mem (show ')' ∈ _ by decide) fun hm => ?_
    exact h.not_mem_bodyLine (by decide) (by decide) (mem_filter.mp hm).1
  simp only [isFieldLine, Option.getD_some, hname, hcomment, hsymbols, hwords, hvalue, hfinal,
    hcall, Bool.not_false, Bool.and_true]

/-- **The field is read back from its line.** -/
theorem ofLine?_bodyLine (n : Int) (previous : Option Text) : ofLine? f.bodyLine n previous
      = some { f.bare with line := n, isEnum := previous.any marksEnum } := by
  have htype : ∀ (r : FieldReader) (first : Bool), r.name = none → r.rawType = none →
      r.readWords first (f.rawType.split ' ' ++ [f.name ++ [';']])
        = { r with rawType := some f.rawType, name := some f.name } := by
    intro r first hn ht
    have hjoin : join " " (f.rawType.split ' ') = f.rawType := join_split f.rawType ' '
    rw [FieldReader.readWords_type _ r first f.name (fun w hw => ⟨(h.type_words w hw).1,
      (h.type_words w hw).2, fun c hc => h.type_chars c (mem_of_mem_split w hw c hc)⟩)
      h.name_word hn (.inl (split_ne_nil _ _)), ht]
    simpa using hjoin
  have hread : FieldReader.readWords {} true (f.bodyLine.trim.split ' ')
      = { rawType := some f.rawType, name := some f.name, isFinal := f.isFinal,
          isConst := f.isConst, isLate := f.isLate } := by
    rw [h.words_bodyLine, modifiers]
    -- the modifiers are read one by one, and `const` stands alone
    cases hc : f.isConst with
    | true =>
      obtain ⟨hl, hf⟩ := h.const_alone hc
      rw [hl, hf]
      exact htype { isConst := true } false rfl rfl
    | false =>
      cases f.isLate with
      | true =>
        cases f.isFinal with
        | true => exact htype { isLate := true, isFinal := true } false rfl rfl
        | false => exact htype { isLate := true } false rfl rfl
      | false =>
        cases f.isFinal with
        | true => exact htype { isFinal := true } false rfl rfl
        | false => exact htype {} true rfl rfl
  rw [ofLine?, hread]
  rfl

end

end Printable

end Field

end DartData
