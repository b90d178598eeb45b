import DartData.Proofs.Member.Form

/-!
# Constructors that are written

The parameters that are written for plain fields: `this.x`, `required this.x`, and `this.x` with a
default value.  A constructor has them on lines of their own, between braces.
-/

namespace DartData

open List Text

/-! ## §1. What is written. -/

/-- The values that stand in for missing ones where a parameter may have a default. -/
def plainDefaults : List Text :=
  ["const []", "const \x7b\x7d", "''", "0", "0.0", "false", "null"].map String.toList

/-- The default of a field that gets one. -/
theorem defaultValue_mem {f : Field} (h : (f.isPrimitive || f.isCollection)) :
    f.defaultValue ∈ plainDefaults := by
  by_cases hc : f.isCollection
  · unfold Field.defaultValue
    simp only [Field.isCollection, Bool.or_eq_true] at hc
    rcases hc with (hl | hm) | hs
    · rw [if_pos hl]
      decide
    · split
      · decide
      · rw [if_pos (by simp [hm])]
        decide
    · split
      · decide
      · rw [if_pos (by simp [hs])]
        decide
  · have hcol : f.isCollection = false := by simpa using hc
    have hprim : f.isPrimitive := by simpa [hcol] using h
    simp only [Field.isCollection, Bool.or_eq_false_iff] at hcol
    obtain ⟨⟨hl, hm⟩, hs⟩ := hcol
    -- outside of collections the element is the field itself, and its type is one of six
    have hself : f.element = f := by simp [Field.element, hl, hs]
    have htype :
        f.type ∈ ["String", "num", "dynamic", "bool", "double", "int"].map String.toList := by
      simp only [Field.isPrimitive, Field.isDouble, Field.isInt, hself, hm, Bool.or_false,
        Bool.or_eq_true, beq_iff_eq, Field.plainTypes, contains_iff_mem, mem_cons,
        not_mem_nil, or_false] at hprim
      rcases hprim with ((h | h | h | h) | h) | h <;> rw [h] <;> decide
    unfold Field.defaultValue
    rw [hl, hm, hs, if_neg (by decide), if_neg (by decide)]
    revert htype
    generalize f.type = t
    intro ht
    revert t
    decide

/-- A parameter that sets the field `name`. -/
inductive IsParameter (name : Text) : Text → Prop
  | bare : IsParameter name ("this." ++ name)
  | required : IsParameter name ("required this." ++ name)
  | withDefault {d : Text} (hd : d ∈ plainDefaults) :
      IsParameter name ("this." ++ (name ++ (" = " ++ d)))

/-- A new parameter is one of the forms. -/
theorem SourceClass.isParameter_newParameter (f : Field) (named defaultValues : Bool) :
    IsParameter f.name (newParameter f named defaultValues) := by
  unfold newParameter
  dsimp only
  split
  · exact .bare
  · split
    next h =>
      simp only [Bool.and_eq_true] at h
      have heq : of ["this." ++ f.name, " = ", f.defaultValue]
          = "this." ++ (f.name ++ (" = " ++ f.defaultValue)) := by
        simp [of]
      rw [heq]
      exact .withDefault (defaultValue_mem h.1.2)
    next =>
      split
      · exact .required
      · exact .bare

theorem PlainField.isParameter_new (f : PlainField) (n : Int) (defaultValues : Bool) :
    IsParameter f.name (SourceClass.newParameter (f.field n) true defaultValues) := by
  have hname : (f.field n).name = f.name := f.variable_eq
  have hparameter := SourceClass.isParameter_newParameter (f.field n) true defaultValues
  rw [hname] at hparameter
  exact hparameter

/-! ## §2. Its characters. -/

namespace IsParameter

variable {name p : Text}

/-- Characters that a parameter does not have. -/
theorem not_mem (h : IsParameter name p) (hw : name.all isWord) {c : Char}
    (hc : c ∈ ['(', ')', ':', ';'] ++ unwrittenChars) : c ∉ p := by
  have hfixed : ∀ c ∈ ['(', ')', ':', ';'] ++ unwrittenChars, isWord c = false ∧ c ∉ "this.".toList
      ∧ c ∉ "required this.".toList ∧ c ∉ " = ".toList ∧ ∀ d ∈ plainDefaults, c ∉ d :=
    forall_mem_of_all (by decide)
  obtain ⟨hword, hthis, hrequired, hequals, hdefault⟩ := hfixed c hc
  have hname : c ∉ name := not_mem_of_all hw hword
  cases h with
  | bare => exact List.not_mem_append hthis hname
  | required => exact List.not_mem_append hrequired hname
  | withDefault hd =>
    rw [mem_append, mem_append, mem_append, not_or, not_or, not_or]
    exact ⟨hthis, hname, hequals, hdefault _ hd⟩

theorem head_eq (h : IsParameter name p) : ∃ r, p = 't' :: r ∨ p = 'r' :: r := by
  cases h with
  | bare => exact ⟨_, .inl rfl⟩
  | required => exact ⟨_, .inr rfl⟩
  | withDefault hd => exact ⟨_, .inl rfl⟩

end IsParameter

variable {c o : Char} {t : Text}

theorem adds_of_isWord {w : Text} (hw : w.all isWord) (ho : isWord o = false)
    (hc : isWord c = false) : Adds o c w 0 := by
  have hcode : w.all Lexer.isCode := by
    rw [all_eq_true]
    intro x hx
    have hflat := isFlat_of_isTypeChar (isTypeChar_of_isWord (all_eq_true.mp hw x hx))
    simp only [isFlat, isTame, Bool.and_eq_true] at hflat
    exact hflat.1.1.1.1
  have := adds_code hcode o c
  rwa [count_eq_zero.mpr (not_mem_of_all hw ho), count_eq_zero.mpr
    (not_mem_of_all hw hc)] at this

/-- A piece of code with as many brackets of both kinds opened as closed. -/
theorem adds_balanced (ht : t.all Lexer.isCode
      ∧ (t.count '{' : Int) - t.count '}' = 0 ∧ (t.count '(' : Int) - t.count ')' = 0)
    (hoc : (o = '{' ∧ c = '}') ∨ (o = '(' ∧ c = ')')) : Adds o c t 0 := by
  obtain ⟨hcode, hcurly, hparen⟩ := ht
  have := adds_code hcode o c
  rcases hoc with ⟨rfl, rfl⟩ | ⟨rfl, rfl⟩
  · rwa [hcurly] at this
  · rwa [hparen] at this

theorem adds_default {d : Text} (hd : d ∈ plainDefaults)
    (hoc : (o = '{' ∧ c = '}') ∨ (o = '(' ∧ c = ')')) : Adds o c (' ' :: d) 0 := by
  by_cases hq : d = "''"
  · subst hq
    show Adds o c (Lexer.quoted ' ' []) 0
    rcases hoc with ⟨rfl, rfl⟩ | ⟨rfl, rfl⟩ <;>
      exact adds_quoted (by decide) (by decide) (by decide) (by decide) rfl
  · have hall : ∀ d ∈ plainDefaults, d ≠ "''" → (' ' :: d).all Lexer.isCode
        ∧ ((' ' :: d).count '{' : Int) - (' ' :: d).count '}' = 0
        ∧ ((' ' :: d).count '(' : Int) - (' ' :: d).count ')' = 0 := by decide
    exact adds_balanced (hall d hd hq) hoc

/-- A parameter is balanced. -/
theorem IsParameter.adds {name p : Text} (h : IsParameter name p) (hw : name.all isWord)
    (hoc : (o = '{' ∧ c = '}') ∨ (o = '(' ∧ c = ')')) : Adds o c p 0 := by
  have hname : Adds o c name 0 := by
    rcases hoc with ⟨rfl, rfl⟩ | ⟨rfl, rfl⟩ <;> exact adds_of_isWord hw (by decide) (by decide)
  have hthis : Adds o c "this." 0 := adds_balanced (by decide) hoc
  cases h with
  | bare => exact hthis.append hname
  | required => exact (adds_balanced (t := "required this.") (by decide) hoc).append hname
  | @withDefault d hd =>
    show Adds o c ("this." ++ (name ++ (" =" ++ (' ' :: d)))) 0
    exact hthis.append (hname.append
      ((adds_balanced (t := " =") (by decide) hoc).append (adds_default hd hoc)))

/-! ## §3. Reading. -/

/-- A text that begins with something else than a blank, after blanks and before an end that is no
    blank. -/
theorem trim_between {b : Text} {a e : Char} (hb : ∀ c ∈ b, isBlank c)
    (ht : t.head? = some a) (ha : isBlank a = false) (he : isBlank e = false) :
    trim (b ++ (t ++ [e])) = t ++ [e] := by
  rw [trim_append_of_blank hb]
  cases t with
  | nil => simp at ht
  | cons d t =>
    simp only [head?_cons, Option.some.injEq] at ht
    subst ht
    refine trim_eq_self (fun c hc => ?_) fun c hc => ?_
    · rw [cons_append, head?_cons, Option.some.injEq] at hc
      exact hc ▸ ha
    · rw [getLast?_append, getLast?_singleton] at hc
      exact Option.some.inj hc ▸ he

namespace Parameter

theorem nameIn_eq {written u : Text} (h : trim (before (trim (written.eraseFirst "required")) "=")
      = "this." ++ u) : nameIn written = (u, true) := by
  have hthis : startsWith ("this." ++ u) "this." :=
    startsWith_iff.mpr (prefix_append _ _)
  unfold nameIn
  rw [h]
  dsimp only
  rw [if_pos hthis]
  rfl

end Parameter

/-! ## §4. The constructor. -/

/-- The lines of a constructor with the named parameters `ps`; `word` stands in front of it. -/
def constructorLines (word name : Text) (ps : List Text) : List Text :=
  (word ++ (name ++ ['(', '{'])) :: (ps.map (fun p => "  ".toList ++ (p ++ [',']))
    ++ ["\x7d);".toList])

/-- The constructor in the body of a class. -/
def constructorItem (word name : Text) (ps : List Text) : Item where
  first := "  " ++ (word ++ (name ++ ['(', '{']))
  rest := ps.map (fun p => "    ".toList ++ (p ++ [','])) ++ ["  \x7d);".toList]

/-- The word in front of a constructor that is yet to be written. -/
def constWordFor (makeConst : Bool) : Text := if makeConst then "const " else []

theorem constWordFor_cases (b : Bool) : constWordFor b = [] ∨ constWordFor b = "const " := by
  cases b
  · exact .inl rfl
  · exact .inr rfl

/-- The parameters for the fields. -/
def newParameters (defaultValues : Bool) (fs : List Field) : List Text :=
  fs.map fun f => SourceClass.newParameter f true defaultValues

theorem indentLine_constructorLines (word name : Text) (ps : List Text) :
    (constructorLines word name ps).map indentLine = (constructorItem word name ps).lines := by
  have hfirst : indentLine (word ++ (name ++ ['(', '{']))
      = "  " ++ (word ++ (name ++ ['(', '{'])) := by
    rw [indentLine, if_neg (by simp)]
  have hps : (ps.map (fun p => "  " ++ (p ++ [',']))).map indentLine
      = ps.map (fun p => "    " ++ (p ++ [','])) := by
    rw [map_map]
    rfl
  rw [constructorLines, map_cons, map_append, hfirst, hps]
  rfl

variable {name word : Text} {a : Char}

/-- The first line without its margin. -/
theorem trimStart_constructor (ha : name.head? = some a) (hup : a.isUpper)
    (hword : word = [] ∨ word = "const ") (rest : Text) :
    trimStart ("  " ++ (word ++ (name ++ rest))) = word ++ (name ++ rest)
      ∧ trimStart (name ++ rest) = name ++ rest := by
  have hblank : isBlank a = false := isBlank_of_isWord (isWord_of_isUpper hup)
  obtain ⟨r, rfl⟩ := head?_eq_some_iff.mp ha
  have hname : trimStart ((a :: r) ++ rest) = (a :: r) ++ rest :=
    trimStart_cons_of_not_blank hblank _
  rw [trimStart_append_of_blank (all_eq_true.mp (by decide))]
  rcases hword with rfl | rfl
  · exact ⟨hname, hname⟩
  · exact ⟨trimStart_cons_of_not_blank (c := 'c') (by decide) _, hname⟩

/-- A class name begins with another character than `const`. -/
theorem startsWith_name (ha : name.head? = some a) (hup : a.isUpper) (rest : Text) {p : Text}
    (hp : p.head? = some 'c') : startsWith (name ++ rest) p = false := by
  obtain ⟨q, rfl⟩ := head?_eq_some_iff.mp hp
  refine startsWith_eq_false (c := a) ?_ rfl ?_
  · rw [head?_append, ha]
    rfl
  · rintro rfl
    simp at hup

theorem unlines_constructor (first last : Text) (mid : List Text) :
    unlines (first :: (mid ++ [last])) = first ++ ('\n' :: (endLines mid ++ last)) := by
  rw [← cons_append, ← endLines_append_eq_unlines, endLines_cons]
  simp

/-- Parameters that set fields. -/
def AreParameters (ps : List Text) : Prop :=
  ∀ p ∈ ps, ∃ name : Text, IsParameter name p ∧ name.all isWord = true

/-- Quotes and the like are not written. -/
theorem not_mem_constructorLines {ps : List Text} (hword : word = [] ∨ word = "const ")
    (hw : name.all isWord) (h : AreParameters ps) {d : Char} (hd : d ∈ unwrittenChars) :
    ∀ l ∈ constructorLines word name ps, d ∉ l := by
  have hfixed : ∀ d ∈ unwrittenChars, isWord d = false ∧ d ∉ "const ".toList ∧ d ∉ "(\x7b".toList
      ∧ d ∉ "  ".toList ∧ d ∉ [','] ∧ d ∉ "\x7d);".toList := forall_mem_of_all (by decide)
  obtain ⟨hdw, hconst, hopen, hmargin, hcomma, hclose⟩ := hfixed d hd
  intro l hl
  rcases mem_cons.mp hl with rfl | hl
  · rw [mem_append, mem_append, not_or, not_or]
    refine ⟨?_, not_mem_of_all hw hdw, hopen⟩
    rcases hword with rfl | rfl
    · exact not_mem_nil
    · exact hconst
  · rcases mem_append.mp hl with hl | hl
    · obtain ⟨p, hp, rfl⟩ := mem_map.mp hl
      obtain ⟨n, hn, hnw⟩ := h p hp
      rw [mem_append, mem_append, not_or, not_or]
      exact ⟨hmargin, hn.not_mem hnw (mem_append_right _ hd), hcomma⟩
    · rw [mem_singleton.mp hl]
      exact hclose

end DartData
