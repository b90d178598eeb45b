import DartData.Proofs.Declaration.Ink

/-!
# Declarations that are printed as they were written

A declaration is thrown away when it has been read, and printed again from what was read.  The words
that come back, blanks apart, are those of a class line in its regular form (`HeadWords`): the name,
then the clauses of the superclass, of the mixins and of the interfaces in this order, each at most
once, with one comma between two types of a list and none elsewhere.  Such words come back
(`squeeze_print_of_headWords`), and no others do as long as the word after `class` is not a keyword
itself (`headWords_of_squeeze_print`).
-/

namespace DartData

open List Text

namespace SupertypeList

/-- The keyword of a list. -/
def keyword : SupertypeList → Text
  | .mixins => "with".toList
  | .interfaces => "implements".toList

def other : SupertypeList → SupertypeList
  | .mixins => .interfaces
  | .interfaces => .mixins

theorem other_ne (l : SupertypeList) : l.other ≠ l := by
  cases l <;> decide

theorem other_other (l : SupertypeList) : l.other.other = l := by
  cases l <;> rfl

theorem eq_other_of_ne {l m : SupertypeList} (h : m ≠ l) : m = l.other := by
  revert h
  cases l <;> cases m <;> decide

end SupertypeList

namespace Declaration

/-! ## §1. The regular form. -/

/-- The words of a list of supertypes, with single commas between the types. -/
structure ListWords (us : List Text) : Prop where
  ne_nil : us.flatMap splitTopLevel ≠ []
  not_keyword : ∀ u ∈ us, u ∉ declarationKeywords
  commas : squeeze us.flatten = (join [','] (us.flatMap splitTopLevel)).squeeze

/-- The words of a clause with such a list, if there is one. -/
def ClauseWords (l : SupertypeList) (ws : List Text) : Prop :=
  ws = [] ∨ ∃ us, ws = l.keyword :: us ∧ ListWords us

/-- The words of the clause of the superclass, if there is one. -/
def SuperclassWords (ws : List Text) : Prop :=
  ws = [] ∨ ∃ s : Text, ws = ["extends".toList, s] ∧ s ≠ "class".toList ∧ s ≠ "extends".toList
    ∧ s.endsWith [','] = false

/-- The words in front of the name. -/
def classWords (isAbstract : Bool) : List Text :=
  if isAbstract then ["abstract".toList, "class".toList] else ["class".toList]

/-- The word after `class` is no keyword, so that it is the word of the name. -/
def NamedWords (isAbstract : Bool) (ws : List Text) : Prop :=
  ∃ (name : Text) (rest : List Text), ws = classWords isAbstract ++ name :: rest
    ∧ name ∉ declarationKeywords

/-- The words of a class line in its regular form.  Nothing stands after the type parameters in the
    word of the name. -/
def HeadWords (isAbstract : Bool) (ws : List Text) : Prop :=
  ∃ (name : Text) (ext mix int : List Text),
    ws = classWords isAbstract ++ name :: (ext ++ (mix ++ int))
    ∧ name ∉ declarationKeywords ∧ ('<' ∈ name → (afterLastAngle name).squeeze = [])
    ∧ SuperclassWords ext ∧ ClauseWords .mixins mix ∧ ClauseWords .interfaces int

/-! ## §2. Words in the regular form come back. -/

/-- The supertypes of a list. -/
def listOf (d : Declaration) : SupertypeList → List Text
  | .mixins => d.mixins
  | .interfaces => d.interfaces

variable {d d' : Declaration} {r : DeclarationReader} {w : Text} {ws : List Text}

section

variable (d : Declaration) (l : SupertypeList)

theorem adding_nil : d.adding l [] = d := by
  cases l <;> simp [adding]

theorem listOf_adding (ms : List Text) : (d.adding l ms).listOf l = d.listOf l ++ ms := by
  cases l <;> rfl

theorem listOf_adding_other (ms : List Text) :
    (d.adding l ms).listOf l.other = d.listOf l.other := by
  cases l <;> rfl

theorem superclass_adding (ms : List Text) : (d.adding l ms).superclass = d.superclass := by
  cases l <;> rfl

end

theorem squeeze_keyword (l : SupertypeList) : l.keyword.squeeze = l.keyword := by
  cases l <;> decide

theorem readWord_keyword (l : SupertypeList) (hs : r.superclassNext = false) :
    d.readWord r l.keyword = .ok (d, { r with listNext := some l }) := by
  have hne : ∀ l : SupertypeList,
      (l.keyword == "class".toList) = false ∧ (l.keyword == "extends".toList) = false := by
    intro l
    cases l <;> decide
  rw [readWord, if_neg (by rw [(hne l).1]; simp), if_neg (by rw [(hne l).2]; simp),
    if_neg (by simp [hs])]
  cases l with
  | mixins => rfl
  | interfaces => rfl

/-- The words of a list are added one after another. -/
theorem readWords_list (l : SupertypeList) (us : List Text) (d : Declaration)
    (hus : ∀ u ∈ us, u ∉ declarationKeywords) :
    d.readWords { listNext := some l } (us ++ ws)
      = (d.adding l (us.flatMap splitTopLevel)).readWords { listNext := some l } ws := by
  induction us generalizing d with
  | nil => rw [flatMap_nil, adding_nil]; rfl
  | cons u us ih =>
    have hu := hus u mem_cons_self
    show (d.readWord { listNext := some l } u >>= _) = _
    rw [readWord_of_not_mem hu]
    show (d.adding l u.splitTopLevel).readWords { listNext := some l } (us ++ ws) = _
    rw [ih _ (forall_mem_cons.mp hus).2, adding_adding]
    rfl

variable {us : List Text} {d₁ : Declaration} {r₁ : DeclarationReader}

/-- The words of a clause are read into its list. -/
theorem readWords_clauseWords {l : SupertypeList} (h : ClauseWords l us) (d : Declaration)
    (x : Option SupertypeList) (ws : List Text) :
    ∃ ms y, d.readWords { listNext := x } (us ++ ws)
        = (d.adding l ms).readWords { listNext := y } ws
      ∧ listClause l.keyword ms = squeeze us.flatten := by
  rcases h with rfl | ⟨us, rfl, hus⟩
  · exact ⟨[], x, by rw [adding_nil]; rfl, rfl⟩
  · refine ⟨us.flatMap splitTopLevel, some l, ?_, ?_⟩
    · rw [← readWords_list l us d hus.not_keyword]
      show (d.readWord { listNext := x } l.keyword >>= _) = _
      rw [readWord_keyword l rfl]
      rfl
    · rw [listClause_of_ne_nil hus.ne_nil, ← hus.commas, flatten_cons, squeeze_append,
        squeeze_keyword]

theorem removeEnd_of_not_endsWith {t e : Text} (h : t.endsWith e = false) : t.removeEnd e = t :=
  if_neg (by simp [h])

/-- The words after `extends` are read as the superclass. -/
theorem readWords_superclassWords (h : SuperclassWords us) (d : Declaration)
    (hd : d.superclass = none) (ws : List Text) :
    ∃ s, d.readWords {} (us ++ ws) = { d with superclass := s }.readWords {} ws
      ∧ superclassClause s = squeeze us.flatten := by
  rcases h with rfl | ⟨s, rfl, hclass, hextends, hend⟩
  · exact ⟨none, by rw [← hd]; rfl, rfl⟩
  · refine ⟨some s, ?_, ?_⟩
    · show (d.readWord { superclassNext := true } s >>= _) = _
      rw [readWord, if_neg (by simpa using hclass), if_neg (by simpa using hextends), if_pos rfl,
        show s.removeEnd "," = s from removeEnd_of_not_endsWith hend]
      rfl
    · show "extends".toList ++ s.squeeze = squeeze ("extends".toList ++ (s ++ []))
      rw [append_nil, squeeze_append]
      rfl

/-- The word of the name. -/
theorem readWords_name_word (hw : w ∉ declarationKeywords) (d : Declaration)
    (h : d.readWords { nameNext := true } (w :: ws) = .ok d') :
    ∃ name generics, splitClassName w = .ok (name, generics)
      ∧ { d with name := some name, generics := generics.getD d.generics }.readWords {} ws
        = .ok d' := by
  obtain ⟨d₁, r₁, h₁, h⟩ := readWords_cons h
  rw [readWord_of_not_mem hw] at h₁
  cases hsplit : splitClassName w with
  | error f =>
    rw [hsplit] at h₁
    cases h₁
  | ok x =>
    rw [hsplit] at h₁
    cases h₁
    exact ⟨x.1, x.2, rfl, h⟩

theorem readWords_classWords (isAbstract : Bool) (d : Declaration) (ws : List Text) :
    d.readWords {} (classWords isAbstract ++ ws) = d.readWords { nameNext := true } ws := by
  cases isAbstract <;> rfl

theorem squeeze_classWords (isAbstract : Bool) (ws : List Text) :
    squeeze (classWords isAbstract ++ ws).flatten
      = (if isAbstract then "abstractclass".toList else "class".toList) ++ squeeze ws.flatten := by
  rw [flatten_append, squeeze_append]
  cases isAbstract <;> rfl

/-- **Words in the regular form come back.** -/
theorem squeeze_print_of_headWords {isAbstract : Bool} {n : Option Text}
    (hws : HeadWords isAbstract ws) (h : readWords { name := n } {} ws = .ok d) :
    (d.print isAbstract).squeeze = squeeze ws.flatten := by
  obtain ⟨w, ext, mix, int, rfl, hkey, hclosed, hext, hmix, hint⟩ := hws
  rw [readWords_classWords] at h
  obtain ⟨name, generics, hsplit, h⟩ := readWords_name_word hkey _ h
  obtain ⟨s, hs, hsclause⟩ := readWords_superclassWords hext
    { name := some name, generics := generics.getD [] } rfl (mix ++ int)
  obtain ⟨ms, y, hm, hmclause⟩ := readWords_clauseWords hmix
    { name := some name, generics := generics.getD [], superclass := s } none int
  obtain ⟨is, z, hi, hiclause⟩ := readWords_clauseWords hint (adding
    { name := some name, generics := generics.getD [], superclass := s } .mixins ms) y []
  rw [append_nil] at hi
  have h := (hs.trans (hm.trans hi)).symm.trans h
  cases h
  obtain ⟨lost, rfl, hlost⟩ := splitClassName_lost hsplit
  rw [squeeze_print, squeeze_classWords, flatten_cons, flatten_append, flatten_append,
    squeeze_append, squeeze_append, squeeze_append, squeeze_append,
    squeeze_append, hlost.mpr hclosed, ← hsclause, ← hmclause, ← hiclause, append_nil,
    append_assoc]
  rfl

/-! ## §3. Words of which nothing is lost. -/

/-- The words are read and all their ink is printed. -/
structure Tight (d : Declaration) (r : DeclarationReader) (ws : List Text) (d' : Declaration) :
    Prop where
  read_eq : d.readWords r ws = .ok d'
  ink_le : potential {} d r + ink ws.flatten ≤ potential {} d' {}

/-- What the keyword of a list is counted for. -/
def Worth.list (k : Worth) : SupertypeList → Nat
  | .mixins => k.mixins
  | .interfaces => k.interfaces

/-- The worth of the keywords if that of a list is left out. -/
def Worth.without : SupertypeList → Worth
  | .mixins => { mixins := 0 }
  | .interfaces => { interfaces := 0 }

/-- The worth of the name and the superclass. -/
def baseWorth (k : Worth) (d : Declaration) (r : DeclarationReader) : Nat :=
  (d.name.getD []).ink + d.generics.ink
    + superclassWorth k.superclass r.superclassNext d.superclass

/-- The potential seen from one of the lists. -/
theorem potential_list (l : SupertypeList) (k : Worth) (d : Declaration) (r : DeclarationReader) :
    potential k d r = baseWorth k d r + listWorth (k.list l) (r.listNext == some l) (d.listOf l)
      + listWorth (k.list l.other) (r.listNext == some l.other) (d.listOf l.other) := by
  cases l with
  | mixins => rfl
  | interfaces => exact Nat.add_right_comm _ _ _

theorem mem_declarationKeywords : w ∈ declarationKeywords
    ↔ w = "class".toList ∨ w = "extends".toList ∨ ∃ l : SupertypeList, w = l.keyword := by
  simp only [declarationKeywords, mem_cons, not_mem_nil, or_false]
  refine or_congr_right (or_congr_right ⟨?_, ?_⟩)
  · rintro (rfl | rfl)
    · exact ⟨.mixins, rfl⟩
    · exact ⟨.interfaces, rfl⟩
  · rintro ⟨l, rfl⟩
    cases l with
    | mixins => exact .inl rfl
    | interfaces => exact .inr rfl

/-- The words up to the first keyword. -/
theorem exists_keyword_split (ws : List Text) :
    ∃ us rest, ws = us ++ rest ∧ (∀ u ∈ us, u ∉ declarationKeywords)
      ∧ (rest = [] ∨ ∃ k vs, rest = k :: vs ∧ k ∈ declarationKeywords) := by
  induction ws with
  | nil => exact ⟨[], [], rfl, by simp, .inl rfl⟩
  | cons w ws ih =>
    by_cases hw : w ∈ declarationKeywords
    · exact ⟨[], w :: ws, rfl, by simp, .inr ⟨w, ws, rfl, hw⟩⟩
    · obtain ⟨us, rest, rfl, hus, hrest⟩ := ih
      exact ⟨w :: us, rest, rfl, forall_mem_cons.mpr ⟨hw, hus⟩, hrest⟩

/-- Only the word after `class` changes the name. -/
theorem readWord_name (h : d.readWord r w = .ok (d₁, r₁)) (hr : r.nameNext = false)
    (hw : w ≠ "class".toList) :
    r₁.nameNext = false ∧ d₁.name = d.name ∧ d₁.generics = d.generics := by
  rcases readWord_cases h with ⟨hclass, -⟩ | ⟨-, rfl, rfl⟩ | ⟨-, rfl, rfl⟩ | ⟨-, hcases⟩
  · exact absurd hclass hw
  · exact ⟨hr, rfl, rfl⟩
  · exact ⟨hr, rfl, rfl⟩
  · rcases hcases with ⟨-, rfl, rfl⟩ | ⟨-, rfl, rfl⟩ | ⟨hname, -⟩ | ⟨-, -, rfl, rfl⟩
      | ⟨l, -, -, rfl, rfl⟩
    · exact ⟨hr, rfl, rfl⟩
    · exact ⟨hr, rfl, rfl⟩
    · rw [hr] at hname
      cases hname
    · exact ⟨hr, rfl, rfl⟩
    · cases l <;> exact ⟨hr, rfl, rfl⟩

/-- Only the word after `extends` changes the superclass. -/
theorem readWord_superclass (h : d.readWord r w = .ok (d₁, r₁)) (hr : r.superclassNext = false)
    (hw : w ≠ "extends".toList) :
    r₁.superclassNext = false ∧ d₁.superclass = d.superclass := by
  rcases readWord_cases h with ⟨-, rfl, rfl⟩ | ⟨hextends, -⟩ | ⟨hnext, -⟩ | ⟨-, hcases⟩
  · exact ⟨hr, rfl⟩
  · exact absurd hextends hw
  · rw [hr] at hnext
    cases hnext
  · rcases hcases with ⟨-, rfl, rfl⟩ | ⟨-, rfl, rfl⟩ | ⟨-, name, generics, -, rfl, rfl⟩
      | ⟨-, -, rfl, rfl⟩ | ⟨l, -, -, rfl, rfl⟩
    · exact ⟨hr, rfl⟩
    · exact ⟨hr, rfl⟩
    · exact ⟨hr, rfl⟩
    · exact ⟨hr, rfl⟩
    · cases l <;> exact ⟨hr, rfl⟩

namespace Tight

/-- Then nothing of the first word is lost, and nothing of the others. -/
theorem cons (h : Tight d r (w :: ws) d') :
    ∃ d₁ r₁, d.readWord r w = .ok (d₁, r₁) ∧ Tight d₁ r₁ ws d'
      ∧ potential {} d₁ r₁ = potential {} d r + w.ink := by
  obtain ⟨d₁, r₁, h₁, hrest⟩ := readWords_cons h.read_eq
  have hstep := readWord_potential {} h₁
  have hle := readWords_potential {} ws hrest
  have hink := h.ink_le
  rw [flatten_cons, ink_append] at hink
  exact ⟨d₁, r₁, h₁, ⟨hrest, by omega⟩, by omega⟩

/-- A second `class` would be lost. -/
theorem ne_class (h : Tight d r (w :: ws) d') : w ≠ "class".toList := by
  rintro rfl
  obtain ⟨d₁, r₁, h₁, -, hink⟩ := h.cons
  cases (show Except.ok (d, _) = _ from h₁)
  have hclass : ink "class".toList = 5 := by decide
  have hsame : potential {} d { r with nameNext := true } = potential {} d r := rfl
  omega

/-- The keyword of the superclass comes once, and a superclass follows. -/
theorem of_extends (h : Tight d r ("extends".toList :: ws) d') :
    d.superclass = none ∧ r.superclassNext = false ∧ d'.superclass ≠ none := by
  obtain ⟨d₁, r₁, h₁, hrest, hink⟩ := h.cons
  cases (show Except.ok (d, _) = _ from h₁)
  have hseven : ink "extends".toList = 7 := by decide
  have hworth : superclassWorth 7 true d.superclass
      = superclassWorth 7 r.superclassNext d.superclass + 7 := by
    simp only [potential] at hink
    omega
  obtain ⟨hsuper, hnext⟩ : d.superclass = none ∧ r.superclassNext = false := by
    cases hs : d.superclass with
    | some s => simp [hs, superclassWorth] at hworth
    | none => cases hr : r.superclassNext <;> simp [hs, hr, superclassWorth] at hworth ⊢
  refine ⟨hsuper, hnext, fun hnone => ?_⟩
  -- without a superclass in the end, nothing is printed for the keyword
  have hfree := readWords_potential { superclass := 0 } ws hrest.read_eq
  have htight := hrest.ink_le
  simp only [potential, hsuper, hnone, superclassWorth, if_true, Bool.false_eq_true, if_false]
    at hfree htight
  omega

/-- If the keyword of a list adds its worth, the list is empty and did not wait for types yet, and
    another list that did is not empty. -/
theorem worth_of_keyword {k m : Nat} (hk : 0 < k) (hm : 0 < m) {ms ns : List Text} {x y : Bool}
    (h : listWorth k true ms + listWorth m false ns = listWorth k x ms + listWorth m y ns + k) :
    ms = [] ∧ x = false ∧ (y → ns ≠ []) := by
  have hle := listWorth_le m y ns
  cases ms with
  | cons t ms =>
    simp only [listWorth, List.isEmpty_cons, Bool.false_eq_true, if_false] at h hle
    omega
  | nil =>
    cases x with
    | true => omega
    | false =>
      refine ⟨rfl, rfl, ?_⟩
      rintro rfl rfl
      simp only [listWorth, List.isEmpty_nil, if_true, Bool.false_eq_true, if_false] at h
      omega

variable {l : SupertypeList}

/-- The keyword of a list comes once, types of the list follow, and so they do for a list that it
    ends. -/
theorem of_keyword (h : Tight d r (l.keyword :: ws) d') (hs : r.superclassNext = false) :
    d.listOf l = [] ∧ r.listNext ≠ some l ∧ d'.listOf l ≠ []
      ∧ (r.listNext = some l.other → d.listOf l.other ≠ []) := by
  obtain ⟨d₁, r₁, h₁, hrest, hink⟩ := h.cons
  rw [readWord_keyword l hs] at h₁
  cases h₁
  obtain ⟨hpos, hpos', hword⟩ : 0 < Worth.list {} l ∧ 0 < Worth.list {} l.other
      ∧ ink l.keyword = Worth.list {} l := by
    cases l <;> decide
  have hwaits : ∀ m, ((some l : Option SupertypeList) == some m) = decide (m = l) := by
    intro m
    cases l <;> cases m <;> rfl
  have htight := hrest.ink_le
  have hbase : baseWorth {} d { r with listNext := some l } = baseWorth {} d r := rfl
  rw [potential_list l, potential_list l, hbase, hwaits, hwaits, decide_eq_true rfl,
    decide_eq_false l.other_ne] at hink
  have hworth : listWorth (Worth.list {} l) true (d.listOf l)
      + listWorth (Worth.list {} l.other) false (d.listOf l.other)
      = listWorth (Worth.list {} l) (r.listNext == some l) (d.listOf l)
        + listWorth (Worth.list {} l.other) (r.listNext == some l.other) (d.listOf l.other)
        + Worth.list {} l := by omega
  obtain ⟨hnil, hnot, hne⟩ := worth_of_keyword hpos hpos' hworth
  refine ⟨hnil, by simpa using hnot, fun hnone => ?_, fun hm => hne (by simp [hm])⟩
  -- without a type in the end, nothing is printed for the keyword
  have hfree := readWords_potential (.without l) ws hrest.read_eq
  have hbase' : ∀ (d : Declaration) (r : DeclarationReader),
      baseWorth (.without l) d r = baseWorth {} d r := by
    intro d r
    cases l <;> rfl
  have hlist : Worth.list (.without l) l = 0
      ∧ Worth.list (.without l) l.other = Worth.list {} l.other := by
    cases l <;> exact ⟨rfl, rfl⟩
  rw [potential_list l, potential_list l, hbase', hbase', hlist.1, hlist.2, hwaits, hwaits,
    decide_eq_true rfl, decide_eq_false l.other_ne, hnil, hnone] at hfree
  rw [potential_list l, potential_list l, hwaits, hwaits, decide_eq_true rfl,
    decide_eq_false l.other_ne, hnil, hnone] at htight
  change _ + 0 + _ ≤ _ + 0 + _ + _ at hfree
  change _ + Worth.list {} l + _ + _ ≤ _ + 0 + _ at htight
  omega

/-- The name stays, as no other one can come. -/
theorem name_eq {d : Declaration} {r : DeclarationReader} (h : Tight d r ws d')
    (hr : r.nameNext = false) : d'.name = d.name ∧ d'.generics = d.generics := by
  induction ws generalizing d r with
  | nil =>
    obtain rfl := Except.ok.inj h.read_eq
    exact ⟨rfl, rfl⟩
  | cons w ws ih =>
    obtain ⟨d₁, r₁, h₁, hrest, -⟩ := h.cons
    obtain ⟨hnext, hname, hgenerics⟩ := readWord_name h₁ hr h.ne_class
    rw [← hname, ← hgenerics]
    exact ih hrest hnext

/-- So does the superclass. -/
theorem superclass_eq {s : Text} {d : Declaration} {r : DeclarationReader} (h : Tight d r ws d')
    (hr : r.superclassNext = false) (hs : d.superclass = some s) : d'.superclass = some s := by
  induction ws generalizing d r with
  | nil =>
    obtain rfl := Except.ok.inj h.read_eq
    exact hs
  | cons w ws ih =>
    obtain ⟨d₁, r₁, h₁, hrest, -⟩ := h.cons
    have hw : w ≠ "extends".toList := by
      rintro rfl
      have hnone := h.of_extends.1
      rw [hs] at hnone
      cases hnone
    obtain ⟨hnext, hsuper⟩ := readWord_superclass h₁ hr hw
    exact ih hrest hnext (hsuper.trans hs)

theorem of_not_mem (h : Tight d {} (w :: ws) d') (hw : w ∉ declarationKeywords) : w.ink = 0 := by
  obtain ⟨d₁, r₁, h₁, -, hink⟩ := h.cons
  rw [readWord_of_not_mem hw] at h₁
  cases (show Except.ok (d, _) = _ from h₁)
  omega

/-- Below the words of a list. -/
theorem of_list {us : List Text} (h : Tight d { listNext := some l } (us ++ ws) d')
    (hus : ∀ u ∈ us, u ∉ declarationKeywords) :
    Tight (d.adding l (us.flatMap splitTopLevel)) { listNext := some l } ws d' := by
  refine ⟨by rw [← readWords_list l us d hus]; exact h.read_eq, ?_⟩
  have hink := h.ink_le
  have happ := listWorth_append (Worth.list {} l) (d.listOf l) (us.flatMap splitTopLevel)
  rw [ink, inked_flatMap_splitTopLevel, ← ink] at happ
  rw [flatten_append, ink_append, potential_list l] at hink
  rw [potential_list l]
  have hself : ((some l : Option SupertypeList) == some l) := by cases l <;> rfl
  have hbase : baseWorth {} (d.adding l (us.flatMap splitTopLevel)) { listNext := some l }
      = baseWorth {} d { listNext := some l } := by cases l <;> rfl
  rw [hbase, listOf_adding, listOf_adding_other]
  simp only [hself] at hink ⊢
  omega

theorem after_keyword (h : Tight d r (l.keyword :: ws) d') (hs : r.superclassNext = false) :
    Tight d { r with listNext := some l } ws d' := by
  obtain ⟨d₁, r₁, h₁, hrest, -⟩ := h.cons
  rw [readWord_keyword l hs] at h₁
  cases h₁
  exact hrest

/-- The words of a list go on to the end, or to the keyword of the other list, which is empty so far
    and has types in the end. -/
theorem list_cases (h : Tight d { listNext := some l } ws d')
    (hs : d.superclass ≠ none ∨ d'.superclass = none) :
    ∃ us, (∀ u ∈ us, u ∉ declarationKeywords) ∧
      ((ws = us ∧ d' = d.adding l (us.flatMap splitTopLevel))
        ∨ ∃ vs, ws = us ++ l.other.keyword :: vs
          ∧ (d.adding l (us.flatMap splitTopLevel)).listOf l ≠ [] ∧ d.listOf l.other = []
          ∧ d'.listOf l.other ≠ []
          ∧ Tight (d.adding l (us.flatMap splitTopLevel)) { listNext := some l.other } vs d') := by
  obtain ⟨us, rest, rfl, hus, hrest⟩ := exists_keyword_split ws
  refine ⟨us, hus, ?_⟩
  have htight := h.of_list hus
  rcases hrest with rfl | ⟨k, vs, rfl, hk⟩
  · exact .inl ⟨append_nil us, (Except.ok.inj htight.read_eq).symm⟩
  · rcases mem_declarationKeywords.mp hk with rfl | rfl | ⟨m, rfl⟩
    · exact absurd rfl htight.ne_class
    · -- the superclass is there already, or there is none in the end
      obtain ⟨hnone, -, hsome⟩ := htight.of_extends
      rw [superclass_adding] at hnone
      exact absurd hs (not_or.mpr ⟨fun h => h hnone, hsome⟩)
    · obtain ⟨hnil, hnext, hsome, hother⟩ := htight.of_keyword rfl
      obtain rfl : m = l.other := SupertypeList.eq_other_of_ne fun hm => hnext (by rw [hm])
      refine .inr ⟨vs, rfl, ?_, ?_, hsome, htight.after_keyword rfl⟩
      · rw [l.other_other] at hother
        exact hother rfl
      · rwa [listOf_adding_other] at hnil

end Tight

/-! ## §4. No other words come back. -/

/-- The clauses of the two lists, without blanks. -/
def listClauses (d : Declaration) : Text :=
  listClause SupertypeList.mixins.keyword d.mixins
    ++ listClause SupertypeList.interfaces.keyword d.interfaces

/-- The first letter tells which list comes first. -/
theorem head?_listClauses (d : Declaration) :
    d.listClauses.head? = if d.mixins ≠ [] then some 'w' else if d.interfaces ≠ [] then some 'i'
      else none := by
  unfold listClauses
  by_cases hm : d.mixins = []
  · rw [hm]
    show (listClause SupertypeList.interfaces.keyword d.interfaces).head? = _
    by_cases hi : d.interfaces = []
    · rw [hi]
      rfl
    · rw [listClause_of_ne_nil hi, if_neg (by simp), if_pos hi]
      rfl
  · rw [listClause_of_ne_nil hm, if_pos hm]
    rfl

/-- The words after `with`: a list, and after it the words after `implements` if they come. -/
theorem Tight.mixins (h : Tight d { listNext := some .mixins } ws d')
    (hs : d.superclass ≠ none ∨ d'.superclass = none) (hm : d.mixins = []) (hi : d.interfaces = [])
    (hsome : d'.mixins ≠ [])
    (htext : SupertypeList.mixins.keyword ++ squeeze ws.flatten = d'.listClauses) :
    ∃ us int, ws = us ++ int ∧ ListWords us ∧ ClauseWords .interfaces int := by
  obtain ⟨us, hus, hcases⟩ := h.list_cases hs
  have hmixins : (d.adding .mixins (us.flatMap splitTopLevel)).mixins
      = us.flatMap splitTopLevel := by
    show d.mixins ++ _ = _
    rw [hm]
    rfl
  rcases hcases with ⟨rfl, rfl⟩ | ⟨vs, rfl, hne, -, hsome', htight⟩
  · rw [hmixins] at hsome
    refine ⟨ws, [], (append_nil ws).symm, ⟨hsome, hus, ?_⟩, .inl rfl⟩
    rw [listClauses, hmixins, listClause_of_ne_nil hsome,
      show (d.adding .mixins (ws.flatMap splitTopLevel)).interfaces = [] from hi,
      append_assoc] at htext
    have htext := append_cancel_left htext
    rwa [show listClause SupertypeList.interfaces.keyword [] = [] from rfl, append_nil] at htext
  · have htight : Tight _ { listNext := some .interfaces } vs d' := htight
    obtain ⟨vs', hvs, hcases⟩ := htight.list_cases hs
    rcases hcases with ⟨rfl, rfl⟩ | ⟨-, -, -, hnil, -⟩
    · -- both lists are read, and the texts can only differ in the commas of the first one
      have hfirst : ((d.adding .mixins (us.flatMap splitTopLevel)).adding .interfaces
          (vs.flatMap splitTopLevel)).mixins = us.flatMap splitTopLevel := hmixins
      have hsecond : ((d.adding .mixins (us.flatMap splitTopLevel)).adding .interfaces
          (vs.flatMap splitTopLevel)).interfaces = vs.flatMap splitTopLevel := by
        show d.interfaces ++ _ = _
        rw [hi]
        rfl
      have hsome' : vs.flatMap splitTopLevel ≠ [] := hsecond ▸ hsome'
      rw [hfirst] at hsome
      rw [listClauses, hfirst, hsecond, listClause_of_ne_nil hsome, listClause_of_ne_nil hsome',
        append_assoc, flatten_append, flatten_cons, squeeze_append,
        squeeze_append, squeeze_keyword] at htext
      obtain ⟨hus', hvs'⟩ := squeeze_eq_of_inked_eq (append_cancel_left htext)
        ((inked_join_comma _).trans (inked_flatMap_splitTopLevel us)).symm
          (show some 'i' ≠ some ',' by decide)
        (show some 'i' ≠ some ',' by decide)
      exact ⟨us, _ :: vs, rfl, ⟨hsome, hus, hus'⟩,
        .inr ⟨vs, rfl, hsome', hvs, append_cancel_left hvs'⟩⟩
    · exact absurd hnil hne

/-- The words after `implements`, if there are no mixins in the end. -/
theorem Tight.interfaces (h : Tight d { listNext := some .interfaces } ws d')
    (hs : d.superclass ≠ none ∨ d'.superclass = none) (hi : d.interfaces = [])
    (hsome : d'.interfaces ≠ []) (hnone : d'.mixins = [])
    (htext : SupertypeList.interfaces.keyword ++ squeeze ws.flatten = d'.listClauses) :
    ListWords ws := by
  obtain ⟨us, hus, hcases⟩ := h.list_cases hs
  rcases hcases with ⟨rfl, rfl⟩ | ⟨-, -, -, -, hmixins, -⟩
  · have hlist : (d.adding .interfaces (ws.flatMap splitTopLevel)).interfaces
        = ws.flatMap splitTopLevel := by
      show d.interfaces ++ _ = _
      rw [hi]
      rfl
    rw [hlist] at hsome
    refine ⟨hsome, hus, ?_⟩
    rw [listClauses, hnone, hlist, listClause_of_ne_nil hsome] at htext
    exact append_cancel_left htext
  · exact absurd hnone hmixins

/-- No clause begins with a comma. -/
theorem listClauses_head?_ne (d : Declaration) : d.listClauses.head? ≠ some ',' := by
  rw [head?_listClauses]
  split
  · decide
  · split <;> decide

/-- The words of the lists. -/
theorem Tight.lists (h : Tight d {} ws d') (hs : d.superclass ≠ none ∨ d'.superclass = none)
    (hm : d.mixins = []) (hi : d.interfaces = []) (hws : ∀ w ∈ ws, w.squeeze ≠ [])
    (htext : squeeze ws.flatten = d'.listClauses) :
    ∃ mix int, ws = mix ++ int ∧ ClauseWords .mixins mix ∧ ClauseWords .interfaces int := by
  have hhead := head?_listClauses d'
  cases ws with
  | nil => exact ⟨[], [], rfl, .inl rfl, .inl rfl⟩
  | cons w ws =>
    rw [flatten_cons, squeeze_append] at htext
    by_cases hw : w ∈ declarationKeywords
    · rcases mem_declarationKeywords.mp hw with rfl | rfl | ⟨l, rfl⟩
      · exact absurd rfl h.ne_class
      · obtain ⟨hnone, -, hsome⟩ := h.of_extends
        exact absurd hs (not_or.mpr ⟨fun h => h hnone, hsome⟩)
      · obtain ⟨-, -, hsome, -⟩ := h.of_keyword rfl
        rw [squeeze_keyword] at htext
        cases l with
        | mixins =>
          obtain ⟨us, int, rfl, hus, hint⟩ :=
            (h.after_keyword rfl).mixins hs hm hi hsome htext
          exact ⟨_ :: us, int, rfl, .inr ⟨us, rfl, hus⟩, hint⟩
        | interfaces =>
          -- mixins would be printed in front
          have hnone : d'.mixins = [] := by
            by_cases hm' : d'.mixins = []
            · exact hm'
            · rw [← htext, if_pos hm'] at hhead
              exact absurd (show some 'i' = some 'w' from hhead) (by decide)
          exact ⟨[], _ :: ws, rfl, .inl rfl, .inr ⟨ws, rfl,
            (h.after_keyword rfl).interfaces hs hi hsome hnone htext⟩⟩
    · -- a word that is passed over is made of commas, with which no clause begins
      have hcomma := head?_squeeze_of_ink (h.of_not_mem hw) (hws w mem_cons_self)
      refine absurd ?_ (listClauses_head?_ne d')
      rw [← htext, head?_append, hcomma]
      rfl

theorem clauses_eq (d : Declaration) :
    d.clauses = superclassClause d.superclass ++ d.listClauses := rfl

/-- The first word of words that begin with an `e` and of which nothing is lost. -/
theorem Tight.first_extends (h : Tight d {} (w :: ws) d') (hw : w.squeeze.head? = some 'e') :
    w = "extends".toList := by
  by_cases hkey : w ∈ declarationKeywords
  · rcases mem_declarationKeywords.mp hkey with rfl | rfl | ⟨l, rfl⟩
    · exact absurd rfl h.ne_class
    · rfl
    · rw [squeeze_keyword] at hw
      revert hw
      cases l <;> decide
  · have hne : w.squeeze ≠ [] := by
      intro hnil
      rw [hnil] at hw
      cases hw
    rw [head?_squeeze_of_ink (h.of_not_mem hkey) hne] at hw
    exact absurd hw (by decide)

/-- The word after `extends` is the superclass. -/
theorem Tight.superclass_word {s : Text} (h : Tight d { superclassNext := true } (s :: ws) d') :
    s ≠ "class".toList ∧ s ≠ "extends".toList
      ∧ Tight { d with superclass := some (s.removeEnd [',']) } {} ws d' := by
  have hextends : s ≠ "extends".toList := by
    rintro rfl
    cases h.of_extends.2.1
  refine ⟨h.ne_class, hextends, ?_⟩
  obtain ⟨d₁, r₁, h₁, hrest, -⟩ := h.cons
  rw [readWord, if_neg (by simpa using h.ne_class), if_neg (by simpa using hextends),
    if_pos rfl] at h₁
  cases h₁
  exact hrest

/-- **The words of the clauses**, of which nothing is lost. -/
theorem Tight.clauses (h : Tight d {} ws d') (hs : d.superclass = none) (hm : d.mixins = [])
    (hi : d.interfaces = []) (hws : ∀ w ∈ ws, w.squeeze ≠ [])
    (htext : squeeze ws.flatten = d'.clauses) :
    ∃ ext mix int, ws = ext ++ (mix ++ int) ∧ SuperclassWords ext ∧ ClauseWords .mixins mix
      ∧ ClauseWords .interfaces int := by
  cases hs' : d'.superclass with
  | none =>
    rw [clauses_eq, hs'] at htext
    obtain ⟨mix, int, rfl, hmix, hint⟩ := h.lists (.inr hs') hm hi hws htext
    exact ⟨[], mix, int, rfl, .inl rfl, hmix, hint⟩
  | some s' =>
    -- the clause of the superclass is printed first, so its keyword is the first word
    have hextends : superclassClause (some s') = "extends".toList ++ s'.squeeze := rfl
    rw [clauses_eq, hs', hextends] at htext
    cases ws with
    | nil => cases (show none = some 'e' from congrArg head? htext)
    | cons w ws =>
      rw [flatten_cons, squeeze_append] at htext
      have hhead : w.squeeze.head? = some 'e' := by
        obtain ⟨c, r, hc⟩ := exists_cons_of_ne_nil (hws w mem_cons_self)
        rw [hc] at htext ⊢
        exact congrArg head? htext
      obtain rfl := h.first_extends hhead
      obtain ⟨d₁, r₁, h₁, hrest, -⟩ := h.cons
      cases (show Except.ok (d, _) = _ from h₁)
      rw [append_assoc] at htext
      have htext := append_cancel_left htext
      cases ws with
      | nil =>
        obtain rfl := Except.ok.inj hrest.read_eq
        rw [hs] at hs'
        cases hs'
      | cons s ws =>
        obtain ⟨hclass, hnot, htight⟩ := hrest.superclass_word
        have hkept := htight.superclass_eq rfl rfl
        obtain rfl := Option.some.inj (hs'.symm.trans hkept)
        rw [flatten_cons, squeeze_append] at htext
        have hcomma : s.endsWith [','] = false := by
          rw [Bool.eq_false_iff]
          intro hend
          obtain ⟨u, rfl⟩ := isSuffixOf_iff_suffix.mp hend
          rw [removeEnd_append, squeeze_append, append_assoc] at htext
          exact absurd (congrArg head? (append_cancel_left htext)).symm
            (listClauses_head?_ne d')
        rw [removeEnd_of_not_endsWith hcomma] at htext htight
        obtain ⟨mix, int, rfl, hmix, hint⟩ := htight.lists (.inl (Option.some_ne_none s)) hm hi
          (fun v hv => hws v (by simp [hv])) (append_cancel_left htext)
        exact ⟨["extends".toList, s], mix, int, rfl, .inr ⟨s, rfl, hclass, hnot, hcomma⟩, hmix,
          hint⟩

theorem clauses_head?_ne (d : Declaration) : d.clauses.head? ≠ some ',' := by
  rw [clauses_eq]
  cases d.superclass with
  | none => exact listClauses_head?_ne d
  | some s => exact show some 'e' ≠ some ',' by decide

/-- **No other words come back.**  The text ends with the opening brace. -/
theorem headWords_of_squeeze_print {isAbstract : Bool} {n : Option Text} {after : Text}
    (hnamed : NamedWords isAbstract ws) (hws : ∀ w ∈ ws, w.squeeze ≠ []) (hname : d.name.isSome)
    (h : readWords { name := n } {} ws = .ok d)
    (htext : squeeze ws.flatten ++ '{' :: after = (d.print isAbstract).squeeze ++ ['{']) :
    HeadWords isAbstract ws ∧ after = [] := by
  obtain ⟨w, ws, rfl, hw⟩ := hnamed
  rw [readWords_classWords] at h
  obtain ⟨name, generics, hsplit, hrun⟩ := readWords_name_word hw _ h
  replace hrun : readWords { name := some name, generics := generics.getD [] } {} ws = .ok d := hrun
  obtain ⟨lost, hlost, hclosed⟩ := splitClassName_lost hsplit
  have hshown : d.shownName = d.name.getD [] := by
    obtain ⟨m, hm⟩ := Option.isSome_iff_exists.mp hname
    rw [shownName, hm]
    rfl
  rw [squeeze_classWords, squeeze_print, append_assoc, append_assoc] at htext
  have htext := append_cancel_left htext
  rw [hshown, flatten_cons, squeeze_append] at htext
  -- nothing can be lost, as no more than the words is printed
  have hink : w.ink + ink ws.flatten + ink after
      = (d.name.getD []).ink + d.generics.ink + d.clauses.ink := by
    have hsame := congrArg ink htext
    have hsqueeze : ∀ t : Text, t.squeeze.ink = t.ink := fun t =>
      congrArg length (inked_squeeze t)
    have hbrace : ink ('{' :: after) = 1 + ink after := ink_append ['{'] after
    have hone : ink ['{'] = 1 := by decide
    simp only [ink_append, hsqueeze, hbrace, hone] at hsame
    omega
  have hstart : w.ink = potential {} { name := some name, generics := generics.getD [] } {}
      + lost.ink := by
    rw [hlost, ink_append, ink_append]
    show _ = name.ink + (generics.getD []).ink + 0 + 0 + 0 + _
    omega
  have hend := potential_end d
  have hle := readWords_potential {} ws hrun
  have htight : Tight { name := some name, generics := generics.getD [] } {} ws d :=
    ⟨hrun, by omega⟩
  obtain ⟨hname, hgenerics⟩ := htight.name_eq rfl
  -- what follows the brace would end with a brace as well
  have hafter : after = [] := by
    rcases eq_nil_or_concat after with hnil | ⟨a, c, rfl⟩
    · exact hnil
    · rw [concat_eq_append, ← cons_append, ← append_assoc] at htext
      obtain rfl : c = '{' := singleton_inj.mp (append_inj_right' htext rfl)
      have hone : ink ['{'] = 1 := by decide
      rw [concat_eq_append, ink_append] at hink
      omega
  subst hafter
  refine ⟨?_, rfl⟩
  have htext := append_cancel_right htext
  rw [hname, hgenerics, hlost, Option.getD_some, squeeze_append, squeeze_append,
    append_assoc, append_assoc] at htext
  have htext := append_cancel_left (append_cancel_left htext)
  -- nor does a comma stand in front of the clauses
  have hnone : lost.squeeze = [] := by
    cases hl : lost.squeeze with
    | nil => rfl
    | cons c r =>
      have hcomma := head?_squeeze_of_ink (t := lost) (by omega) (by simp [hl])
      refine absurd ?_ (clauses_head?_ne d)
      rw [← htext, head?_append, hcomma]
      rfl
  rw [hnone] at htext
  obtain ⟨ext, mix, int, rfl, hext, hmix, hint⟩ :=
    htight.clauses rfl rfl rfl (fun v hv => hws v (by simp [hv])) htext
  exact ⟨w, ext, mix, int, rfl, hw, hclosed.mp hnone, hext, hmix, hint⟩

end Declaration

end DartData
