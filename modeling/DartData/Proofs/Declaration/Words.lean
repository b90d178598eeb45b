import DartData.Proofs.Scan.Body
import DartData.Proofs.Text.Divided

/-!
# The words of a declaration

A class line is read word by word.  A name with type arguments is one word, as long as the brackets
of the arguments are balanced: a blank or a comma inside of them divides nothing.

`IsDeclarationWord` is what such a word is, and `declarationWords_go_join` finds words that stand
with a blank between them.
-/

namespace DartData

open List Text

/-! ## §1. Balanced brackets. -/

/-- Whether every bracket closes the one that was opened last.  `expected` are the closing brackets
    of those that are open, the innermost first. -/
def balancedFrom (expected : List Char) : Text → Bool
  | [] => expected.isEmpty
  | c :: r =>
    match closerOf? c with
    | some d => balancedFrom (d :: expected) r
    | none =>
      if isCloser c then expected.head? == some c && balancedFrom expected.tail r
      else balancedFrom expected r

variable {c d : Char} {t : Text}

/-- What a character does in a balanced text: it opens a bracket, closes the last one, or is no
    bracket. -/
theorem balancedFrom_cons {expected : List Char} {r : Text} (h : balancedFrom expected (c :: r)) :
    (∃ d, closerOf? c = some d ∧ balancedFrom (d :: expected) r) ∨ (closerOf? c = none ∧ isCloser c
        ∧ ∃ outer, expected = c :: outer ∧ balancedFrom outer r)
      ∨ (closerOf? c = none ∧ isCloser c = false ∧ balancedFrom expected r) := by
  unfold balancedFrom at h
  cases hc : closerOf? c with
  | some d => exact .inl ⟨d, rfl, by simpa [hc] using h⟩
  | none =>
    rw [hc] at h
    dsimp only at h
    cases hd : isCloser c with
    | false => exact .inr (.inr ⟨rfl, rfl, by simpa [hd] using h⟩)
    | true =>
      rw [hd, if_pos rfl, Bool.and_eq_true, beq_iff_eq] at h
      cases expected with
      | nil => simp at h
      | cons e outer =>
        have he : e = c := by simpa using h.1
        exact .inr (.inl ⟨rfl, rfl, outer, by rw [he], h.2⟩)

/-- The four shapes of brackets. -/
theorem closerOf?_eq_some {o : Char} (h : closerOf? o = some d) :
    (o = '(' ∧ d = ')') ∨ (o = '<' ∧ d = '>') ∨ (o = '[' ∧ d = ']')
      ∨ (o = '\x7b' ∧ d = '\x7d') := by
  unfold closerOf? at h
  grind

/-! ## §2. Names with type arguments. -/

/-- Whether a character may stand in a name: it is no blank, no bracket, no comma and no equals
    sign. -/
def isNameChar (c : Char) : Bool :=
  !isBlank c && !(['<', '>', '(', ')', '[', ']', '\x7b', '\x7d', ',', '='].contains c)

/-- Whether a text is a name.  Every identifier is one. -/
def isName (t : Text) : Bool := !t.isEmpty && t.all isNameChar

theorem ne_of_isNameChar (h : isNameChar c) (hd : isNameChar d = false) : c ≠ d := by
  rintro rfl
  simp [h] at hd

theorem isBlank_of_isNameChar (h : isNameChar c) : isBlank c = false := by
  rw [isNameChar, Bool.and_eq_true, Bool.not_eq_true'] at h
  exact h.1

theorem isNameChar_of_isWord (h : isWord c) : isNameChar c := by
  have hnone : ∀ d ∈ ['<', '>', '(', ')', '[', ']', '\x7b', '\x7d', ',', '='],
      (!isWord d) := all_eq_true.mp (by decide)
  rw [isNameChar, isBlank_of_isWord h, Bool.not_false, Bool.true_and, Bool.not_eq_true',
    Bool.eq_false_iff, ne_eq, contains_iff_mem]
  intro hmem
  simpa [h] using hnone c hmem

theorem isName_iff : isName t ↔ t ≠ [] ∧ ∀ c ∈ t, isNameChar c := by
  rw [isName, Bool.and_eq_true, all_eq_true, Bool.not_eq_true', isEmpty_eq_false_iff]

theorem isName_of_isWord (h : t.all isWord) (hne : t ≠ []) : isName t :=
  isName_iff.mpr ⟨hne, fun c hc => isNameChar_of_isWord (all_eq_true.mp h c hc)⟩

theorem isName_of_isIdentifier (h : isIdentifier t) : isName t :=
  isName_of_isWord (all_isWord_of_isIdentifier h) (ne_nil_of_isIdentifier h)

theorem not_mem_of_isName (h : isName t) (hd : isNameChar d = false) :
    d ∉ t := fun hmem => ne_of_isNameChar ((isName_iff.mp h).2 d hmem) hd rfl

/-- A list in angle brackets, or nothing: the brackets between them are balanced. -/
def IsTypeArguments (t : Text) : Prop :=
  t = [] ∨ ∃ body, t = '<' :: (body ++ ['>']) ∧ balancedFrom [] body = true

/-- Whether a text is a list in angle brackets, on one line. -/
def isTypeList (t : Text) : Bool :=
  t.head? == some '<' && t.getLast? == some '>' && balancedFrom [] (t.drop 1).dropLast
    && !t.contains '\n'

/-- The words that say what the next words of a declaration are. -/
def declarationKeywords : List Text :=
  ["class", "extends", "with", "implements"]

/-- A name with type arguments or without, and no keyword. -/
def IsSupertype (t : Text) : Prop :=
  ∃ name args, t = name ++ args ∧ isName name = true ∧ IsTypeArguments args ∧ '=' ∉ args
    ∧ t ∉ declarationKeywords

/-- Whether a text is an identifier, with a list in angle brackets behind it or not, and no
    keyword. -/
def isSupertype (t : Text) : Bool :=
  isIdentifier (t.takeWhile isWord) &&
    ((t.dropWhile isWord).isEmpty || isTypeList (t.dropWhile isWord))
    && !t.contains '=' && !declarationKeywords.contains t

/-- Whether all parts of the declaration are names with type arguments. -/
def Declaration.isPrintable (d : Declaration) : Bool :=
  d.name.any (fun n => isIdentifier n && n.head?.any Char.isUpper)
    && (d.generics.isEmpty || isTypeList d.generics) && d.superclass.all isSupertype
    && d.mixins.all isSupertype && d.interfaces.all isSupertype

/-- A list of types is a balanced text in angle brackets. -/
theorem isTypeList_iff : isTypeList t ↔
    ∃ body, t = '<' :: (body ++ ['>']) ∧ balancedFrom [] body ∧ '\n' ∉ t := by
  simp only [isTypeList, Bool.and_eq_true, beq_iff_eq, Bool.not_eq_true', contains_eq_mem,
    decide_eq_false_iff_not]
  constructor
  · rintro ⟨⟨⟨hh, hl⟩, hb⟩, hn⟩
    obtain ⟨r, rfl⟩ := head?_eq_some_iff.mp hh
    have hr : r ≠ [] := by
      rintro rfl
      simp at hl
    rw [getLast?_cons_of_ne_nil hr] at hl
    obtain ⟨body, rfl⟩ := getLast?_eq_some_iff.mp hl
    exact ⟨body, rfl, by simpa using hb, hn⟩
  · rintro ⟨body, rfl, hb, hn⟩
    refine ⟨⟨⟨rfl, ?_⟩, by simpa using hb⟩, hn⟩
    rw [← cons_append, getLast?_concat]

theorem isTypeArguments_of_isTypeList (h : t = [] ∨ isTypeList t) : IsTypeArguments t := by
  refine h.imp_right fun h => ?_
  obtain ⟨body, ht, hbody, -⟩ := isTypeList_iff.mp h
  exact ⟨body, ht, hbody⟩

/-- The check tells supertypes on one line. -/
theorem isSupertype_cases (h : isSupertype t) : IsSupertype t ∧ '\n' ∉ t := by
  simp only [isSupertype, Bool.and_eq_true, Bool.or_eq_true, List.isEmpty_iff, Bool.not_eq_true',
    contains_eq_mem, decide_eq_false_iff_not] at h
  obtain ⟨⟨⟨hname, hargs⟩, hequals⟩, hkey⟩ := h
  have ht : t.takeWhile isWord ++ t.dropWhile isWord = t := takeWhile_append_dropWhile
  have hsub : '=' ∉ t.dropWhile isWord :=
    fun hmem => hequals ((dropWhile_sublist isWord).subset hmem)
  refine ⟨⟨_, _, ht.symm, isName_of_isIdentifier hname, isTypeArguments_of_isTypeList hargs, hsub,
    hkey⟩, ?_⟩
  rw [← ht, mem_append, not_or]
  refine ⟨not_mem_of_all (all_isWord_of_isIdentifier hname) (by decide), ?_⟩
  rcases hargs with hargs | hargs
  · rw [hargs]
    exact not_mem_nil
  · obtain ⟨body, -, -, hline⟩ := isTypeList_iff.mp hargs
    exact hline

/-! ## §3. The words of a line. -/

/-- The text stands in one word of a declaration. -/
def Passes (t : Text) : Prop :=
  ∀ (words : List Text) (word rest : Text),
    declarationWords.go words word 0 (t ++ rest) = declarationWords.go words (word ++ t) 0 rest

theorem Passes.append {u : Text} (ht : Passes t) (hu : Passes u) : Passes (t ++ u) := by
  intro words word rest
  rw [append_assoc, ht, hu, append_assoc]

/-- A character goes to the word unless it divides words. -/
theorem declarationWords_go_char {d a : Int}
    (hafter : (if c = '<' then d + 1 else if c = '>' then d - 1 else d) = a)
    (h : a ≠ 0 ∨ (c ≠ ' ' ∧ c ≠ '\x7b')) (words : List Text) (word rest : Text) :
    declarationWords.go words word d (c :: rest)
      = declarationWords.go words (word ++ [c]) a rest := by
  rw [declarationWords.go, hafter,
    if_neg (by simpa using fun h0 => h.elim (absurd h0) fun hc => hc.2),
    if_neg (by simpa using fun h0 => h.elim (absurd h0) fun hc => hc.1)]

theorem passes_char (h : isNameChar c ∨ c = ',') : Passes [c] := by
  have hne : ∀ d, isNameChar d = false → d ≠ ',' → c ≠ d := by
    rintro d hd hc rfl
    simp [hd, hc] at h
  intro words word rest
  refine declarationWords_go_char ?_
    (.inr ⟨hne ' ' (by decide) (by decide), hne '\x7b' (by decide) (by decide)⟩) words word rest
  rw [if_neg (hne '<' (by decide) (by decide)), if_neg (hne '>' (by decide) (by decide))]

theorem passes_nil : Passes [] := by
  intro words word rest
  rw [nil_append, append_nil]

theorem passes_name {w : Text} (h : ∀ c ∈ w, isNameChar c) : Passes w := by
  induction w with
  | nil => exact passes_nil
  | cons c w ih =>
    have hrest := ih fun d hd => h d (mem_cons_of_mem _ hd)
    exact (passes_char (.inl (h c mem_cons_self))).append hrest

/-- Inside of angle brackets nothing divides words.  The depth counts the angle brackets that are
    still open, and there is one around the text. -/
theorem declarationWords_go_balanced (t : Text) (expected : List Char) (words : List Text)
    (word rest : Text) (h : balancedFrom expected t) :
    declarationWords.go words word (expected.count '>' + 1 : Nat) (t ++ rest)
      = declarationWords.go words (word ++ t) 1 rest := by
  induction t generalizing expected words word rest with
  | nil =>
    rw [List.isEmpty_iff.mp h, append_nil]
    rfl
  | cons c r ih =>
    have hpos : ∀ k : Nat, ((k + 1 : Nat) : Int) ≠ 0 := by omega
    have hstep : ∀ k : Nat, (if c = '<' then ((expected.count '>' + 1 : Nat) : Int) + 1
        else if c = '>' then ((expected.count '>' + 1 : Nat) : Int) - 1
        else ((expected.count '>' + 1 : Nat) : Int)) = ((k + 1 : Nat) : Int) →
        declarationWords.go words (word ++ [c]) (k + 1 : Nat) (r ++ rest)
          = declarationWords.go words (word ++ c :: r) 1 rest →
        declarationWords.go words word (expected.count '>' + 1 : Nat) (c :: r ++ rest)
          = declarationWords.go words (word ++ c :: r) 1 rest := by
      intro k hk hrest
      rw [cons_append, declarationWords_go_char hk (.inl (hpos k)), hrest]
    have happ : word ++ c :: r = word ++ [c] ++ r := by simp
    -- an opening bracket, a closing one, or any other character
    rcases balancedFrom_cons h with ⟨d, hc, hr⟩ | ⟨hc, -, outer, rfl, hr⟩ | ⟨hc, hd, hr⟩
    · refine hstep _ ?_ (happ ▸ ih (d :: expected) words (word ++ [c]) rest hr)
      rcases closerOf?_eq_some hc with ⟨rfl, rfl⟩ | ⟨rfl, rfl⟩ | ⟨rfl, rfl⟩ | ⟨rfl, rfl⟩ <;> simp
    · refine hstep _ ?_ (happ ▸ ih outer words (word ++ [c]) rest hr)
      have hopen : c ≠ '<' := by
        rintro rfl
        simp [closerOf?] at hc
      by_cases hclose : c = '>'
      · subst hclose
        simp
      · simp [hopen, hclose]
    · refine hstep _ ?_ (happ ▸ ih expected words (word ++ [c]) rest hr)
      have hopen : c ≠ '<' := by
        rintro rfl
        simp [closerOf?] at hc
      have hclose : c ≠ '>' := by
        rintro rfl
        simp [isCloser] at hd
      simp [hopen, hclose]

/-- Type arguments are not cut into words. -/
theorem passes_typeArguments (h : IsTypeArguments t) : Passes t := by
  rcases h with rfl | ⟨body, rfl, hbody⟩
  · exact passes_nil
  intro words word rest
  have hopen := declarationWords_go_char (c := '<') (d := 0) (a := 1) rfl
    (.inl (by decide)) words word (body ++ ('>' :: rest))
  have hinside := declarationWords_go_balanced body [] words (word ++ ['<']) ('>' :: rest) hbody
  have hclose := declarationWords_go_char (c := '>') (d := 1) (a := 0) rfl
    (.inr (by decide)) words (word ++ ['<'] ++ body) rest
  have happ : '<' :: (body ++ ['>']) ++ rest = '<' :: (body ++ '>' :: rest) := by simp
  have happ' : word ++ '<' :: (body ++ ['>']) = word ++ ['<'] ++ body ++ ['>'] := by simp
  rw [happ, happ', hopen]
  exact hinside.trans hclose

/-- A word of a declaration: it is not cut, and not joined to the word before it. -/
structure IsDeclarationWord (w : Text) : Prop where
  passes : Passes w
  begins : ∃ c r, w = c :: r ∧ isBlank c = false ∧ c ≠ '<'
  ends : ∀ c, w.getLast? = some c → isBlank c = false

namespace IsDeclarationWord

variable {w : Text}

theorem addWord_eq (h : IsDeclarationWord w) (words : List Text) :
    addWord words w = words ++ [w] := by
  obtain ⟨c, r, rfl, hblank, hne⟩ := h.begins
  have htrim : trim (c :: r) = c :: r :=
    trim_eq_self (fun d hd => Option.some.inj hd ▸ hblank) h.ends
  have hstart : startsWith (c :: r) ['<'] = false := startsWith_eq_false rfl rfl hne
  unfold addWord
  rw [htrim]
  simp [hstart]

theorem ofName (h : isName w) : IsDeclarationWord w := by
  obtain ⟨hne, hall⟩ := isName_iff.mp h
  refine ⟨passes_name hall, ?_, fun c hc => isBlank_of_isNameChar (hall c (mem_of_getLast? hc))⟩
  obtain ⟨c, r, rfl⟩ := exists_cons_of_ne_nil hne
  have hc := hall c mem_cons_self
  exact ⟨c, r, rfl, isBlank_of_isNameChar hc, ne_of_isNameChar hc (by decide)⟩

/-- Something that goes on with the word. -/
theorem append {u : Text} (h : IsDeclarationWord w) (hu : Passes u)
    (hlast : ∀ c, u.getLast? = some c → isBlank c = false) : IsDeclarationWord (w ++ u) where
  passes := h.passes.append hu
  begins := by
    obtain ⟨c, r, rfl, hc⟩ := h.begins
    exact ⟨c, r ++ u, rfl, hc⟩
  ends := by
    intro c hc
    rw [getLast?_append] at hc
    cases hu : u.getLast? with
    | none => exact h.ends c (by simpa [hu] using hc)
    | some d =>
      rw [hu, Option.some_or, Option.some.injEq] at hc
      exact hc ▸ hlast d hu

theorem typeArguments (h : IsDeclarationWord w) (ht : IsTypeArguments t) :
    IsDeclarationWord (w ++ t) := by
  refine h.append (passes_typeArguments ht) fun c hc => ?_
  rcases ht with rfl | ⟨body, rfl, -⟩
  · simp at hc
  · rw [← cons_append, getLast?_concat, Option.some.injEq] at hc
    subst hc
    decide

theorem comma (h : IsDeclarationWord w) : IsDeclarationWord (w ++ [',']) :=
  h.append (passes_char (.inr rfl)) fun c hc => by
    simp only [getLast?_singleton, Option.some.injEq] at hc
    subst hc
    decide

end IsDeclarationWord

/-- **Words with a blank between them are found again.** -/
theorem declarationWords_go_join (ws : List Text) (words : List Text) (h : ws ≠ [])
    (hws : ∀ w ∈ ws, IsDeclarationWord w) :
    declarationWords.go words [] 0 (join " " ws ++ " \x7b") = words ++ ws := by
  induction ws generalizing words with
  | nil => exact absurd rfl h
  | cons w ws ih =>
    have hw := hws w mem_cons_self
    -- a blank ends the word
    have hword : ∀ rest, declarationWords.go words [] 0 (w ++ ' ' :: rest)
        = declarationWords.go (words ++ [w]) [] 0 rest := by
      intro rest
      rw [hw.passes, nil_append, declarationWords.go, hw.addWord_eq]
      rfl
    cases ws with
    | nil =>
      rw [join_singleton]
      exact hword "\x7b"
    | cons v vs =>
      have happ : join " " (w :: v :: vs) ++ " \x7b"
          = w ++ ' ' :: (join " " (v :: vs) ++ " \x7b") := by
        rw [join_cons_cons]
        simp
      rw [happ, hword, ih (words ++ [w]) (cons_ne_nil _ _) (forall_mem_cons.mp hws).2]
      simp

/-! ## §4. Supertypes. -/

theorem IsSupertype.not_mem (h : IsSupertype t) : t ∉ declarationKeywords := by
  obtain ⟨-, -, -, -, -, -, hkey⟩ := h
  exact hkey

theorem IsSupertype.isDeclarationWord (h : IsSupertype t) : IsDeclarationWord t := by
  obtain ⟨name, args, rfl, hname, hargs, -, -⟩ := h
  exact (IsDeclarationWord.ofName hname).typeArguments hargs

namespace Text

/-- Inside of brackets nothing is divided.  The depth counts those that are still open, and there
    is one around the text. -/
theorem endDepth?_balanced (t : Text) (expected : List Char) {p : Option Char}
    (h : balancedFrom expected t) (hne : '=' ∉ t) (hp : p ≠ some '=') :
    endDepth? (expected.length + 1 : Nat) p t = some 1 := by
  induction t generalizing expected p with
  | nil =>
    rw [List.isEmpty_iff.mp h]
    rfl
  | cons c r ih =>
    rw [mem_cons, not_or] at hne
    have hchar : some c ≠ some '=' := by simpa using Ne.symm hne.1
    rw [endDepth?, if_neg (by omega), depthAfter, closes_eq hp]
    rcases balancedFrom_cons h with ⟨d, hc, hr⟩ | ⟨hc, hd, outer, rfl, hr⟩ | ⟨hc, hd, hr⟩
    · simpa [hc] using ih (d :: expected) hr hne.2 hchar
    · simpa [hc, hd] using ih outer hr hne.2 hchar
    · simpa [hc, hd] using ih expected hr hne.2 hchar

theorem endDepth?_typeArguments (h : IsTypeArguments t) (hne : '=' ∉ t) :
    endDepth? 0 none t = some 0 := by
  rcases h with rfl | ⟨body, rfl, hbody⟩
  · rfl
  have hbody' : '=' ∉ body := fun hmem => hne (by simp [hmem])
  have hinside : endDepth? 1 (some '<') body = some 1 :=
    endDepth?_balanced body [] hbody hbody' (by decide)
  rw [endDepth?, if_neg (by decide)]
  show endDepth? 1 (some '<') (body ++ ['>']) = some 0
  rw [endDepth?_append, hinside]
  exact endDepth?_congr (getLast?_or_ne hbody' (by decide)) (q := none) (by decide) 1 ['>']

/-- A supertype is not divided, and a comma behind it is dropped. -/
theorem splitTopLevel_supertype {m : Text} (h : IsSupertype m) :
    splitTopLevel m = [m] ∧ splitTopLevel (m ++ [',']) = [m] := by
  obtain ⟨c, r, hm, hc, -⟩ := h.isDeclarationWord.begins
  have htrim : m.trim = m :=
    trim_eq_self (fun d hd => Option.some.inj ((hm ▸ rfl : m.head? = some c).symm.trans hd) ▸ hc)
      h.isDeclarationWord.ends
  have hnil : m ≠ [] := hm ▸ cons_ne_nil c r
  obtain ⟨name, args, rfl, hname, hargs, hne, -⟩ := h
  have hflat : ∀ c ∈ name, isFlatItem c := fun c hc =>
    isFlatItem_of_class ((isName_iff.mp hname).2 c hc) (by decide)
  have hdepth : endDepth? 0 none (name ++ args) = some 0 := by
    rw [endDepth?_flat_append hflat (not_mem_of_isName hname (by decide)) (by decide)]
    exact endDepth?_typeArguments hargs hne
  have hitem : itemOf (name ++ args) = [name ++ args] := by rw [itemOf_eq (by rwa [htrim]), htrim]
  constructor
  · rw [splitTopLevel_eq_itemOf hdepth, hitem]
  · rw [splitTopLevel_append_comma hdepth, hitem]
    rfl

end Text

end DartData
