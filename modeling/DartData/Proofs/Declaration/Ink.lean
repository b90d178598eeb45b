import DartData.Proofs.Declaration.Print

/-!
# What reading a declaration loses

A declaration is read word by word, and printed again it has no more ink than its words had, where
the ink of a text is what is left of it without blanks and commas.  The proof goes by a potential:
what would be printed of the declaration so far, with the keywords that still wait for their words
(`potential`).  No word adds more to it than its own ink (`readWord_potential`), so a keyword that
comes to nothing, a word that is passed over and a part that is read twice are all seen in the end.
-/

namespace DartData

open List Text

/-! ## §1. Ink. -/

namespace Text

/-- What is left of a text without blanks and commas. -/
def inked (t : Text) : Text := t.filter fun c => !isBlank c && c != ','

/-- How much that is. -/
def ink (t : Text) : Nat := t.inked.length

@[simp] theorem inked_nil : inked [] = [] := rfl

@[simp] theorem inked_append (t u : Text) : inked (t ++ u) = t.inked ++ u.inked :=
  filter_append t u

@[simp] theorem ink_nil : ink [] = 0 := rfl

@[simp] theorem ink_append (t u : Text) : ink (t ++ u) = t.ink + u.ink := by
  simp [ink]

theorem inked_squeeze (t : Text) : t.squeeze.inked = t.inked := by
  rw [squeeze, inked, filter_filter, inked]
  congr 1
  funext c
  cases isBlank c <;> simp

theorem inked_trim (t : Text) : t.trim.inked = t.inked := by
  rw [← inked_squeeze, squeeze_trim, inked_squeeze]

theorem inked_removeEnd_comma (t : Text) : (t.removeEnd [',']).inked = t.inked := by
  unfold removeEnd
  split
  next h =>
    obtain ⟨u, rfl⟩ := isSuffixOf_iff_suffix.mp h
    simp only [length_append, Nat.add_sub_cancel, take_left, inked_append]
    exact (append_nil _).symm
  next => rfl

theorem inked_join_comma (ms : List Text) : (join [','] ms).inked = inked ms.flatten := by
  induction ms with
  | nil => rfl
  | cons m ms ih =>
    cases ms with
    | nil => simp
    | cons n ms =>
      rw [join_cons_cons, inked_append, inked_append, ih, flatten_cons (l := m), inked_append]
      exact congrArg (· ++ _) (append_nil _)

theorem inked_itemOf (t : Text) : inked (itemOf t).flatten = t.inked := by
  rw [itemOf, ← inked_trim t]
  split <;> simp [*]

theorem inked_splitTopLevel (t : Text) : inked t.splitTopLevel.flatten = t.inked := by
  refine splitTopLevel_induction (P := fun t items => inked items.flatten = t.inked)
    (fun t _ _ => inked_itemOf t) (fun u r _ ih => ?_) t
  rw [flatten_append, inked_append, inked_itemOf, ih, inked_append]
  rfl

theorem inked_flatMap_splitTopLevel (us : List Text) :
    inked (us.flatMap splitTopLevel).flatten = inked us.flatten := by
  induction us with
  | nil => rfl
  | cons u us ih =>
    rw [flatMap_cons, flatten_append, flatten_cons, inked_append, inked_append, ih,
      inked_splitTopLevel]

/-- Text without ink is made of commas. -/
theorem head?_squeeze_of_ink {t : Text} (h : t.ink = 0) (hne : t.squeeze ≠ []) :
    t.squeeze.head? = some ',' := by
  obtain ⟨c, r, hc⟩ := exists_cons_of_ne_nil hne
  have hnil : t.squeeze.inked = [] := by
    rw [inked_squeeze]
    exact eq_nil_of_length_eq_zero h
  have hmem : c ∈ t.squeeze := hc ▸ mem_cons_self
  have hblank : isBlank c = false := by
    have := (mem_filter.mp hmem).2
    simpa using this
  rw [inked, filter_eq_nil_iff] at hnil
  have := hnil c hmem
  rw [hc]
  simpa [hblank] using this

/-- Two texts with the same ink differ in commas only, so they are the same if they go on to the
    same text and not with a comma. -/
theorem squeeze_eq_of_inked_eq {a a' b b' : Text} (h : a.squeeze ++ b = a'.squeeze ++ b')
    (hink : a.inked = a'.inked) (hb : b.head? ≠ some ',') (hb' : b'.head? ≠ some ',') :
    a.squeeze = a'.squeeze ∧ b = b' := by
  -- what one of the texts has more than the other has no ink
  have hmore : ∀ {a a' x b b' : Text}, a.inked = a'.inked → a'.squeeze = a.squeeze ++ x →
      b = x ++ b' → b.head? ≠ some ',' → x = [] := by
    intro a a' x b b' hink ha hb hhead
    cases x with
    | nil => rfl
    | cons c x =>
      have hblank : squeeze (c :: x) = c :: x := by
        refine filter_eq_self.mpr fun e he => ?_
        have hmem : e ∈ a'.squeeze := ha ▸ mem_append_right _ he
        exact (mem_filter.mp hmem).2
      have hzero : ink (c :: x) = 0 := by
        have := congrArg ink ha
        rw [ink_append, ink, ink, inked_squeeze, inked_squeeze, hink] at this
        omega
      have hcomma := head?_squeeze_of_ink hzero (by rw [hblank]; exact cons_ne_nil c x)
      rw [hblank] at hcomma
      rw [hb] at hhead
      exact absurd hcomma hhead
  rcases append_eq_append_iff.mp h with ⟨x, ha, hx⟩ | ⟨x, ha, hx⟩
  · obtain rfl := hmore hink ha hx hb
    exact ⟨by simpa using ha.symm, by simpa using hx⟩
  · obtain rfl := hmore hink.symm ha hx hb'
    exact ⟨by simpa using ha, by simpa using hx.symm⟩

end Text

/-! ## §2. What is printed. -/

namespace Declaration

/-- The clause of the superclass, without blanks. -/
def superclassClause : Option Text → Text
  | some s => "extends" ++ s.squeeze
  | none => []

/-- The clause of a list of supertypes, without blanks. -/
def listClause (keyword : Text) (ms : List Text) : Text :=
  if ms.isEmpty then [] else keyword ++ (join [','] ms).squeeze

/-- The clauses after the name, without blanks. -/
def clauses (d : Declaration) : Text :=
  superclassClause d.superclass
    ++ (listClause "with" d.mixins ++ listClause "implements" d.interfaces)

theorem listClause_of_ne_nil {ms : List Text} (h : ms ≠ []) (keyword : Text) :
    listClause keyword ms = keyword ++ (join [','] ms).squeeze :=
  if_neg (by simpa using h)

/-- A clause as it is printed. -/
theorem squeeze_if_listClause (keyword : Text) (ms : List Text) :
    squeeze (if ms.isEmpty then [] else keyword ++ join ", " ms)
      = listClause keyword.squeeze ms := by
  cases ms with
  | nil => rfl
  | cons m ms =>
    rw [listClause_of_ne_nil (cons_ne_nil m ms)]
    show squeeze (keyword ++ join ", " (m :: ms)) = _
    rw [squeeze_append, squeeze_join, squeeze_join]
    rfl

/-- The printed declaration without its blanks. -/
theorem squeeze_print (d : Declaration) (isAbstract : Bool) : (d.print isAbstract).squeeze
      = (if isAbstract then "abstractclass".toList else "class".toList)
        ++ (d.shownName.squeeze ++ (d.generics.squeeze ++ d.clauses)) := by
  have hfirst : squeeze (if isAbstract then "abstract class " else "class ")
      = if isAbstract then "abstractclass".toList else "class".toList := by
    cases isAbstract <;> decide
  have hwith : squeeze " with " = "with" := by decide
  have himplements : squeeze " implements " = "implements" := by decide
  rw [print, squeeze_append, squeeze_append, squeeze_append, squeeze_append,
    squeeze_append, hfirst, squeeze_if_listClause, squeeze_if_listClause, hwith, himplements,
    append_assoc, append_assoc, append_assoc, append_assoc]
  rw [show d.clauses = superclassClause d.superclass
    ++ (listClause "with" d.mixins ++ listClause "implements" d.interfaces) from rfl]
  cases d.superclass with
  | none => rfl
  | some s =>
    have hextends : squeeze (" extends " ++ s) = superclassClause (some s) :=
      squeeze_append _ s
    rw [← hextends]

/-! ## §3. One word. -/

/-- What a word can do. -/
theorem readWord_cases {d d' : Declaration} {r r' : DeclarationReader} {w : Text}
    (h : d.readWord r w = .ok (d', r')) :
    (w = "class" ∧ d' = d ∧ r' = { r with nameNext := true })
      ∨ (w = "extends" ∧ d' = d ∧ r' = { r with superclassNext := true })
      ∨ (r.superclassNext ∧ d' = { d with superclass := some (w.removeEnd [',']) }
        ∧ r' = { r with superclassNext := false })
      ∨ (r.superclassNext = false
        ∧ ((w = "with" ∧ d' = d ∧ r' = { r with listNext := some .mixins })
          ∨ (w = "implements" ∧ d' = d ∧ r' = { r with listNext := some .interfaces })
          ∨ (r.nameNext ∧ ∃ name generics, splitClassName w = .ok (name, generics)
            ∧ d' = { d with name := some name, generics := generics.getD d.generics }
            ∧ r' = { r with nameNext := false })
          ∨ (r.nameNext = false ∧ r.listNext = none ∧ d' = d ∧ r' = r)
          ∨ ∃ l, r.nameNext = false ∧ r.listNext = some l ∧ d' = d.adding l w.splitTopLevel
            ∧ r' = r)) := by
  -- the tests in the order of the reader: keywords come before what they announce
  unfold readWord at h
  split at h
  next hw =>
    cases h
    exact .inl ⟨by simpa using hw, rfl, rfl⟩
  next =>
    split at h
    next hw =>
      cases h
      exact .inr (.inl ⟨by simpa using hw, rfl, rfl⟩)
    next =>
      split at h
      next hs =>
        cases h
        exact .inr (.inr (.inl ⟨hs, rfl, rfl⟩))
      next hs =>
        refine .inr (.inr (.inr ⟨by simpa using hs, ?_⟩))
        split at h
        next hw =>
          cases h
          exact .inl ⟨by simpa using hw, rfl, rfl⟩
        next =>
          split at h
          next hw =>
            cases h
            exact .inr (.inl ⟨by simpa using hw, rfl, rfl⟩)
          next =>
            split at h
            next hn =>
              obtain ⟨⟨name, generics⟩, hsplit, h⟩ := bind_eq_ok.mp h
              cases h
              exact .inr (.inr (.inl ⟨hn, name, generics, hsplit, rfl, rfl⟩))
            next hn =>
              have hn : r.nameNext = false := by simpa using hn
              refine .inr (.inr (.inr ?_))
              split at h
              next hl =>
                cases h
                exact .inr ⟨.mixins, hn, hl, rfl, rfl⟩
              next hl =>
                cases h
                exact .inr ⟨.interfaces, hn, hl, rfl, rfl⟩
              next hl =>
                cases h
                exact .inl ⟨hn, hl, rfl, rfl⟩

/-- What stands after the last `>` of a text, and all of it where there is none. -/
def afterLastAngle (t : Text) : Text := (t.reverse.takeWhile (· ≠ '>')).reverse

/-- A class name is taken apart into the name, the type parameters and what is lost; nothing is lost
    exactly if the type parameters, if there are any, end the word. -/
theorem splitClassName_lost {w name : Text} {generics : Option Text}
    (h : splitClassName w = .ok (name, generics)) :
    ∃ lost : Text, w = name ++ (generics.getD [] ++ lost)
      ∧ (lost.squeeze = [] ↔ ('<' ∈ w → (afterLastAngle w).squeeze = [])) := by
  unfold splitClassName at h
  split at h
  next hcut =>
    obtain ⟨rfl, rfl⟩ := Prod.mk.inj (Except.ok.inj h)
    have hno : '<' ∉ w := fun hmem => by
      have := isSome_cut? w ['<']
      rw [show w.cut? ['<'] = none from hcut, has_singleton_iff.mpr hmem] at this
      cases this
    exact ⟨[], by simp, fun _ hmem => absurd hmem hno, fun _ => rfl⟩
  next before after hcut =>
    split at h
    next =>
      obtain ⟨rfl, rfl⟩ := Prod.mk.inj (Except.ok.inj h)
      have hw : w = before ++ ('<' :: after) := append_of_cut? w hcut
      -- the text up to the last `>`, and what follows it
      obtain ⟨u, hu⟩ : ∃ u : Text, (w.reverse.dropWhile (· ≠ '>')).reverse = u := ⟨_, rfl⟩
      have htail : w = u ++ afterLastAngle w := by
        rw [← hu, afterLastAngle, ← reverse_append, takeWhile_append_dropWhile,
          reverse_reverse]
      have hmem : '<' ∈ w := hw ▸ mem_append_right _ mem_cons_self
      rw [Option.getD_some, hu]
      by_cases hle : before.length ≤ u.length
      · have hpre : before <+: u := by
          rw [prefix_iff_eq_take]
          have h₁ : before = w.take before.length := by rw [hw, take_left]
          rw [h₁, htail, take_append_of_le_length hle, length_take_of_le hle]
        obtain ⟨g, rfl⟩ := hpre
        refine ⟨afterLastAngle w, ?_, by simp [hmem]⟩
        rw [drop_left, ← append_assoc]
        exact htail
      · have hnil : u.drop before.length = [] := drop_eq_nil_of_le (by omega)
        have hangle : '<' ∈ afterLastAngle w := by
          have h₁ : afterLastAngle w = w.drop u.length := by
            conv => rhs; rw [htail, drop_left]
          rw [h₁, hw, drop_append_of_le_length (by omega)]
          exact mem_append_right _ mem_cons_self
        have hne : ∀ t : Text, '<' ∈ t → t.squeeze ≠ [] := fun t ht hnil =>
          absurd (squeeze_eq_nil_iff.mp hnil '<' ht) (by decide)
        refine ⟨'<' :: after, by rw [hnil]; exact hw, ?_⟩
        constructor
        · exact fun hs => absurd hs (hne _ mem_cons_self)
        · exact fun hs => absurd (hs hmem) (hne _ hangle)
    next => cases h

/-! ## §4. The potential. -/

/-- What the keywords of the clauses are counted for, at most their ink. -/
structure Worth where
  superclass : Nat := 7
  mixins : Nat := 4
  interfaces : Nat := 10
  superclass_le : superclass ≤ 7 := by decide
  mixins_le : mixins ≤ 4 := by decide
  interfaces_le : interfaces ≤ 10 := by decide

/-- The worth of the clause of the superclass; `waiting` tells whether its keyword has come. -/
def superclassWorth (k : Nat) (waiting : Bool) : Option Text → Nat
  | some s => k + s.ink
  | none => if waiting then k else 0

/-- The worth of the clause of a list of supertypes. -/
def listWorth (k : Nat) (waiting : Bool) (ms : List Text) : Nat :=
  if ms.isEmpty then (if waiting then k else 0) else k + ink ms.flatten

/-- What would be printed of a declaration after the word `class`, with the keywords that wait for
    their words. -/
def potential (k : Worth) (d : Declaration) (r : DeclarationReader) : Nat :=
  (d.name.getD []).ink + d.generics.ink
    + superclassWorth k.superclass r.superclassNext d.superclass
    + listWorth k.mixins (r.listNext == some .mixins) d.mixins
    + listWorth k.interfaces (r.listNext == some .interfaces) d.interfaces

theorem superclassWorth_some (k : Nat) (b : Bool) (s : Text) :
    superclassWorth k b (some s) = k + s.ink := rfl

theorem superclassWorth_le (k : Nat) (b : Bool) (s : Option Text) :
    superclassWorth k b s ≤ superclassWorth k true s
      ∧ superclassWorth k true s ≤ superclassWorth k b s + k
      ∧ superclassWorth k false s ≤ superclassWorth k b s := by
  cases s <;> cases b <;> simp [superclassWorth]

theorem listWorth_le (k : Nat) (b : Bool) (ms : List Text) :
    listWorth k b ms ≤ listWorth k true ms ∧ listWorth k true ms ≤ listWorth k b ms + k
      ∧ listWorth k false ms ≤ listWorth k b ms := by
  cases ms <;> cases b <;> simp [listWorth]

theorem listWorth_append (k : Nat) (ms ns : List Text) :
    listWorth k true (ms ++ ns) ≤ listWorth k true ms + ink ns.flatten := by
  cases ms with
  | nil => cases ns <;> simp [listWorth]
  | cons m ms => simp [listWorth]; omega

theorem le_superclassWorth (k : Nat) (s : Option Text) : k ≤ superclassWorth k true s := by
  cases s <;> simp [superclassWorth]

theorem ink_splitTopLevel (w : Text) : ink w.splitTopLevel.flatten = w.ink :=
  congrArg length (inked_splitTopLevel w)

theorem ink_removeEnd (w : Text) : (w.removeEnd [',']).ink = w.ink :=
  congrArg length (inked_removeEnd_comma w)

variable {d d' : Declaration} {r r' : DeclarationReader} {w : Text}

/-- **A word adds no more than its ink.** -/
theorem readWord_potential (k : Worth) (h : d.readWord r w = .ok (d', r')) :
    potential k d' r' ≤ potential k d r + w.ink := by
  have hkw : ink "extends" = 7 ∧ ink "with" = 4
      ∧ ink "implements" = 10 := by decide
  -- a clause is worth at most the ink of its keyword
  have hx := k.superclass_le
  have hm := k.mixins_le
  have hi := k.interfaces_le
  have hs := superclassWorth_le k.superclass r.superclassNext d.superclass
  have hl := listWorth_le k.mixins (r.listNext == some .mixins) d.mixins
  have hl' := listWorth_le k.interfaces (r.listNext == some .interfaces) d.interfaces
  rcases readWord_cases h with ⟨rfl, rfl, rfl⟩ | ⟨rfl, rfl, rfl⟩ | ⟨hnext, rfl, rfl⟩ | ⟨-, hrest⟩
  · exact Nat.le_add_right _ _
  · simp only [potential]
    omega
  · have hle := le_superclassWorth k.superclass d.superclass
    simp only [potential, superclassWorth_some, ink_removeEnd, hnext]
    omega
  · rcases hrest with ⟨rfl, rfl, rfl⟩ | ⟨rfl, rfl, rfl⟩ | ⟨-, name, generics, hsplit, rfl, rfl⟩
      | ⟨-, -, rfl, rfl⟩ | ⟨l, -, hlist, rfl, rfl⟩
    · have hle := listWorth_le k.interfaces (r.listNext == some .interfaces) d'.interfaces
      simp only [potential]
      show _ + listWorth k.mixins true d'.mixins + listWorth k.interfaces false d'.interfaces ≤ _
      omega
    · simp only [potential]
      show _ + listWorth k.mixins false d'.mixins + listWorth k.interfaces true d'.interfaces ≤ _
      omega
    · obtain ⟨lost, rfl, -⟩ := splitClassName_lost hsplit
      cases generics <;> simp only [potential, Option.getD_some, Option.getD_none, ink_append] <;>
        omega
    · exact Nat.le_add_right _ _
    · have hink := ink_splitTopLevel w
      cases l with
      | mixins =>
        have happ := listWorth_append k.mixins d.mixins w.splitTopLevel
        simp only [potential, adding, hlist]
        show _ + listWorth k.mixins true _ + listWorth k.interfaces false _
          ≤ _ + listWorth k.mixins true _ + listWorth k.interfaces false _ + _
        omega
      | interfaces =>
        have happ := listWorth_append k.interfaces d.interfaces w.splitTopLevel
        simp only [potential, adding, hlist]
        show _ + listWorth k.mixins false _ + listWorth k.interfaces true _
          ≤ _ + listWorth k.mixins false _ + listWorth k.interfaces true _ + _
        omega

/-- At the end nothing waits any more. -/
theorem potential_le (k : Worth) (d : Declaration) (r : DeclarationReader) :
    potential k d {} ≤ potential k d r := by
  have hs := superclassWorth_le k.superclass r.superclassNext d.superclass
  have hl := listWorth_le k.mixins (r.listNext == some .mixins) d.mixins
  have hl' := listWorth_le k.interfaces (r.listNext == some .interfaces) d.interfaces
  show _ + superclassWorth k.superclass false d.superclass + listWorth k.mixins false d.mixins
    + listWorth k.interfaces false d.interfaces ≤ _
  simp only [potential]
  omega

theorem readWords_cons {ws : List Text} (h : d.readWords r (w :: ws) = .ok d') :
    ∃ d₁ r₁, d.readWord r w = .ok (d₁, r₁) ∧ d₁.readWords r₁ ws = .ok d' := by
  obtain ⟨⟨d₁, r₁⟩, h₁, h⟩ := bind_eq_ok.mp h
  exact ⟨d₁, r₁, h₁, h⟩

/-- **What is printed has no more ink than the words.** -/
theorem readWords_potential (k : Worth) (ws : List Text) {d : Declaration} {r : DeclarationReader}
    (h : d.readWords r ws = .ok d') :
    potential k d' {} ≤ potential k d r + ink ws.flatten := by
  induction ws generalizing d r with
  | nil =>
    obtain rfl := Except.ok.inj h
    exact potential_le k d r
  | cons w ws ih =>
    obtain ⟨d₁, r₁, h₁, h⟩ := readWords_cons h
    have hstep := readWord_potential k h₁
    have hrest := ih h
    rw [flatten_cons, ink_append]
    omega

/-- The ink of the clauses. -/
theorem potential_end (d : Declaration) :
    potential {} d {} = (d.name.getD []).ink + d.generics.ink + d.clauses.ink := by
  have hlist : ∀ (n : Nat) (keyword : Text) (ms : List Text), keyword.ink = n →
      (listClause keyword ms).ink = listWorth n false ms := by
    intro n keyword ms hn
    cases ms with
    | nil => rfl
    | cons m ms =>
      have hjoin : (join [','] (m :: ms)).squeeze.ink = ink (m :: ms).flatten := by
        rw [ink, inked_squeeze, inked_join_comma]
        rfl
      rw [listClause_of_ne_nil (cons_ne_nil m ms), ink_append, hn, hjoin]
      rfl
  have hsuper : (superclassClause d.superclass).ink = superclassWorth 7 false d.superclass := by
    cases d.superclass with
    | none => rfl
    | some s =>
      show ink ("extends" ++ s.squeeze) = 7 + s.ink
      rw [ink_append, ink, ink, inked_squeeze]
      rfl
  show _ + superclassWorth 7 false d.superclass + listWorth 4 false d.mixins
    + listWorth 10 false d.interfaces = _ + ink (superclassClause d.superclass
      ++ (listClause "with" d.mixins ++ listClause "implements" d.interfaces))
  rw [ink_append, ink_append, hsuper, hlist 4 _ _ (by decide), hlist 10 _ _ (by decide)]
  omega

end Declaration

end DartData
