import DartData.Proofs.Constructor.Kept

/-!
# Positional constructors

A constructor that sets all fields by position, `A(this.y, this.x)` or `A([this.y, this.x])`, with
any white space and line breaks between the parameters.  However its parameters are laid out, the
constructor that is written in its place has one line for each field, in the order of the fields
(`newConstructor_of_positional`): where a parameter is read, its line is the same as the one that
is made for a field without a parameter.
-/

namespace DartData

open List Text

/-! ## §1. A line of parameters. -/

/-- What may follow a name on its line: nothing, its comma, or more parameters. -/
def IsRest (s : Text) : Prop :=
  s = [] ∨ (∃ b : Text, (∀ c ∈ b, isBlank c = true) ∧ s = b ++ [',']) ∨ '.' ∈ s

/-- A line of a list whose parameters are named in `names`: it is blank, or begins with one of
    them. -/
def IsListLine (names : List Text) (l : Text) : Prop :=
  l.trim = [] ∨ ∃ w ∈ names, ∃ s, l.trim = "this." ++ (w ++ s) ∧ IsRest s

/-- What is read from a line is no parameter for a field, or it is the parameter of a name. -/
structure FromNames (names : List Text) (q : Parameter) : Prop where
  setsField : q.setsField = true
  head_eq : q.text.head? = some 't'
  line_eq : q.name.all isWord = true → ∃ w ∈ names, q.name = w.eraseFirst "required"
    ∧ q.line = "this." ++ (w ++ [','])

/-- A line that begins with `this.` gives what stands after it, the word `required` left out. -/
theorem nameIn_this {v : Text} (hv : '=' ∉ v) :
    Parameter.nameIn ("this." ++ v) = ((v.eraseFirst "required").trimEnd, true) := by
  have herase : eraseFirst ("this." ++ v) "required"
      = "this." ++ v.eraseFirst "required" :=
    eraseFirst_append_cons (u := "this") (d := '.') (by decide) (by decide) v
  have htrim : ∀ u : Text, trim ("this." ++ u) = "this." ++ u.trimEnd := by
    intro u
    rw [trim, show "this." ++ u = 't' :: ("his." ++ u) from rfl,
      trimStart_cons_of_not_blank (by decide)]
    exact trimEnd_append_cons (c := '.') (by decide) "this" u
  have hfree : '=' ∉ "this." ++ (v.eraseFirst "required").trimEnd := by
    rw [mem_append, not_or]
    refine ⟨by decide, fun h => hv ((eraseFirst_sublist v "required").subset ?_)⟩
    obtain ⟨b, -, he⟩ := exists_trimEnd (v.eraseFirst "required")
    rw [he]
    exact mem_append_left b h
  have hagain : (v.eraseFirst "required").trimEnd.trimEnd = (v.eraseFirst "required").trimEnd := by
    rcases trimEnd_last (v.eraseFirst "required") with h | ⟨i, e, h, he⟩
    · rw [h]
      rfl
    · rw [h, trimEnd_append_of_not_blank he]
  refine Parameter.nameIn_eq ?_
  rw [herase, htrim, before_eq_self (has_eq_false_of_not_mem (c := '=') (by decide) hfree), htrim,
    hagain]

theorem trimEnd_word {u : Text} (hu : u.all isWord) : u.trimEnd = u := by
  rcases eq_nil_or_concat u with rfl | ⟨i, e, rfl⟩
  · rfl
  · rw [concat_eq_append] at hu ⊢
    exact trimEnd_append_of_not_blank (isBlank_of_isWord (all_eq_true.mp hu e (by simp))) i

theorem eq_nil_of_blank_of_word {u b : Text} (hb : ∀ c ∈ b, isBlank c)
    (hw : (u ++ b).all isWord) : b = [] :=
  eq_nil_iff_forall_not_mem.mpr fun c hc => by
    have := isBlank_of_isWord (all_eq_true.mp hw c (mem_append_right _ hc))
    rw [hb c hc] at this
    cases this

/-- **A line of a list is read as the parameter of a name, or as none for a field.** -/
theorem fromNames_of_ofText? {names : List Text} (hnames : ∀ w ∈ names, w.all isWord)
    {l : Text} (hl : IsListLine names l) (hequals : '=' ∉ l) {q : Parameter}
    (hq : Parameter.ofText? l = some q) : FromNames names q := by
  obtain ⟨a, b, ha, hb, htrim⟩ := exists_trim l
  rw [htrim, Parameter.ofText?_blank_append ha, Parameter.ofText?_append_blank hb] at hq
  rcases hl with hnil | ⟨w, hw, s, hline, hs⟩
  · rw [hnil] at hq
    exact absurd hq.symm (Option.some_ne_none q)
  have hword := hnames w hw
  have hfree : '=' ∉ w ++ s := by
    intro h
    refine hequals ((trim_sublist l).subset ?_)
    rw [hline]
    exact mem_append_right _ h
  have herased : (w.eraseFirst "required").all isWord :=
    all_eq_true.mpr fun c hc =>
      all_eq_true.mp hword c ((eraseFirst_sublist w "required").subset hc)
  have hself : trim ("this.".toList ++ (w ++ s)) = "this.".toList ++ (w ++ s) := by
    rw [← hline, trim_trim]
  rw [hline, Parameter.ofText?, nameIn_this hfree] at hq
  dsimp only at hq
  rw [hself] at hq
  split at hq
  · cases hq
  next hne =>
    rw [← Option.some.inj hq]
    refine ⟨rfl, by split <;> rfl, fun hname => ⟨w, hw, ?_⟩⟩
    dsimp only at hname ⊢
    rcases hs with rfl | ⟨e, he, rfl⟩ | hdot
    · -- the name alone
      have hend : endsWith ("this.".toList ++ w) "," = false := by
        refine endsWith_eq_false_of_not_mem (c := ',') (by decide) ?_
        exact List.not_mem_append (by decide) (not_mem_of_all hword (by decide))
      rw [append_nil, trimEnd_word herased, trim_word herased, removeEnd_word herased, hend]
      refine ⟨rfl, ?_⟩
      show List.dropLast (("this.".toList ++ w ++ [',']) ++ ['\n']) = _
      rw [dropLast_concat, append_assoc]
    · -- the name and its comma, which the name must come right before
      have hall : eraseFirst (w ++ (e ++ [','])) "required"
          = (w.eraseFirst "required" ++ e) ++ [','] := by
        rw [← append_assoc, eraseFirst_concat (by decide) (by decide),
          Parameter.eraseFirst_append_blank he]
      rw [hall, trimEnd_append_of_not_blank (by decide)] at hname hne ⊢
      have hne' : w.eraseFirst "required" ≠ [] := by
        intro hnil
        rw [hnil, nil_append, trim_append_of_blank he] at hne
        exact hne rfl
      have hrem : removeEnd ((w.eraseFirst "required" ++ e) ++ [',']) ","
          = w.eraseFirst "required" ++ e := removeEnd_append _ [',']
      rw [trim_word_comma herased hne', hrem] at hname ⊢
      obtain rfl := eq_nil_of_blank_of_word he hname
      refine ⟨append_nil _, ?_⟩
      have hend : endsWith ("this.".toList ++ (w ++ ([] ++ [',']))) "," := by
        rw [endsWith_iff, ← List.append_assoc, ← List.append_assoc]
        exact suffix_append _ _
      rw [hend]
      show dropLast (("this.".toList ++ (w ++ [','])) ++ ['\n']) = _
      rw [dropLast_concat]
    · -- more than one name
      have hmem : '.' ∈ removeEnd (trim (trimEnd (eraseFirst (w ++ s) "required"))) "," :=
        mem_removeEnd (by decide) (mem_trim (by decide) (mem_trimEnd (by decide)
          (mem_eraseFirst (by decide) (mem_append_right w hdot))))
      exact absurd hmem (not_mem_of_all hname (by decide))

/-! ## §2. The lines of a list. -/

/-- All lines of a text are lines of a list. -/
def ListLines (names : List Text) (t : Text) : Prop := ∀ l ∈ t.lines, IsListLine names l

section

variable {names : List Text}

variable {b l t : Text}

theorem IsListLine.blank_append (hb : ∀ c ∈ b, isBlank c) (hl : IsListLine names l) :
    IsListLine names (b ++ l) := by
  rw [IsListLine, trim_append_of_blank hb]
  exact hl

/-- Blanks in front of a list make no difference. -/
theorem ListLines.blank_append (hb : ∀ c ∈ b, isBlank c) (ht : ListLines names t) :
    ListLines names (b ++ t) := by
  induction b with
  | nil => exact ht
  | cons c b ih =>
    have ih := ih fun d hd => hb d (mem_cons_of_mem _ hd)
    intro l hl
    by_cases hc : c = '\n'
    · subst hc
      rw [cons_append, lines, split_cons_sep] at hl
      rcases mem_cons.mp hl with rfl | hl
      · exact .inl rfl
      · exact ih l hl
    · obtain ⟨h, r, hr⟩ := exists_cons_of_ne_nil (lines_ne_nil (b ++ t))
      rw [cons_append, lines, split_cons_of_ne hc hr] at hl
      rcases mem_cons.mp hl with rfl | hl
      · refine IsListLine.blank_append (b := [c]) (fun d hd => ?_)
          (ih h (by rw [hr]; exact mem_cons_self))
        rw [mem_singleton.mp hd]
        exact hb c mem_cons_self
      · exact ih l (by rw [hr]; exact mem_cons_of_mem _ hl)

theorem listLines_blank (hb : ∀ c ∈ b, isBlank c) : ListLines names b := by
  have hnil : ListLines names [] := fun l hl => by
    rw [mem_singleton.mp (show l ∈ [[]] from hl)]
    exact .inl rfl
  simpa using hnil.blank_append hb

/-- A name with what follows it on its line, in front of further lines. -/
theorem ListLines.name_append {w u : Text} (hw : w ∈ names) (hword : w.all isWord)
    (hu : '\n' ∉ u) (ht : ListLines names t)
    (hrest : ∀ l, t.lines.head? = some l → IsRest (trimEnd (u ++ l))) :
    ListLines names ("this." ++ (w ++ (u ++ t))) := by
  obtain ⟨h, r, hr⟩ := exists_cons_of_ne_nil (lines_ne_nil t)
  have hfeed : '\n' ∉ "this." ++ (w ++ u) := by
    rw [mem_append, mem_append, not_or, not_or]
    exact ⟨by decide, not_mem_of_all hword (by decide), hu⟩
  intro l hl
  rw [← append_assoc w, ← append_assoc, lines, split_append_left hfeed hr] at hl
  rcases mem_cons.mp hl with rfl | hl
  · refine .inr ⟨w, hw, trimEnd (u ++ h), ?_, hrest h (by rw [hr]; rfl)⟩
    rw [append_assoc, append_assoc, trim_this hword]
  · exact ht l (by rw [hr]; exact mem_cons_of_mem _ hl)

theorem isRest_comma (hb : ∀ c ∈ b, isBlank c) (hl : IsListLine names l) :
    IsRest (trimEnd ((b ++ [',']) ++ l)) := by
  rcases hl with hnil | ⟨w, -, s, hline, -⟩
  · rw [trimEnd_append_of_blank (all_eq_true.mp (trim_eq_nil_iff.mp hnil)),
      trimEnd_append_of_not_blank (by decide)]
    exact .inr (.inl ⟨b, hb, rfl⟩)
  · have hdot : '.' ∈ l := (trim_sublist l).subset (by rw [hline]; simp)
    exact .inr (.inr (mem_trimEnd (by decide) (mem_append_right _ hdot)))

end

/-- A parameter that is nothing but a name. -/
def FieldParameter.IsBare (p : FieldParameter) : Prop := p.modifier = none ∧ p.value = none

instance (p : FieldParameter) : Decidable p.IsBare := inferInstanceAs (Decidable (_ ∧ _))

theorem FieldParameter.IsBare.core_eq {p : FieldParameter} (h : p.IsBare) :
    p.core = "this." ++ p.name := by
  simp [core, word, valueText, h.1, h.2]

/-- The lines of a list, by induction on its parameters.  The comma of a parameter stands on its
    line, so that what follows it is the first line of the rest: blanks, or another name. -/
theorem listLines_join {names : List Text} (ps : List FieldParameter) (hne : ps ≠ []) (comma : Bool)
    {close : Text} (hclose : ∀ c ∈ close, isBlank c) (hbare : ∀ p ∈ ps, p.IsBare)
    (hnames : ∀ p ∈ ps, p.name ∈ names) (hafter : ∀ p ∈ ps, '\n' ∉ p.after) :
    ListLines names (join [','] (ps.map FieldParameter.text)
      ++ ((if comma then [','] else []) ++ close)) := by
  induction ps with
  | nil => exact absurd rfl hne
  | cons p ps ih =>
    have hp := hnames p mem_cons_self
    have hcore := (hbare p mem_cons_self).core_eq
    have hfeed := hafter p mem_cons_self
    cases ps with
    | nil =>
      -- after the last parameter come its comma, if there is one, and blanks
      have happ : join [','] ([p].map FieldParameter.text)
        ++ ((if comma then [','] else []) ++ close)
          = p.before ++ ("this." ++ (p.name
            ++ ((p.after ++ (if comma then [','] else [])) ++ close))) := by
        simp [FieldParameter.text, hcore]
      rw [happ]
      refine (ListLines.name_append hp p.name_word ?_ (listLines_blank hclose) ?_).blank_append
        p.blank_before
      · cases comma <;> simp [hfeed]
      · intro l hl
        have hl := mem_of_head? hl
        have hline : IsListLine names l := listLines_blank hclose l hl
        cases comma with
        | true => exact isRest_comma p.blank_after hline
        | false =>
          have hblank : ∀ c ∈ (p.after ++ []) ++ l, isBlank c := by
            intro c hc
            rw [append_nil, mem_append] at hc
            exact hc.elim (p.blank_after c) fun hc => hclose c (mem_of_mem_split l hl c hc)
          refine .inl ?_
          have := trimEnd_append_of_blank hblank []
          exact this
    | cons q qs =>
      have hrest := ih (cons_ne_nil q qs) (forall_mem_cons.mp hbare).2
        (forall_mem_cons.mp hnames).2
        (forall_mem_cons.mp hafter).2
      have happ : join [','] ((p :: q :: qs).map FieldParameter.text)
            ++ ((if comma then [','] else []) ++ close)
          = p.before ++ ("this." ++ (p.name ++ ((p.after ++ [','])
            ++ (join [','] ((q :: qs).map FieldParameter.text)
              ++ ((if comma then [','] else []) ++ close))))) := by
        rw [map_cons, map_cons, join_cons_cons, ← map_cons]
        simp [FieldParameter.text, hcore]
      rw [happ]
      refine (ListLines.name_append hp p.name_word ?_ hrest ?_).blank_append p.blank_before
      · simp [hfeed]
      · exact fun l hl => isRest_comma p.blank_after (hrest l (mem_of_head? hl))

/-! ## §3. The list in the constructor. -/

/-- The characters of a list of names. -/
def isListChar (c : Char) : Bool := isWord c || isBlank c || c == '.' || c == ','

/-- A list of bare parameters has no other characters. -/
theorem all_isListChar_join {ps : List FieldParameter} (hbare : ∀ p ∈ ps, p.IsBare) :
    (join [','] (ps.map FieldParameter.text)).all isListChar := by
  have hblank : ∀ b : Text, (∀ c ∈ b, isBlank c) → b.all isListChar := fun b hb =>
    all_eq_true.mpr fun c hc => by rw [isListChar, hb c hc]; simp
  have htext : ∀ p ∈ ps, p.text.all isListChar := by
    intro p hp
    have hname : p.name.all isListChar := all_eq_true.mpr fun c hc => by
      rw [isListChar, all_eq_true.mp p.name_word c hc]
      rfl
    rw [FieldParameter.text, (hbare p hp).core_eq, all_append, all_append, all_append,
      hblank _ p.blank_before, hblank _ p.blank_after, hname]
    decide
  induction ps with
  | nil => rfl
  | cons p ps ih =>
    have hp := htext p mem_cons_self
    cases ps with
    | nil => simpa using hp
    | cons q qs =>
      have ih := ih (forall_mem_cons.mp hbare).2
        fun p hp => htext p (mem_cons_of_mem _ hp)
      rw [map_cons, map_cons, join_cons_cons, all_append, all_append, hp,
        ← map_cons, ih]
      decide

/-- A constructor that sets fields by position: a list of names between round brackets, perhaps with
    square brackets and blanks around these. -/
structure PositionalConstructor where
  lead : Text
  /-- The blanks around the square brackets, if there are any. -/
  square : Option (Text × Text)
  list : NamedList
  tail : Text
  lead_flat : '(' ∉ lead ∧ ')' ∉ lead ∧ '\n' ∉ lead
  square_blank : ∀ a b, square = some (a, b) → a.allBlank = true ∧ b.allBlank = true
  bare : ∀ p ∈ list.items, p.IsBare

namespace PositionalConstructor

/-- What stands between the round brackets. -/
def inner (n : PositionalConstructor) : Text :=
  match n.square with
  | none => n.list.print
  | some (a, b) => a ++ '[' :: (n.list.print ++ ']' :: b)

/-- The constructor as written. -/
def print (n : PositionalConstructor) : Text := n.lead ++ '(' :: (n.inner ++ ')' :: n.tail)

/-- The names of its parameters, in order. -/
def names (n : PositionalConstructor) : List Text := n.list.items.map FieldParameter.name

variable (n : PositionalConstructor)

theorem all_isListChar_print : n.list.print.all isListChar := by
  have hclose : n.list.close.all isListChar := all_eq_true.mpr fun c hc => by
    rw [isListChar, n.list.blank_close c hc]
    simp
  rw [NamedList.print, NamedList.ending, all_append, all_append,
    all_isListChar_join n.bare, hclose]
  cases n.list.comma <;> decide

theorem not_mem_print {c : Char} (hc : isListChar c = false) : c ∉ n.list.print :=
  not_mem_of_all n.all_isListChar_print hc

theorem not_mem_inner {d : Char} (hd : isListChar d = false) (ho : d ≠ '[') (hc : d ≠ ']') :
    d ∉ n.inner := by
  unfold inner
  cases h : n.square with
  | none => exact n.not_mem_print hd
  | some ab =>
    have hblank : isBlank d = false := by
      simp only [isListChar, Bool.or_eq_false_iff] at hd
      simp [hd]
    obtain ⟨ha, hb⟩ := n.square_blank ab.1 ab.2 h
    simp only [mem_append, mem_cons, not_or]
    exact ⟨not_mem_of_all ha hblank, ho, n.not_mem_print hd, hc, not_mem_of_all hb hblank⟩

theorem insideParens_print : insideParens n.print = n.inner :=
  insideParens_eq ⟨n.lead_flat.1, n.lead_flat.2.1⟩
    ⟨n.not_mem_inner (by decide) (by decide) (by decide),
      n.not_mem_inner (by decide) (by decide) (by decide)⟩ n.tail

/-- **The parameter list of the constructor is the list as written.** -/
theorem parameterList_print : parameterList n.print = n.list.print.trim := by
  obtain ⟨x, y, hx, hy, hprint⟩ := exists_trim n.list.print
  have hfree : ∀ {d : Char}, isListChar d = false → d ∉ n.list.print.trim := fun hd hmem =>
    n.not_mem_print hd ((trim_sublist _).subset hmem)
  obtain ⟨e, r, he, hletter⟩ := n.list.print_trim_head
  obtain ⟨hblank, hcurly, hsquare⟩ : isBlank e = false ∧ e ≠ '\x7b' ∧ e ≠ '[' := by
    rcases hletter with rfl | rfl <;> decide
  have hself : n.list.print.trim.trim = n.list.print.trim := trim_trim _
  rw [parameterList, n.insideParens_print, removeStarts_pair, removeEnds_pair]
  generalize hlist : n.list.print.trim = l at *
  have hhead : ∀ v : Text, (l ++ v).head? = some e := fun v => by rw [he]; rfl
  have hstart : ∀ {d : Char} (v : Text), e ≠ d → removeStart (l ++ v) [d] = l ++ v := by
    intro d v hd
    rw [removeStart, startsWith_eq_false (hhead v) rfl hd]
    rfl
  have hend : ∀ {d : Char} {v : Text}, d ∉ v → removeEnd v [d] = v := by
    intro d v hd
    rw [removeEnd, endsWith_eq_false_of_not_mem mem_cons_self hd]
    rfl
  unfold inner
  cases hs : n.square with
  | none =>
    -- there is nothing to be taken off
    dsimp only
    have h₁ : l.removeStart "\x7b" = l := by simpa using hstart [] hcurly
    have h₂ : l.removeStart "[" = l := by simpa using hstart [] hsquare
    have h₃ : l.removeEnd "\x7d" = l := hend (hfree (by decide))
    have h₄ : l.removeEnd "]" = l := hend (hfree (by decide))
    rw [hlist, h₁, hself, h₂, hself, hself, h₃, hself, h₄, hself]
  | some ab =>
    obtain ⟨ha, hb⟩ := n.square_blank ab.1 ab.2 hs
    dsimp only
    have htrim : ∀ x : Text, (∀ c ∈ x, isBlank c) →
        trim (x ++ ((l ++ y) ++ [']'])) = (l ++ y) ++ [']'] :=
      fun x hx => trim_between hx (hhead y) hblank (by decide)
    have hlast : trim ((l ++ y) ++ [']']) = (l ++ y) ++ [']'] := htrim [] (by simp)
    have houter : trim (ab.1 ++ '[' :: (n.list.print ++ ']' :: ab.2))
        = '[' :: (x ++ ((l ++ y) ++ [']'])) := by
      rw [trim_bracketed ha hb (by decide) (by decide), hprint]
      simp
    have hbracket : trim ('[' :: (x ++ ((l ++ y) ++ [']'])))
        = '[' :: (x ++ ((l ++ y) ++ [']'])) := by
      rw [← houter, trim_trim]
    have hno : '\x7d' ∉ (l ++ y) ++ [']'] := by
      rw [mem_append, mem_append, not_or, not_or]
      exact ⟨⟨hfree (by decide), fun h => absurd (hy _ h) (by decide)⟩, by decide⟩
    rw [houter, show removeStart ('[' :: (x ++ ((l ++ y) ++ [']']))) "\x7b"
        = '[' :: (x ++ ((l ++ y) ++ [']'])) from rfl, hbracket,
      show removeStart ('[' :: (x ++ ((l ++ y) ++ [']']))) "["
        = x ++ ((l ++ y) ++ [']']) from rfl, htrim x hx, hlast]
    have h₃ : removeEnd ((l ++ y) ++ [']']) "\x7d" = (l ++ y) ++ [']'] := hend hno
    have h₄ : removeEnd ((l ++ y) ++ [']']) "]" = l ++ y := removeEnd_append _ [']']
    rw [h₃, hlast, h₄, trim_append_blank hy, hself]

/-- The list begins with a blank, a bracket or the word `this`. -/
theorem exists_inner_eq : ∃ e x, n.inner = e :: x ∧ (isBlank e ∨ e = '[' ∨ e = 't') := by
  have hblank : ∀ {b : Text} {d : Char} (v : Text), (∀ c ∈ b, isBlank c) → (d = '[' ∨ d = 't') →
      ∃ e x, b ++ d :: v = e :: x ∧ (isBlank e ∨ e = '[' ∨ e = 't') := by
    intro b d v hb hd
    cases b with
    | nil => exact ⟨d, v, rfl, .inr hd⟩
    | cons e b => exact ⟨e, b ++ d :: v, rfl, .inl (hb e mem_cons_self)⟩
  unfold inner
  cases hs : n.square with
  | some ab => exact hblank _ (all_eq_true.mp (n.square_blank ab.1 ab.2 hs).1) (.inl rfl)
  | none =>
    obtain ⟨p, ps, hps⟩ := exists_cons_of_ne_nil n.list.items_ne_nil
    obtain ⟨r, hr⟩ := NamedList.exists_join_eq p ps n.list.ending
    have hcore := (n.bare p (by rw [hps]; exact mem_cons_self)).core_eq
    dsimp only
    rw [NamedList.print, hps, hr, hcore]
    exact hblank ("his." ++ p.name ++ r) p.blank_before (.inr rfl)

/-- The constructor sets each field of the class once. -/
structure SetsFields (c : SourceClass) : Prop where
  found : c.hasConstructor = true
  text_eq : c.constructorText = some n.print
  lead_eq : ∃ front name, c.head.name = some name ∧ n.lead = front ++ name
  perm : n.names.Perm (c.fields.map Field.name)

/-- The parameters can be told apart: on several lines, each of them has its comma on its line, and
    no name is another one with the word `required` in it. -/
structure IsLegible : Prop where
  commas : '\n' ∈ n.print → ∀ p ∈ n.list.items, '\n' ∉ p.after
  apart : ∀ v ∈ n.names, ∀ w ∈ n.names, v = w.eraseFirst "required" → v = w

theorem names_word : ∀ w ∈ n.names, w.all isWord := by
  intro w hw
  obtain ⟨p, -, rfl⟩ := mem_map.mp hw
  exact p.name_word

end PositionalConstructor

/-! ## §4. The brackets around the list. -/

/-- The first round bracket of the text has `e` after it. -/
def OpensWith (e : Char) (t : Text) : Prop := ∃ a x : Text, '(' ∉ a ∧ t = a ++ '(' :: e :: x

namespace OpensWith

variable {e : Char} {t : Text}

theorem of_drop {u : Text} (h : OpensWith e (u ++ t)) (hu : '(' ∉ u) : OpensWith e t := by
  obtain ⟨a, x, ha, heq⟩ := h
  rcases append_eq_append_iff.mp heq with ⟨v, rfl, hv⟩ | ⟨v, hv, hx⟩
  · rw [mem_append, not_or] at ha
    exact ⟨v, x, ha.2, hv⟩
  · cases v with
    | nil => exact ⟨[], x, by simp, hx.symm⟩
    | cons d v =>
      rw [cons_append, List.cons.injEq] at hx
      rw [hv, ← hx.1] at hu
      exact absurd (by simp) hu

theorem trimStart (h : OpensWith e t) : OpensWith e t.trimStart := by
  obtain ⟨b, hb, ht⟩ := exists_trimStart t
  rw [ht] at h
  exact h.of_drop fun hmem => absurd (hb _ hmem) (by decide)

theorem withoutConst (h : OpensWith e t) : OpensWith e (SourceClass.withoutConst t) := by
  unfold SourceClass.withoutConst
  dsimp only
  split
  next hs =>
    obtain ⟨u, hu⟩ := startsWith_iff.mp hs
    have h := h.trimStart
    rw [← hu] at h ⊢
    exact (h.of_drop (by decide)).trimStart
  next => exact h.trimStart

theorem of_cons (h : OpensWith e ('(' :: t)) : ∃ x, t = e :: x := by
  obtain ⟨a, x, ha, heq⟩ := h
  cases a with
  | nil => exact ⟨x, (List.cons.inj heq).2⟩
  | cons b a =>
    rw [cons_append, List.cons.injEq] at heq
    exact absurd (by simp [← heq.1]) ha

/-- Erasing the word `const` leaves the first bracket and what follows it, which does not begin
    that word. -/
theorem eraseConst (h : OpensWith e t) (he : e ≠ 'c') : OpensWith e (t.eraseFirst "const") := by
  unfold eraseFirst
  split
  next u v hcut =>
    rw [append_of_cut? t hcut] at h
    by_cases hu : '(' ∈ u
    · -- the word stands after the bracket, and not directly
      obtain ⟨a, r, rfl, ha⟩ := eq_append_cons_of_mem hu
      rw [append_assoc] at h
      obtain ⟨x, hx⟩ := (h.of_drop ha).of_cons
      cases r with
      | nil => exact absurd (List.cons.inj hx).1.symm he
      | cons d r =>
        obtain rfl : d = e := (List.cons.inj hx).1
        exact ⟨a, r ++ v, ha, by simp⟩
    · obtain ⟨a, x, ha, rfl⟩ := (h.of_drop hu).of_drop (by decide)
      exact ⟨u ++ a, x, by rw [mem_append, not_or]; exact ⟨hu, ha⟩, by simp⟩
  next => exact h

theorem eq_of_startsWith (h : OpensWith e t) {name : Text} {d : Char} (hname : '(' ∉ name)
    (hs : t.startsWith (name ++ ['(', d])) : d = e := by
  obtain ⟨u, rfl⟩ := startsWith_iff.mp hs
  rw [append_assoc] at h
  obtain ⟨x, hx⟩ := (h.of_drop hname).of_cons
  exact (List.cons.inj hx).1

end OpensWith

namespace PositionalConstructor

variable {n : PositionalConstructor} {c : SourceClass}

/-- The constructor opens with something else than a brace. -/
theorem exists_opensWith (n : PositionalConstructor) :
    ∃ e, OpensWith e n.print ∧ e ≠ '\x7b' ∧ e ≠ 'c' := by
  obtain ⟨e, x, hx, he⟩ := n.exists_inner_eq
  refine ⟨e, ⟨n.lead, x ++ ')' :: n.tail, n.lead_flat.1, by rw [print, hx]; rfl⟩, ?_, ?_⟩
  · rintro rfl
    exact absurd he (by decide)
  · rintro rfl
    exact absurd he (by decide)

theorem SetsFields.fields_word (h : n.SetsFields c) : ∀ f ∈ c.fields, f.name.all isWord :=
  fun f hf => n.names_word f.name (h.perm.mem_iff.mpr (mem_map_of_mem hf))

/-- The name of the class stands in front of the bracket. -/
theorem SetsFields.not_mem_name (h : n.SetsFields c) {name : Text}
    (hname : c.head.name = some name) :
    ∀ d : Char, d = '(' ∨ d = ')' ∨ d = '\n' → d ∉ name := by
  obtain ⟨front, name', hname', hlead⟩ := h.lead_eq
  obtain rfl : name = name' := Option.some.inj (hname.symm.trans hname')
  have hmem : ∀ d ∈ name, d ∈ n.lead := fun d hd => by
    rw [hlead]
    exact mem_append_right front hd
  rintro d (rfl | rfl | rfl) hd
  · exact n.lead_flat.1 (hmem _ hd)
  · exact n.lead_flat.2.1 (hmem _ hd)
  · exact n.lead_flat.2.2 (hmem _ hd)

/-- The list is read as one of positional parameters. -/
theorem SetsFields.delimiters_ok (h : n.SetsFields c) : ∃ d, c.delimiters = .ok d
    ∧ (d.opening = "(".toList ∨ d.opening = "([".toList) ∧ (d == Delimiters.named) = false := by
  obtain ⟨-, name, hname, -⟩ := h.lead_eq
  have hflat := h.not_mem_name hname '(' (.inl rfl)
  obtain ⟨e, hopens, hcurly, -⟩ := n.exists_opensWith
  have hno : (SourceClass.withoutConst n.print).startsWith (name ++ ['(', '\x7b']) = false := by
    rw [Bool.eq_false_iff]
    exact fun hs => hcurly (hopens.withoutConst.eq_of_startsWith hflat hs).symm
  have hopening : ∀ d : Delimiters, (d.opening = "(".toList ∨ d.opening = "([".toList) →
      (d == Delimiters.named) = false := by
    intro d hd
    rw [beq_eq_false_iff_ne]
    rintro rfl
    exact absurd hd (by decide)
  unfold SourceClass.delimiters
  rw [h.text_eq, hname]
  dsimp only
  rw [hno]
  refine ⟨_, rfl, ?_⟩
  have hcases : ∀ b : Bool, (if b then "([".toList else if false then "(\x7b".toList
      else "(".toList) = "(".toList ∨ (if b then "([".toList else if false then
        "(\x7b".toList else "(".toList) = "([".toList := by decide
  exact ⟨hcases _, hopening _ (hcases _)⟩

/-! ## §5. The new constructor. -/

/-- All parameters are read from the names of the list, whether it stands on one line or on
    several. -/
theorem SetsFields.fromNames {ls : List Text} {s h e : Int} (hst : c.Stands ls s h e)
    (hset : n.SetsFields c) (hread : n.IsLegible) {ps : List Parameter}
    (hps : c.parameters = .ok ps) : ∀ q ∈ ps, FromNames n.names q := by
  have hfree : '=' ∉ n.list.print := n.not_mem_print (by decide)
  have hname : ∀ p ∈ n.list.items, p.name ∈ n.names := fun p hp => mem_map_of_mem hp
  -- on one line the list is split at its commas, on several it is read line by line
  rcases SourceClass.parameters_eq hst hset.found hset.text_eq with heq | ⟨hfeed, heq⟩
  · rw [hps, n.parameterList_print, splitTopLevel_trim, n.list.splitTopLevel_print] at heq
    intro q hq
    rw [Except.ok.inj heq] at hq
    obtain ⟨l, hl, hread⟩ := mem_filterMap.mp hq
    obtain ⟨p, hp, rfl⟩ := mem_map.mp hl
    have hcore := (n.bare p hp).core_eq
    have htrim := trim_this p.name_word []
    rw [append_nil] at htrim
    refine fromNames_of_ofText? n.names_word (.inr ⟨p.name, hname p hp, [], ?_, .inl rfl⟩) ?_ hread
    · rw [hcore, htrim]
      rfl
    · rw [hcore, mem_append, not_or]
      exact ⟨by decide, not_mem_of_all p.name_word (by decide)⟩
  · rw [hps, n.parameterList_print, readLines_trim] at heq
    intro q hq
    rw [Except.ok.inj heq] at hq
    obtain ⟨l, hl, hofText⟩ := mem_filterMap.mp hq
    exact fromNames_of_ofText? n.names_word
      (listLines_join n.list.items n.list.items_ne_nil n.list.comma
      n.list.blank_close n.bare hname (hread.commas hfeed) l hl)
      (fun hmem => hfree (mem_of_mem_split l hl _ hmem)) hofText

end PositionalConstructor

namespace SourceClass

/-- The line for a field whose name is in the list is one that sets it. -/
theorem fieldLine_of_fromNames {n : PositionalConstructor} {ps : List Parameter}
    (hps : ∀ q ∈ ps, FromNames n.names q) (hread : n.IsLegible) (defaultValues : Bool) {f : Field}
    (hf : f.name ∈ n.names) : ∃ p, IsParameter f.name p
      ∧ fieldLine? ps false defaultValues f = some ("  " ++ (p ++ [','])) := by
  unfold fieldLine?
  cases hfind : ps.reverse.find? (·.name == f.name) with
  | none => exact ⟨_, isParameter_newParameter f false defaultValues, rfl⟩
  | some q =>
    have hq := hps q (mem_reverse.mp (mem_of_find?_eq_some hfind))
    have hname : q.name = f.name := by simpa using find?_some hfind
    obtain ⟨w, hw, herase, hline⟩ := hq.line_eq (by rw [hname]; exact n.names_word f.name hf)
    obtain rfl : f.name = w := hread.apart f.name hf w hw (hname.symm.trans herase)
    refine ⟨_, .bare, ?_⟩
    dsimp only
    rw [hq.setsField, if_pos rfl, hline, append_assoc]

/-- The lines of a list: the key of a widget, and the parameters. -/
def listedLines (key : Bool) (params : List Text) : List Text :=
  (if key then ["  Key? key,".toList] else []) ++ params.map fun p => "  ".toList ++ (p ++ [','])

/-- **Whatever the order of its parameters, a positional constructor is written anew in the order of
    the fields**: after the key of a widget there is one line for each field. -/
theorem newConstructor_of_positional {c : SourceClass} {n : PositionalConstructor} {ls : List Text}
    {s h e : Int} (hst : c.Stands ls s h e) (hv : c.isValid) (hset : n.SetsFields c)
    (hread : n.IsLegible) (defaultValues makeConst : Bool) :
    ∃ name d params, c.head.name = some name ∧ c.delimiters = .ok d
      ∧ (d.opening = "(".toList ∨ d.opening = "([".toList)
      ∧ List.Forall₂ (fun f p => IsParameter f.name p) c.fields params
      ∧ c.newConstructor defaultValues makeConst
        = .ok ((c.constWord makeConst ++ (name ++ d.opening))
        ++ '\n' :: (endLines (listedLines c.head.isWidget params)
          ++ (d.closing ++ c.constructorTail []))) := by
  obtain ⟨name, -, d, ps, hname, -, hd, hps⟩ := exists_of_hasConstructor hv hset.found
  obtain ⟨d', hd', hopening, hnamed⟩ := hset.delimiters_ok
  obtain rfl : d = d' := Except.ok.inj (hd.symm.trans hd')
  have hall := hset.fromNames hst hread hps
  have hsets : SetsOnly ps := fun q hq =>
    have ⟨r, hr⟩ := head?_eq_some_iff.mp (hall q hq).head_eq
    ⟨(hall q hq).setsField, 't', r, hr, .inl rfl⟩
  -- one line for each field
  have hlines : ∀ fs : List Field, (∀ f ∈ fs, f.name ∈ n.names) → ∃ params,
      List.Forall₂ (fun f p => IsParameter f.name p) fs params
        ∧ fs.filterMap (fieldLine? ps false defaultValues)
          = params.map fun p => "  ".toList ++ (p ++ [',']) := by
    intro fs hfs
    induction fs with
    | nil => exact ⟨[], .nil, rfl⟩
    | cons f fs ih =>
      obtain ⟨params, hparams, heq⟩ := ih fun g hg => hfs g (mem_cons_of_mem _ hg)
      obtain ⟨p, hp, hline⟩ := fieldLine_of_fromNames hall hread defaultValues
        (hfs f mem_cons_self)
      exact ⟨p :: params, .cons hp hparams,
        by rw [filterMap_cons_some hline, heq, map_cons]⟩
  obtain ⟨params, hparams, heq⟩ := hlines c.fields fun f hf =>
    hset.perm.mem_iff.mpr (mem_map_of_mem hf)
  refine ⟨name, d, params, hname, hd, hopening, hparams, ?_⟩
  rw [newConstructor_eq hname hd hps, hsets.constructorTail_eq, hsets.listLines_eq, hnamed, heq,
    listedLines]

end SourceClass

end DartData
