import DartData.Proofs.Assembly.Frame
import DartData.Proofs.Constructor.Positional

/-!
# The order of parameters and arguments

Which fields a constructor sets and which ones `copyWith` passes on, each in the order in which they
stand in the text (`setNames`, `passedNames`).  White space makes no difference.  A positional
constructor sets the fields in the order of its names; written anew, it sets them in the order in
which the class declares them, and this is also the order in which `copyWith` passes them.
-/

namespace DartData

open List Text

/-! ## §1. Reading the order. -/

/-- The field that a parameter sets: the name after the first `this.` in it. -/
def setName? (p : Text) : Option Text := (p.cut? "this.").map fun (_, rest) => rest.takeWhile isWord

/-- The fields that the parameters of a constructor set, in order. -/
def setNames (constructorText : Text) : List Text :=
  ((insideParens constructorText.squeeze).split ',').filterMap setName?

/-- What follows the last round bracket that is opened. -/
def lastList (t : Text) : Text := (t.reverse.takeWhile (· != '(')).reverse

/-- The name that an argument gives, if it falls back on something. -/
def passedName? (a : Text) : Option Text := (a.cut? "??").map Prod.fst

/-- The fields that the last call of a text passes on by position, in order. -/
def passedNames (t : Text) : List Text := ((lastList t.squeeze).split ',').filterMap passedName?

theorem setNames_congr {t u : Text} (h : t.squeeze = u.squeeze) : setNames t = setNames u := by
  rw [setNames, h, setNames]

theorem passedNames_congr {t u : Text} (h : t.squeeze = u.squeeze) :
    passedNames t = passedNames u := by
  rw [passedNames, h, passedNames]

theorem squeeze_word {w : Text} (h : w.all isWord) : w.squeeze = w :=
  filter_eq_self.mpr fun c hc => by simp [isBlank_of_isWord (all_eq_true.mp h c hc)]

/-! ## §2. Pieces of a list. -/

/-- The piece sets the field `name`. -/
def Sets (name p : Text) : Prop :=
  ∃ u v : Text, p = u ++ ("this." ++ (name ++ v)) ∧ 't' ∉ u ∧ ',' ∉ u ∧ ',' ∉ v
    ∧ v.head?.any isWord = false

namespace Sets

variable {name p : Text}

theorem setName?_eq (h : Sets name p) (hw : name.all isWord) : setName? p = some name := by
  obtain ⟨u, v, rfl, hu, -, -, hv⟩ := h
  have hname : (name ++ v).takeWhile isWord = name := by
    rw [takeWhile_append_of_pos (all_eq_true.mp hw)]
    cases v with
    | nil => simp
    | cons d v =>
      have hd : isWord d = false := by simpa using hv
      rw [takeWhile_cons_of_neg (by simp [hd]), append_nil]
  rw [setName?, cut?_append_of_not_mem (c := 't') rfl hu, cut?_append_self (by decide)]
  simp [hname]

theorem append_left (h : Sets name p) {x : Text} (ht : 't' ∉ x) (hc : ',' ∉ x) :
    Sets name (x ++ p) := by
  obtain ⟨u, v, rfl, hu, huc, hvc, hv⟩ := h
  refine ⟨x ++ u, v, by simp, ?_, ?_, hvc, hv⟩
  · exact List.not_mem_append ht hu
  · exact List.not_mem_append hc huc

theorem append_right (h : Sets name p) {y : Text} (hy : y.head?.any isWord = false)
    (hc : ',' ∉ y) : Sets name (p ++ y) := by
  obtain ⟨u, v, rfl, hu, huc, hvc, hv⟩ := h
  refine ⟨u, v ++ y, by simp, hu, huc, ?_, ?_⟩
  · exact List.not_mem_append hvc hc
  · cases v with
    | nil => exact hy
    | cons d v => exact hv

theorem not_mem (h : Sets name p) (hw : name.all isWord) : ',' ∉ p := by
  obtain ⟨u, v, rfl, -, huc, hvc, -⟩ := h
  simp only [mem_append, not_or]
  exact ⟨huc, by decide, not_mem_of_all hw (by decide), hvc⟩

end Sets

theorem setName?_eq_none {p : Text} (h : 't' ∉ p) : setName? p = none := by
  rw [setName?, cut?_eq_none (has_eq_false_of_not_mem (c := 't') (by decide) h)]
  rfl

/-- **The names of a list, by induction on its pieces**, whatever short pieces stand around it. -/
theorem setNames_join {names ps : List Text} (h : List.Forall₂ Sets names ps) :
    ps ≠ [] → (∀ w ∈ names, w.all isWord) → ∀ {x z : Text}, 't' ∉ x → ',' ∉ x → 't' ∉ z →
      z.head?.any isWord = false →
      ((x ++ (join [','] ps ++ z)).split ',').filterMap setName? = names := by
  induction h with
  | nil => exact fun hne => absurd rfl hne
  | @cons w p names ps hp hps ih =>
    intro _ hword x z hx hxc hz hzw
    have hw := hword w mem_cons_self
    have hpx := hp.append_left hx hxc
    cases ps with
    | nil =>
      -- what follows the list has no `t`, so that no name is set in it
      obtain rfl := forall₂_nil_right_iff.mp hps
      obtain ⟨z₀, zs, hsplit⟩ := exists_cons_of_ne_nil (split_ne_nil z ',')
      have hmem : ∀ y ∈ z₀ :: zs, 't' ∉ y ∧ ',' ∉ y := fun y hy => by
        rw [← hsplit] at hy
        exact ⟨fun h => hz (mem_of_mem_split y hy _ h), not_mem_of_mem_split hy⟩
      have hrest : zs.filterMap setName? = [] := filterMap_eq_nil_iff.mpr fun y hy =>
        setName?_eq_none (hmem y (mem_cons_of_mem _ hy)).1
      have hlast : Sets w ((x ++ p) ++ z₀) :=
        hpx.append_right (head_split hsplit hzw) (hmem z₀ mem_cons_self).2
      rw [show x ++ (join [','] [p] ++ z) = (x ++ p) ++ z by simp,
        split_append_left (hpx.not_mem hw) hsplit,
        filterMap_cons_some (hlast.setName?_eq hw), hrest]
    | cons q qs =>
      have ih := ih (cons_ne_nil q qs) (forall_mem_cons.mp hword).2
        (x := []) (z := z) (by simp) (by simp) hz hzw
      rw [join_cons_cons, show x ++ (p ++ [','] ++ join [','] (q :: qs) ++ z)
        = (x ++ p) ++ ',' :: (join [','] (q :: qs) ++ z) by simp, split_append_sep,
        split_eq_singleton (hpx.not_mem hw), singleton_append,
        filterMap_cons_some (hpx.setName?_eq hw)]
      exact congrArg (w :: ·) ih

/-! ## §3. Constructors. -/

/-- A parameter of a class sets its field. -/
theorem IsParameter.sets {name p : Text} (h : IsParameter name p) (hw : name.all isWord) :
    Sets name p.squeeze := by
  have hname := squeeze_word hw
  cases h with
  | bare =>
    refine ⟨[], [], ?_, by simp, by simp, by simp, rfl⟩
    rw [squeeze_append, hname, append_nil]
    rfl
  | required =>
    refine ⟨"required", [], ?_, by decide, by decide, by simp, rfl⟩
    rw [squeeze_append, hname, append_nil]
    rfl
  | @withDefault d hd =>
    have hcomma : ∀ d ∈ plainDefaults, ',' ∉ d := by decide
    refine ⟨[], '=' :: d.squeeze, ?_, by simp, by simp, ?_, (by decide : isWord '=' = false)⟩
    · rw [squeeze_append, squeeze_append, squeeze_append, hname]
      rfl
    · rw [mem_cons, not_or]
      exact ⟨by decide, not_mem_squeeze (hcomma d hd)⟩

namespace PositionalConstructor

/-- **A positional constructor sets the fields in the order of its names.** -/
theorem setNames_print (n : PositionalConstructor) : setNames n.print = n.names := by
  have hsets : List.Forall₂ Sets n.names (n.list.items.map fun p => p.text.squeeze) := by
    rw [names, forall₂_map_left_iff, forall₂_map_right_iff]
    refine forall₂_same.mpr fun p hp => ?_
    rw [FieldParameter.text, (n.bare p hp).core_eq, squeeze_append, squeeze_append,
      squeeze_eq_nil_iff.mpr p.blank_before, squeeze_eq_nil_iff.mpr p.blank_after, append_nil]
    exact IsParameter.bare.sets p.name_word
  have hne : (n.list.items.map fun p => p.text.squeeze) ≠ [] := by simpa using n.list.items_ne_nil
  have hlist : n.list.print.squeeze = join [','] (n.list.items.map fun p => p.text.squeeze)
      ++ (if n.list.comma then [','] else []) := by
    rw [NamedList.print, NamedList.ending, squeeze_append, squeeze_append, squeeze_join, map_map,
      squeeze_eq_nil_iff.mpr n.list.blank_close, append_nil]
    cases n.list.comma <;> rfl
  -- without blanks, only a square bracket and a comma can stand around the list
  obtain ⟨x, z, hinner, hx, hxc, hz, hzw⟩ : ∃ x z : Text, n.inner.squeeze
      = x ++ (join [','] (n.list.items.map fun p => p.text.squeeze) ++ z) ∧ 't' ∉ x ∧ ',' ∉ x
        ∧ 't' ∉ z ∧ z.head?.any isWord = false := by
    unfold inner
    cases hs : n.square with
    | none =>
      refine ⟨[], if n.list.comma then [','] else [], hlist, by simp, by simp, ?_, ?_⟩ <;>
        cases n.list.comma <;> decide
    | some ab =>
      obtain ⟨ha, hb⟩ := n.square_blank ab.1 ab.2 hs
      refine ⟨['['], (if n.list.comma then [','] else []) ++ [']'],
        ?_, by decide, by decide, ?_, ?_⟩
      · dsimp only
        rw [squeeze_append, squeeze_cons (by decide), squeeze_append,
          squeeze_cons (by decide), hlist,
          squeeze_of_allBlank ha, squeeze_of_allBlank hb, append_assoc]
        rfl
      all_goals cases n.list.comma <;> decide
  have hprint : n.print.squeeze
      = n.lead.squeeze ++ '(' :: (n.inner.squeeze ++ ')' :: n.tail.squeeze) := by
    rw [print, squeeze_append, squeeze_cons (by decide), squeeze_append, squeeze_cons (by decide)]
  rw [setNames, hprint, insideParens_eq
    ⟨not_mem_squeeze n.lead_flat.1, not_mem_squeeze n.lead_flat.2.1⟩
    ⟨not_mem_squeeze (n.not_mem_inner (by decide) (by decide) (by decide)),
      not_mem_squeeze (n.not_mem_inner (by decide) (by decide) (by decide))⟩, hinner]
  exact setNames_join hsets hne n.names_word hx hxc hz hzw

end PositionalConstructor

/-- Pieces that each end with a comma. -/
theorem flatten_commas {ps : List Text} (hne : ps ≠ []) :
    (ps.map (· ++ [','])).flatten = join [','] ps ++ [','] := by
  induction ps with
  | nil => exact absurd rfl hne
  | cons p ps ih =>
    cases ps with
    | nil => simp
    | cons q qs =>
      rw [map_cons, flatten_cons, ih (cons_ne_nil q qs), join_cons_cons]
      simp

section

variable {names params : List Text}

/-- The names of a parameter list that is written line by line, after the key of a widget. -/
theorem setNames_lines (h : List.Forall₂ IsParameter names params) (hne : params ≠ [])
    (hw : ∀ w ∈ names, w.all isWord) {o k : Text} (key : Bool) (ho : o = [] ∨ o = ['['])
    (hk : k = [] ∨ k = [']'] ∨ k = ['\x7d']) :
    ((o ++ (squeeze (endLines (SourceClass.listedLines key params)) ++ k)).split ',').filterMap
      setName? = names := by
  have hsets : List.Forall₂ Sets names (params.map squeeze) := by
    rw [forall₂_map_right_iff]
    exact (forall₂_iff_get.mpr ⟨h.length_eq, fun i hi hj =>
      ((forall₂_iff_get.mp h).2 i hi hj).sets (hw _ (get_mem ..))⟩)
  have hflat : squeeze (endLines (params.map fun p => "  " ++ (p ++ [','])))
      = join [','] (params.map squeeze) ++ [','] := by
    rw [squeeze_endLines, ← flatten_commas (by simpa using hne), map_map, map_map]
    refine congrArg flatten (map_congr_left fun p _ => ?_)
    simp only [Function.comp_apply, squeeze_append]
    rfl
  have hwrap : ∀ x : Text, 't' ∉ x → ',' ∉ x →
      ((x ++ (join [','] (params.map squeeze) ++ (',' :: k))).split ',').filterMap setName?
        = names := by
    intro x hx hxc
    refine setNames_join hsets (by simpa using hne) hw hx hxc ?_ (by decide : isWord ',' = false)
    rcases hk with rfl | rfl | rfl <;> decide
  have ho' : 't' ∉ o ∧ ',' ∉ o := by rcases ho with rfl | rfl <;> decide
  rw [SourceClass.listedLines, endLines_append, squeeze_append, hflat]
  cases key with
  | false =>
    have hnil : squeeze [] = [] := rfl
    simpa [hnil] using hwrap o ho'.1 ho'.2
  | true =>
    -- the key is a piece of its own, and sets no field
    have hfirst : setName? (o ++ "Key?key") = none :=
      setName?_eq_none (by rcases ho with rfl | rfl <;> decide)
    have hcomma : ',' ∉ o ++ "Key?key" := by rcases ho with rfl | rfl <;> decide
    have happ : o ++ ((squeeze (endLines ["  Key? key,"])
          ++ (join [','] (params.map squeeze) ++ [','])) ++ k)
        = (o ++ "Key?key") ++ ',' :: (join [','] (params.map squeeze) ++ (',' :: k)) := by
      rw [show squeeze (endLines ["  Key? key,"]) = "Key?key" ++ [','] from by decide]
      simp
    rw [if_pos rfl, happ, split_append_sep, split_eq_singleton hcomma, singleton_append,
      filterMap_cons_none hfirst]
    exact hwrap [] (by simp) (by simp)

/-- No parameter has a round bracket. -/
theorem not_mem_listedLines (h : List.Forall₂ IsParameter names params)
    (hw : ∀ w ∈ names, w.all isWord) (key : Bool) {d : Char} (hd : d = '(' ∨ d = ')') :
    d ∉ endLines (SourceClass.listedLines key params) := by
  have hfixed : d ≠ '\n' ∧ d ≠ ' ' ∧ d ≠ ',' ∧ d ∉ "  Key? key,".toList
      ∧ d ∈ ['(', ')', ':', ';'] ++ unwrittenChars := by
    rcases hd with rfl | rfl <;> decide
  obtain ⟨hfeed, hblank, hcomma, hkey, hin⟩ := hfixed
  refine not_mem_endLines hfeed fun l hl => ?_
  rcases mem_append.mp hl with hl | hl
  · split at hl
    · rw [mem_singleton.mp hl]
      exact hkey
    · cases hl
  · obtain ⟨p, hp, rfl⟩ := mem_map.mp hl
    obtain ⟨i, hi, rfl⟩ := mem_iff_getElem.mp hp
    have hi' : i < names.length := h.length_eq ▸ hi
    have hparam := ((forall₂_iff_get.mp h).2 i hi' hi).not_mem (hw _ (get_mem ..)) hin
    have hparam : d ∉ params[i] := hparam
    simp [hblank, hcomma, hparam]

end

/-- Moving a text to the right leaves the bracket on its first line. -/
theorem OpensWith.indent {e : Char} {line rest : Text} (hfeed : '\n' ∉ line) (hne : line ≠ [])
    (h : OpensWith e (line ++ ['\n'])) : OpensWith e (indent (line ++ '\n' :: rest)) := by
  obtain ⟨a, x, ha, heq⟩ := h
  have hindent : Text.indent (line ++ '\n' :: rest)
      = "  " ++ ((line ++ ['\n']) ++ endLines (rest.lines.map indentLine)) := by
    rw [indent_line_append hfeed hne]
    simp
  rw [hindent, heq]
  refine ⟨"  " ++ a, x ++ endLines (rest.lines.map indentLine), ?_, by simp⟩
  exact List.not_mem_append (by decide) ha

namespace SourceClass

variable {c : SourceClass} {n : PositionalConstructor} {ls : List Text} {s h e : Int}

/-- **A positional constructor that is written anew sets the fields in the order of the class**, and
    still by position. -/
theorem setNames_newConstructor (hst : c.Stands ls s h e) (hv : c.isValid)
    (hset : n.SetsFields c) (hread : n.IsLegible) (defaultValues makeConst : Bool) :
    ∃ t, c.newConstructor defaultValues makeConst = .ok t ∧ setNames t = c.fields.map Field.name
      ∧ ∃ e, OpensWith e t.indent ∧ e ≠ '\x7b' ∧ e ≠ 'c' := by
  obtain ⟨name, d, params, hname, hd, hopening, hparams, hnew⟩ :=
    newConstructor_of_positional hst hv hset hread defaultValues makeConst
  have hfree := hset.not_mem_name hname
  have hparams := forall₂_map_left_iff.mpr hparams
  have hword : ∀ w ∈ c.fields.map Field.name, w.all isWord := fun w hw =>
    n.names_word w (hset.perm.mem_iff.mpr hw)
  have hne : params ≠ [] := by
    rintro rfl
    rw [forall₂_nil_right_iff, map_eq_nil_iff] at hparams
    simp [isValid, hparams] at hv
  obtain ⟨o, hopen, ho⟩ : ∃ o : Text, d.opening = '(' :: o ∧ (o = [] ∨ o = ['[']) := by
    rcases hopening with h | h
    · exact ⟨[], h, .inl rfl⟩
    · exact ⟨['['], h, .inr rfl⟩
  obtain ⟨k, hclose, hk⟩ : ∃ k : Text, d.closing = k ++ [')']
      ∧ (k = [] ∨ k = [']'] ∨ k = ['\x7d']) := by
    rcases closing_cases hd with h | h | h
    · exact ⟨[], h, .inl rfl⟩
    · exact ⟨[']'], h, .inr (.inl rfl)⟩
    · exact ⟨['\x7d'], h, .inr (.inr rfl)⟩
  have hconst : ∀ d : Char, d = '(' ∨ d = ')' ∨ d = '\n' → d ∉ c.constWord makeConst := by
    rintro d (rfl | rfl | rfl) <;> rcases c.constWord_cases makeConst with h | h <;> rw [h]
      <;> decide
  have hfront : ∀ d : Char, d = '(' ∨ d = ')' ∨ d = '\n' → d ∉ c.constWord makeConst ++ name := by
    intro d hd
    exact List.not_mem_append (hconst d hd) (hfree d hd)
  refine ⟨_, hnew, ?_, ?_⟩
  · -- without white space: the name, and the list between round brackets
    have hround : ∀ d : Char, d = '(' ∨ d = ')' →
        d ∉ o ++ (squeeze (endLines (listedLines c.head.isWidget params)) ++ k) := by
      intro d hd
      rw [mem_append, mem_append, not_or, not_or]
      refine ⟨?_, not_mem_squeeze (not_mem_listedLines hparams hword _ hd), ?_⟩
      · rcases hd with rfl | rfl <;> rcases ho with rfl | rfl <;> decide
      · rcases hd with rfl | rfl <;> rcases hk with rfl | rfl | rfl <;> decide
    have hlines := setNames_lines hparams hne hword c.head.isWidget ho hk
    generalize endLines (listedLines c.head.isWidget params) = lines at hlines hround ⊢
    have hsqueeze : squeeze ((c.constWord makeConst ++ (name ++ d.opening)) ++ '\n'
          :: (lines ++ (d.closing ++ c.constructorTail [])))
        = (c.constWord makeConst ++ name).squeeze
          ++ '(' :: ((o ++ (lines.squeeze ++ k)) ++ ')' :: (c.constructorTail []).squeeze) := by
      have ho' : squeeze o = o := by rcases ho with rfl | rfl <;> decide
      have hk' : squeeze k = k := by rcases hk with rfl | rfl | rfl <;> decide
      have hline : ∀ t : Text, squeeze ('\n' :: t) = t.squeeze := fun _ => rfl
      have hleft := squeeze_cons (d := '(') (by decide)
      have hright := squeeze_cons (d := ')') (by decide)
      rw [hopen, hclose]
      simp only [squeeze_append, ho', hk', hline, hleft, hright, append_assoc, cons_append,
        nil_append]
    rw [setNames, hsqueeze, insideParens_eq
      ⟨not_mem_squeeze (hfront _ (.inl rfl)), not_mem_squeeze (hfront _ (.inr (.inl rfl)))⟩
      ⟨hround _ (.inl rfl), hround _ (.inr rfl)⟩]
    exact hlines
  · -- the first line ends with the bracket, perhaps with a square one after it
    have hfeed : '\n' ∉ c.constWord makeConst ++ (name ++ d.opening) := by
      rw [← append_assoc, mem_append, not_or]
      exact ⟨hfront _ (.inr (.inr rfl)), by rcases hopening with h | h <;> rw [h] <;> decide⟩
    have hline : c.constWord makeConst ++ (name ++ d.opening) ≠ [] := by simp [hopen]
    have happ : (c.constWord makeConst ++ (name ++ d.opening)) ++ ['\n']
        = (c.constWord makeConst ++ name) ++ '(' :: (o ++ ['\n']) := by simp [hopen]
    rcases ho with rfl | rfl
    · exact ⟨'\n', OpensWith.indent hfeed hline ⟨_, [], hfront _ (.inl rfl), happ⟩, by decide,
        by decide⟩
    · exact ⟨'[', OpensWith.indent hfeed hline ⟨_, ['\n'], hfront _ (.inl rfl), happ⟩, by decide,
        by decide⟩

end SourceClass

/-! ## §4. The method `copyWith`. -/

theorem lastList_eq {b r : Text} (hr : '(' ∉ r) : lastList (b ++ '(' :: r) = r := by
  have hall : ∀ c ∈ r.reverse, (c != '(') := fun c hc => by
    rw [bne_iff_ne]
    rintro rfl
    exact hr (mem_reverse.mp hc)
  rw [lastList, reverse_append, reverse_cons, append_assoc,
    takeWhile_append_of_pos hall, singleton_append,
    takeWhile_cons_of_neg (by decide), append_nil, reverse_reverse]

/-- The argument that passes on a value that is given, and the field if there is none. -/
def copied (w : Text) : Text := w ++ ("??this." ++ w)

variable {w : Text} {names : List Text}

theorem passedName?_copied (hw : w.all isWord) : passedName? (copied w) = some w := by
  rw [passedName?, copied, cut?_append_of_not_mem (c := '?') rfl (not_mem_of_all hw (by decide)),
    show "??this." ++ w = "??" ++ ("this." ++ w) from rfl,
    cut?_append_self (by decide)]
  simp

theorem not_mem_copied (hw : w.all isWord) {d : Char} (hd : isWord d = false)
    (hthis : d ∉ "??this.".toList) : d ∉ copied w := by
  rw [copied, mem_append, mem_append, not_or, not_or]
  exact ⟨not_mem_of_all hw hd, hthis, not_mem_of_all hw hd⟩

/-- The end of a call with such arguments. -/
def copiedList (names : List Text) : Text :=
  (names.map fun w => copied w ++ [',']).flatten ++ ");\x7d"

theorem copiedList_cons (w : Text) (ws : List Text) :
    copiedList (w :: ws) = copied w ++ ',' :: copiedList ws := by
  simp [copiedList]

theorem not_mem_copiedList (hw : ∀ w ∈ names, w.all isWord) : '(' ∉ copiedList names := by
  induction names with
  | nil => decide
  | cons w ws ih =>
    rw [copiedList_cons, mem_append, mem_cons, not_or, not_or]
    exact ⟨not_mem_copied (hw w mem_cons_self) (by decide) (by decide), by decide,
      ih (forall_mem_cons.mp hw).2⟩

theorem passedNames_copiedList (hw : ∀ w ∈ names, w.all isWord) :
    ((copiedList names).split ',').filterMap passedName? = names := by
  induction names with
  | nil => decide
  | cons w ws ih =>
    have hword := hw w mem_cons_self
    have hcomma : ',' ∉ copied w := not_mem_copied hword (by decide) (by decide)
    rw [copiedList_cons, split_append_sep, split_eq_singleton hcomma, singleton_append,
      filterMap_cons_some (passedName?_copied hword),
      ih (forall_mem_cons.mp hw).2]

/-- The names in a text that ends with such a call. -/
theorem passedNames_eq (hw : ∀ w ∈ names, w.all isWord) {b r : Text}
    (hr : r.squeeze = copiedList names) : passedNames (b ++ '(' :: r) = names := by
  have hsqueeze : squeeze (b ++ '(' :: r) = b.squeeze ++ '(' :: r.squeeze := by
    rw [show b ++ '(' :: r = b ++ (['('] ++ r) from rfl, squeeze_append, squeeze_append]
    rfl
  rw [passedNames, hsqueeze, hr, lastList_eq (not_mem_copiedList hw), passedNames_copiedList hw]

namespace SourceClass

variable {c : SourceClass}

/-- A constructor whose bracket is followed by no brace takes its parameters by position. -/
theorem hasNamedConstructor_of_opensWith {t name : Text} {e : Char}
    (ht : c.constructorText = some t) (hname : c.head.name = some name) (hflat : '(' ∉ name)
    (ho : OpensWith e t) (hcurly : e ≠ '\x7b') (he : e ≠ 'c') : c.hasNamedConstructor = false := by
  have hshown : c.shownName = name := by simp [shownName, Declaration.shownName, hname]
  unfold hasNamedConstructor
  rw [ht, hshown, Bool.eq_false_iff]
  exact fun hs => hcurly ((ho.eraseConst he).trimStart.eq_of_startsWith hflat hs).symm

theorem unlines_bracket (as : List Text) (l : Text) (bs : List Text) (hb : bs ≠ []) :
    unlines (as ++ ((l ++ ['(']) :: bs)) = (endLines as ++ l) ++ '(' :: '\n' :: unlines bs := by
  rw [append_cons, unlines_append (by simp) hb, ← endLines_append_eq_unlines]
  simp

section

variable (c : SourceClass) (hpos : c.hasNamedConstructor = false)
  (hw : ∀ f ∈ c.fields, f.name.all isWord = true)
include hpos hw

/-- The text ends with the call of the constructor. -/
theorem exists_copyWith_eq : ∃ b r : Text, (Member.copyWith c).text = b ++ '(' :: r ∧ '@' ∉ r
        ∧ r.squeeze = copiedList (c.fields.map Field.name) ∧ ∃ x, r = x ++ "\n\x7d".toList := by
  let argument (f : Field) : Text :=
    "    ".toList ++ (f.name ++ (" ?? this.".toList ++ (f.name ++ [','])))
  have hargument : ∀ f, of ["    ", c.label f, f.name, " ?? this.", f.name, ","]
      = argument f := by
    intro f
    rw [label, hpos]
    rfl
  -- the lines up to the call of the constructor, and those below it
  refine ⟨_, _, (congrArg unlines ?_).trans (unlines_bracket ([of [c.type, " copyWith(\x7b"]]
      ++ c.fields.map (fun f => of ["  ", Member.optionalType f.type, " ", f.name, ","])
      ++ ["\x7d) \x7b".toList]) ("  return ".toList ++ c.type)
    (c.fields.map argument ++ ["  );".toList, "\x7d".toList]) (by simp)), ?_, ?_, ?_⟩
  · have hcall : of ["  return ", c.type, "("] = ("  return ".toList ++ c.type) ++ ['('] := by
      simp [of]
    rw [map_congr_left fun f _ => hargument f, hcall]
    simp only [append_assoc, cons_append, nil_append]
  · have hline : ∀ l ∈ c.fields.map argument ++ ["  );".toList, "\x7d".toList], '@' ∉ l := by
      intro l hl
      rcases mem_append.mp hl with hl | hl
      · obtain ⟨f, hf, rfl⟩ := mem_map.mp hl
        have hname : '@' ∉ f.name := not_mem_of_all (hw f hf) (by decide)
        simp only [argument, mem_append, not_or]
        exact ⟨by decide, hname, by decide, hname, by decide⟩
      · have hend : ∀ l ∈ ["  );".toList, "\x7d".toList], '@' ∉ l := by decide
        exact hend l hl
    have hlines := not_mem_endLines (d := '@') (by decide) hline
    rw [endLines_eq_unlines (by simp), mem_append, not_or] at hlines
    rw [mem_cons, not_or]
    exact ⟨by decide, hlines.1⟩
  · have hfield : ∀ f ∈ c.fields, (argument f).squeeze = copied f.name ++ [','] := by
      intro f hf
      simp only [argument, squeeze_append, squeeze_word (hw f hf), copied, append_assoc]
      rfl
    rw [show squeeze ('\n' :: unlines (c.fields.map argument ++ ["  );".toList, "\x7d".toList]))
      = squeeze (unlines (c.fields.map argument ++ ["  );".toList, "\x7d".toList])) from rfl,
      squeeze_unlines, map_append, map_map, flatten_append, copiedList, map_map]
    congr 2
    exact map_congr_left fun f hf => hfield f hf
  · rw [append_cons, unlines_append (by simp) (by simp)]
    exact ⟨_, (cons_append ..).symm⟩

theorem exists_erased_eq : ∃ b x : Text,
      (Member.copyWith c).text.eraseAll "@override\n" = b ++ '(' :: (x ++ "\n\x7d")
        ∧ (x ++ "\n\x7d").squeeze = copiedList (c.fields.map Field.name) := by
  obtain ⟨b, r, htext, hat, hr, x, rfl⟩ := c.exists_copyWith_eq hpos hw
  refine ⟨b.eraseAll "@override\n", x, ?_, hr⟩
  rw [htext, eraseAll_append_cons (by decide), eraseAll_of_not_mem (c := '@') (by decide) hat]

end

/-- **The method `copyWith` passes the fields in the order of the class**, inserted or in the place
    of an old one, if the constructor takes them by position. -/
theorem passedNames_copyWith (hpos : c.hasNamedConstructor = false)
    (hw : ∀ f ∈ c.fields, f.name.all isWord) :
    passedNames (Member.copyWith c).text.indent = c.fields.map Field.name
      ∧ passedNames (Member.copyWith c).replacement = c.fields.map Field.name := by
  have hword : ∀ w ∈ c.fields.map Field.name, w.all isWord := by
    intro w hwn
    obtain ⟨f, hf, rfl⟩ := mem_map.mp hwn
    exact hw f hf
  constructor
  · obtain ⟨b, r, htext, -, hr, -⟩ := c.exists_copyWith_eq hpos hw
    rw [passedNames_congr (squeeze_indent _), htext]
    exact passedNames_eq hword hr
  · obtain ⟨b, x, herase, hx⟩ := c.exists_erased_eq hpos hw
    rw [Member.replacement, passedNames_congr ((squeeze_removeEnd_feed _).trans (squeeze_indent _)),
      herase]
    exact passedNames_eq hword hx

/-- What takes the place of an old `copyWith` ends with its brace. -/
theorem exists_replacement_eq (hpos : c.hasNamedConstructor = false)
    (hw : ∀ f ∈ c.fields, f.name.all isWord) :
    ∃ q, (Member.copyWith c).replacement = q ++ ['\x7d'] := by
  obtain ⟨b, x, herase, -⟩ := c.exists_erased_eq hpos hw
  rw [Member.replacement, herase, show b ++ '(' :: (x ++ "\n\x7d")
      = (b ++ '(' :: x) ++ '\n' :: ['\x7d'] by simp, indent_eq_endLines, lines, split_append_sep,
    map_append, endLines_append, show endLines ((split ['\x7d'] '\n').map indentLine)
      = ("  " ++ ['\x7d']) ++ "\n" from rfl, ← append_assoc, removeEnd_append,
    ← append_assoc]
  exact ⟨_, rfl⟩

end SourceClass

end DartData
