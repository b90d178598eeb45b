import Mathlib.Data.List.Forall2
import DartData.Proofs.Constructor.Parameter

/-!
# Parameter lists as written

A named parameter list whose parameters all set fields: `this.x`, `required this.x` and
`this.x = d`, with any white space and line breaks around the words.  `FieldParameter` is such a
parameter with the white space around it, and `NamedList` is a list of them.

A list on one line is read item by item (`NamedList.readAs_items`); a list on several lines is read
line by line, which finds its parameters if each stands on a line of its own with its comma
(`NamedList.readAs_lines`).
-/

namespace DartData

open List Text

/-! ## §1. A parameter. -/

theorem trim_word {u : Text} (hu : u.all isWord) : u.trim = u :=
  trim_eq_self (fun c hc => isBlank_of_isWord (all_eq_true.mp hu c (mem_of_head? hc)))
    fun c hc => isBlank_of_isWord (all_eq_true.mp hu c (mem_of_getLast? hc))

theorem removeEnd_word {u : Text} (hu : u.all isWord) : u.removeEnd "," = u := by
  rw [removeEnd, endsWith_eq_false_of_not_mem (c := ',') (by decide)
    (not_mem_of_all hu (by decide))]
  rfl

/-- What stands in front of a comma at the end, if it begins with a word. -/
theorem trim_word_comma {u : Text} (hu : u.all isWord) (hne : u ≠ []) (b : Text) :
    trim ((u ++ b) ++ [',']) = (u ++ b) ++ [','] := by
  obtain ⟨x, r, rfl⟩ := exists_cons_of_ne_nil hne
  rw [all_cons, Bool.and_eq_true] at hu
  exact trim_between (b := []) (t := x :: r ++ b) (a := x) (e := ',') (by simp) rfl
    (isBlank_of_isWord hu.1) (by decide)

theorem trim_this {w : Text} (hword : w.all isWord) (v : Text) :
    trim ("this." ++ (w ++ v)) = "this." ++ (w ++ v.trimEnd) := by
  rw [trim, show "this." ++ (w ++ v) = 't' :: ("his." ++ (w ++ v)) from rfl,
    trimStart_cons_of_not_blank (by decide)]
  rcases eq_nil_or_concat w with rfl | ⟨i, e, rfl⟩
  · exact trimEnd_append_cons (c := '.') (by decide) "this" v
  · rw [concat_eq_append] at hword ⊢
    have he := isBlank_of_isWord (all_eq_true.mp hword e (by simp))
    have := trimEnd_append_cons he ("this." ++ i) v
    simpa using this

/-- A parameter that sets a field, with the white space around it. -/
structure FieldParameter where
  /-- The blanks in front. -/
  before : Text
  /-- The blanks after the word `required`, if it is there. -/
  modifier : Option Text
  name : Text
  /-- The blanks in front of the equals sign and the default after it, if there is one. -/
  value : Option (Text × Text)
  /-- The blanks up to the comma. -/
  after : Text
  before_blank : before.allBlank = true
  modifier_blank : ∀ b, modifier = some b → b.allBlank = true ∧ b ≠ []
  name_identifier : isIdentifier name = true
  value_blank : ∀ b d, value = some (b, d) → b.allBlank = true
  /-- The default closes the brackets it opens and has no comma outside of them. -/
  value_nested : ∀ b d, value = some (b, d) → nestedFrom [] (some '=') d = true
  value_end : ∀ b d, value = some (b, d) → d.getLast?.any (fun e => !isBlank e) = true
  after_blank : after.allBlank = true

namespace FieldParameter

variable {p : FieldParameter}

/-- The word in front of the parameter. -/
def word (p : FieldParameter) : Text := (p.modifier.map ("required".toList ++ ·)).getD []

/-- The default with its equals sign. -/
def valueText (p : FieldParameter) : Text := (p.value.map fun v => v.1 ++ '=' :: v.2).getD []

/-- The parameter without the white space around it: modifier, name and default as written. -/
def core (p : FieldParameter) : Text := p.word ++ ("this." ++ (p.name ++ p.valueText))

/-- The parameter as written. -/
def text (p : FieldParameter) : Text := p.before ++ (p.core ++ p.after)

section

variable (p : FieldParameter)

theorem name_word : p.name.all isWord :=
  all_isWord_of_isIdentifier p.name_identifier

theorem name_ne_nil : p.name ≠ [] := ne_nil_of_isIdentifier p.name_identifier

theorem blank_before : ∀ c ∈ p.before, isBlank c :=
  all_eq_true.mp p.before_blank

theorem blank_after : ∀ c ∈ p.after, isBlank c :=
  all_eq_true.mp p.after_blank

theorem core_head : ∃ e r, p.core = e :: r ∧ (e = 't' ∨ e = 'r') := by
  unfold core word
  cases p.modifier with
  | none => exact ⟨_, _, rfl, .inl rfl⟩
  | some b => exact ⟨_, _, rfl, .inr rfl⟩

theorem core_ne_nil : p.core ≠ [] := by
  obtain ⟨e, r, h, -⟩ := p.core_head
  simp [h]

theorem name_last : ∃ i e, p.name = i ++ [e] ∧ isWord e := by
  have hname := (dropLast_concat_getLast p.name_ne_nil).symm
  exact ⟨_, _, hname, all_eq_true.mp p.name_word _ (getLast_mem p.name_ne_nil)⟩

theorem value_depth {b d : Text} (h : p.value = some (b, d)) :
    endDepth? 0 (some '=') d = some 0 := endDepth?_nested d (p.value_nested b d h)

/-- A default ends with something else than a blank or a comma. -/
theorem value_last {b d : Text} (h : p.value = some (b, d)) :
    ∃ i e, d = i ++ [e] ∧ isBlank e = false ∧ e ≠ ',' := by
  have hend := p.value_end b d h
  cases hl : d.getLast? with
  | none => simp [hl] at hend
  | some e =>
    obtain ⟨i, rfl⟩ := getLast?_eq_some_iff.mp hl
    refine ⟨i, e, rfl, by simpa [hl] using hend, ?_⟩
    rintro rfl
    -- a comma at the end would stand outside of brackets
    obtain ⟨depth, -, hlast⟩ :=
      Option.bind_eq_some_iff.mp ((endDepth?_append i [','] _ _).symm.trans
      (p.value_depth h))
    by_cases h0 : depth = 0
      <;> simp [endDepth?, depthAfter, closerOf?, closes, isCloser, h0] at hlast

/-- So a parameter does, whether it ends with its name or with its default. -/
theorem core_last : ∃ i e, p.core = i ++ [e] ∧ isBlank e = false ∧ e ≠ ',' := by
  cases hv : p.value with
  | none =>
    obtain ⟨i, e, hn, he⟩ := p.name_last
    refine ⟨p.word ++ ("this." ++ i), e, by simp [core, valueText, hv, hn],
      isBlank_of_isWord he, ?_⟩
    rintro rfl
    exact absurd he (by decide)
  | some v =>
    obtain ⟨b, d⟩ := v
    obtain ⟨i, e, rfl, he⟩ := p.value_last hv
    exact ⟨p.word ++ ("this." ++ (p.name ++ (b ++ '=' :: i))), e,
      by simp [core, valueText, hv], he⟩

theorem core_endsWith_comma : p.core.endsWith "," = false := by
  obtain ⟨i, e, hcore, -, he⟩ := p.core_last
  rw [Bool.eq_false_iff, ne_eq, endsWith_iff, hcore]
  exact fun h => he (eq_of_singleton_suffix h).symm

end

variable {x : Text}

/-- Nothing is trimmed in front of a parameter, and nothing after it if no blank follows. -/
theorem trim_core_append (p : FieldParameter)
    (hx : ∀ c, (p.core ++ x).getLast? = some c → isBlank c = false) :
    trim (p.core ++ x) = p.core ++ x := by
  refine trim_eq_self (fun c hc => ?_) hx
  obtain ⟨e, r, hr, he⟩ := p.core_head
  rw [hr, cons_append, head?_cons, Option.some.injEq] at hc
  rcases he with rfl | rfl <;> rw [← hc] <;> decide

theorem trim_core (p : FieldParameter) : p.core.trim = p.core := by
  obtain ⟨i, e, hcore, he, -⟩ := p.core_last
  have := p.trim_core_append (x := []) fun c hc => by
    rw [append_nil, hcore, getLast?_concat, Option.some.injEq] at hc
    exact hc ▸ he
  rwa [append_nil] at this

theorem trim_text (p : FieldParameter) : p.text.trim = p.core := by
  rw [text, trim_append_of_blank p.blank_before, trim_append_blank p.blank_after, trim_core]

/-- The part in front of the default has no bracket and no comma. -/
theorem flat_front (p : FieldParameter) :
    ∀ c ∈ p.before ++ (p.word ++ ("this." ++ p.name)), isFlatItem c := by
  have hword : ∀ c ∈ p.word, isFlatItem c := by
    unfold word
    cases hm : p.modifier with
    | none => simp
    | some b =>
      have hb := all_eq_true.mp (p.modifier_blank b hm).1
      exact List.forall_mem_append.mpr
        ⟨forall_mem_of_all (by decide), fun c hc => isFlatItem_of_isBlank (hb c hc)⟩
  refine forall_mem_append.mpr ⟨fun c hc => isFlatItem_of_isBlank (p.blank_before c hc),
    forall_mem_append.mpr ⟨hword, forall_mem_append.mpr
      ⟨forall_mem_of_all (by decide), fun c hc => ?_⟩⟩⟩
  exact isFlatItem_of_isWord (all_eq_true.mp p.name_word c hc)

/-- **A parameter is an item of a list.** -/
theorem depth_text (p : FieldParameter) : endDepth? 0 none p.text = some 0 := by
  have htext : p.text = ((p.before ++ (p.word ++ ("this." ++ p.name))) ++ p.valueText)
      ++ p.after := by
    simp [text, core]
  rw [htext, endDepth?_append_blank p.blank_after, endDepth?_append, endDepth?_flats p.flat_front]
  unfold valueText
  cases hv : p.value with
  | none => rfl
  | some v =>
    obtain ⟨b, d⟩ := v
    have hb : ∀ c ∈ b ++ ['='], isFlatItem c := forall_mem_append.mpr
      ⟨fun c hc => isFlatItem_of_isBlank (all_eq_true.mp (p.value_blank b d hv) c hc),
        forall_mem_of_all (by decide)⟩
    show endDepth? 0 _ (b ++ '=' :: d) = some 0
    rw [append_cons, endDepth?_append, endDepth?_flats hb, getLast?_concat]
    exact p.value_depth hv

/-! ## §2. Reading it. -/

/-- Either the word `required` stands in front of the parameter or it is not in the name. -/
def IsClear (p : FieldParameter) : Prop := p.modifier = none → p.name.has "required" = false

instance (p : FieldParameter) : Decidable p.IsClear := inferInstanceAs (Decidable (_ → _))

/-- What may follow a parameter on its line: nothing, or a comma, which stands directly after it
    unless it has a default. -/
structure Follows (p : FieldParameter) (x : Text) : Prop where
  shape : x = [] ∨ x = p.after ++ [',']
  tight : p.value = none → x = [] ∨ x = [',']

/-- Without the word `required`, the parameter begins with its name and what follows it up to the
    equals sign is kept. -/
theorem eraseFirst_core (hp : p.IsClear) (hx : p.Follows x) : ∃ a rest : Text, (∀ c ∈ a, isBlank c)
      ∧ (p.core ++ x).eraseFirst "required" = a ++ ("this." ++ (p.name ++ rest))
      ∧ (p.value = none → rest = x)
      ∧ ∀ b d, p.value = some (b, d) → ∃ d' : Text, rest = b ++ '=' :: d' := by
  cases hm : p.modifier with
  | some a =>
    refine ⟨a, p.valueText ++ x, all_eq_true.mp (p.modifier_blank a hm).1, ?_, ?_, ?_⟩
    · have happ : p.core ++ x
          = "required".toList ++ (a ++ ("this.".toList ++ (p.name ++ (p.valueText ++ x)))) := by
        simp [core, word, hm]
      rw [happ, eraseFirst, cut?_append_self (by decide)]
      rfl
    · intro hv
      simp [valueText, hv]
    · intro b d hv
      exact ⟨d ++ x, by simp [valueText, hv]⟩
  | none =>
    -- the word can only stand in the default, after the equals sign
    have hname := hp hm
    have hnot : ∀ d : Char, isWord d = false → d ∉ "required".toList := by
      have hall : ∀ c ∈ "required".toList, isWord c := List.all_eq_true.mp (by decide)
      intro d hd hmem
      rw [hall d hmem] at hd
      cases hd
    have hthis : ∀ v : Text, v.has "required" = false →
        has ("this." ++ v) "required" = false := fun v hv =>
      has_append_cons (u := "this") (hnot '.' (by decide)) (by decide) hv
    cases hv : p.value with
    | none =>
      refine ⟨[], x, by simp, ?_, fun _ => rfl, fun _ _ h => absurd h.symm (Option.some_ne_none _)⟩
      have happ : p.core ++ x = "this.".toList ++ (p.name ++ x) := by
        simp [core, word, valueText, hm, hv]
      have hfree : has (p.name ++ x) "required" = false := by
        rcases hx.tight hv with rfl | rfl
        · rwa [append_nil]
        · exact has_append_cons (hnot ',' (by decide)) hname (by decide)
      rw [happ, eraseFirst_eq_self (hthis _ hfree)]
      rfl
    | some v =>
      obtain ⟨b, d⟩ := v
      refine ⟨[], b ++ '=' :: eraseFirst (d ++ x) "required", by simp, ?_,
        fun h => absurd h (Option.some_ne_none _), ?_⟩
      · have happ : p.core ++ x = ("this.".toList ++ (p.name ++ b)) ++ '=' :: (d ++ x) := by
          simp [core, word, valueText, hm, hv]
        have hfree : has (p.name ++ b) "required" = false := by
          cases b with
          | nil => rwa [append_nil]
          | cons e b =>
            have hblank := all_eq_true.mp (p.value_blank _ _ hv)
            have hr : 'r' ∉ b := fun hmem =>
              absurd (hblank 'r' (mem_cons_of_mem _ hmem)) (by decide)
            refine has_append_cons (fun hmem => ?_) hname
              (has_eq_false_of_not_mem (c := 'r') (by decide) hr)
            have hall : ∀ c ∈ "required".toList, (!isBlank c) :=
              List.all_eq_true.mp (by decide)
            have := hall e hmem
            rw [hblank e mem_cons_self] at this
            cases this
        rw [happ, eraseFirst_append_cons (by decide) (hthis _ hfree)]
        simp
      · intro b' d' h
        obtain ⟨rfl, rfl⟩ : b = b' ∧ d = d' := by simpa using h
        exact ⟨_, rfl⟩

/-- The name that is read, perhaps with the comma after it. -/
theorem nameIn_core (hp : p.IsClear) (hx : p.Follows x) :
    ∃ u, Parameter.nameIn (p.core ++ x) = (u, true) ∧ (u = p.name ∨ u = p.name ++ [',']) := by
  obtain ⟨a, rest, ha, herase, hnone, hsome⟩ := eraseFirst_core hp hx
  have hequals : '=' ∉ "this." ++ p.name := by
    exact List.not_mem_append (by decide) (not_mem_of_all p.name_word (by decide))
  cases hv : p.value with
  | none =>
    -- without a default nothing ends the name but the comma
    have hx' : rest = [] ∨ rest = [','] := hnone hv ▸ hx.tight hv
    have htrim : trim ("this." ++ (p.name ++ rest))
        = "this." ++ (p.name ++ rest) := by
      rw [trim_this p.name_word]
      rcases hx' with rfl | rfl <;> rfl
    have hfree : '=' ∉ "this." ++ (p.name ++ rest) := by
      rw [← append_assoc, mem_append, not_or]
      exact ⟨hequals, by rcases hx' with rfl | rfl <;> decide⟩
    refine ⟨p.name ++ rest, Parameter.nameIn_eq ?_, ?_⟩
    · rw [herase, trim_append_of_blank ha, htrim,
        before_eq_self (has_eq_false_of_not_mem (c := '=') (by decide) hfree), htrim]
    · rcases hx' with rfl | rfl
      · exact .inl (append_nil _)
      · exact .inr rfl
  | some v =>
    -- the equals sign ends it, and the blanks in front of that are trimmed
    obtain ⟨b, d⟩ := v
    have hblank := all_eq_true.mp (p.value_blank b d hv)
    obtain ⟨d', rfl⟩ := hsome b d hv
    refine ⟨p.name, Parameter.nameIn_eq ?_, .inl rfl⟩
    have htrim : trim ("this." ++ (p.name ++ (b ++ '=' :: d')))
        = ("this." ++ (p.name ++ b)) ++ '=' :: d'.trimEnd := by
      rw [trim_this p.name_word, trimEnd_append_cons (by decide)]
      simp
    have hfree : '=' ∉ "this." ++ (p.name ++ b) := by
      rw [← append_assoc, mem_append, not_or]
      exact ⟨hequals, fun h => absurd (hblank '=' h) (by decide)⟩
    have hcut : cut? ("this." ++ (p.name ++ b) ++ '=' :: d'.trimEnd) "="
        = some ("this." ++ (p.name ++ b), d'.trimEnd) := by
      rw [cut?_append_of_not_mem (c := '=') rfl hfree]
      show Option.map _ (cut? ("=" ++ d'.trimEnd) "=") = _
      rw [cut?_append_self (by decide)]
      simp
    rw [herase, trim_append_of_blank ha, htrim, Text.before, hcut]
    show trim ("this." ++ (p.name ++ b)) = _
    rw [trim_this p.name_word, show b.trimEnd = [] from trimEnd_append_of_blank hblank [],
      append_nil]

/-- A parameter that was read is this one.  The blanks in front of its comma may be gone. -/
structure ReadAs (p : FieldParameter) (q : Parameter) : Prop where
  name_eq : q.name = p.name
  setsField : q.setsField = true
  text_eq : ∃ b : Text, (b = [] ∨ b = p.after) ∧ q.text = p.core ++ (b ++ [',', '\n'])

/-- **A parameter is read as it is written.** -/
theorem ofText?_core (hp : p.IsClear) (hx : p.Follows x) :
    ∃ q, Parameter.ofText? (p.core ++ x) = some q ∧ p.ReadAs q := by
  obtain ⟨u, hu, hcases⟩ := nameIn_core hp hx
  have hname : (trim u).removeEnd "," = p.name := by
    rcases hcases with rfl | rfl
    · rw [trim_word p.name_word, removeEnd_word p.name_word]
    · have htrim := trim_word_comma p.name_word p.name_ne_nil []
      rw [append_nil] at htrim
      rw [htrim]
      exact removeEnd_append p.name [',']
  have hslash : startsWith (p.core ++ x) "//" = false := by
    obtain ⟨e, r, h, rfl | rfl⟩ := p.core_head <;> rw [h] <;> rfl
  have hempty : p.name.isEmpty = false := by simpa using p.name_ne_nil
  unfold Parameter.ofText?
  rw [hu]
  dsimp only
  rw [hname, hempty]
  -- a parameter is followed by nothing, or by its blanks and a comma
  rcases hx.shape with rfl | rfl
  · refine ⟨_, rfl, rfl, rfl, [], .inl rfl, ?_⟩
    rw [append_nil] at hslash ⊢
    rw [p.trim_core, p.core_endsWith_comma, hslash]
    simp
  · have htrim : trim (p.core ++ (p.after ++ [','])) = p.core ++ (p.after ++ [',']) := by
      refine p.trim_core_append fun c hc => ?_
      rw [← append_assoc, getLast?_concat, Option.some.injEq] at hc
      rw [← hc]
      decide
    have hend : endsWith (p.core ++ (p.after ++ [','])) "," := by
      rw [endsWith_iff, ← append_assoc]
      exact suffix_append _ _
    refine ⟨_, rfl, rfl, rfl, p.after, .inr rfl, ?_⟩
    rw [htrim, hend]
    simp

end FieldParameter

/-! ## §3. A list of parameters. -/

/-- Parameters with commas between them, as they stand between the braces of a list. -/
structure NamedList where
  items : List FieldParameter
  /-- Whether a comma follows the last of them. -/
  comma : Bool
  /-- The blanks in front of the closing brace. -/
  close : Text
  items_ne_nil : items ≠ []
  distinct : (items.map FieldParameter.name).Nodup
  close_blank : close.allBlank = true

namespace NamedList

variable {l : NamedList}

/-- What follows the last parameter. -/
def ending (l : NamedList) : Text := (if l.comma then [','] else []) ++ l.close

/-- The list as written. -/
def print (l : NamedList) : Text := join [','] (l.items.map FieldParameter.text) ++ l.ending

theorem blank_close (l : NamedList) : ∀ c ∈ l.close, isBlank c :=
  all_eq_true.mp l.close_blank

theorem exists_join_eq (p : FieldParameter) (ps : List FieldParameter) (rest : Text) :
    ∃ r : Text, join [','] ((p :: ps).map FieldParameter.text) ++ rest
      = p.before ++ (p.core ++ r) := by
  cases ps with
  | nil => exact ⟨p.after ++ rest, by simp [join, FieldParameter.text]⟩
  | cons q qs =>
    refine ⟨p.after ++ (',' :: (join [','] ((q :: qs).map FieldParameter.text) ++ rest)), ?_⟩
    rw [map_cons, map_cons, join_cons_cons]
    simp [FieldParameter.text]

/-- Trimmed, the list begins with the letter of one of two words. -/
theorem print_trim_head (l : NamedList) : ∃ e r, l.print.trim = e :: r ∧ (e = 't' ∨ e = 'r') := by
  obtain ⟨p, ps, hps⟩ := exists_cons_of_ne_nil l.items_ne_nil
  obtain ⟨rest, h⟩ := exists_join_eq p ps l.ending
  obtain ⟨e, r, hr, he⟩ := p.core_head
  have hblank : isBlank e = false := by rcases he with rfl | rfl <;> decide
  refine ⟨e, trimEnd (r ++ rest), ?_, he⟩
  rw [print, hps, h, trim_append_of_blank p.blank_before, hr, cons_append, trim,
    trimStart_cons_of_not_blank hblank, trimEnd_cons_of_not_blank hblank]

end NamedList

/-! ## §4. The list in the constructor. -/

variable {a b u : Text}

/-- Characters that are no brackets are collected inside of them, and dropped outside. -/
theorem insideParens_go_append (ho : '(' ∉ a) (hc : ')' ∉ a) (depth : Int) (found : Bool)
    (t : Text) :
    insideParens.go depth found (a ++ t)
      = (if depth ≥ 1 then a else []) ++ insideParens.go depth found t := by
  induction a with
  | nil => split <;> rfl
  | cons d a ih =>
    rw [mem_cons, not_or] at ho hc
    rw [cons_append, insideParens.go, if_neg (Ne.symm ho.1), if_neg (Ne.symm hc.1),
      ih ho.2 hc.2]
    split <;> rfl

theorem removeStarts_pair (t a b : Text) :
    t.removeStarts [a, b] = trim (removeStart (trim (removeStart t.trim a)) b) :=
  rfl

theorem removeEnds_pair (t a b : Text) :
    t.removeEnds [a, b] = trim (removeEnd (trim (removeEnd t.trim a)) b) := rfl

/-- Inside of the round brackets, the text is collected as it is. -/
def Collected (u : Text) : Prop :=
  ∀ rest, insideParens.go 1 true (u ++ rest) = u ++ insideParens.go 1 true rest

theorem Collected.append {v : Text} (hu : Collected u) (hv : Collected v) : Collected (u ++ v) := by
  intro rest
  rw [append_assoc, hu, hv, append_assoc]

theorem collected_of_not_mem (ho : '(' ∉ u) (hc : ')' ∉ u) : Collected u :=
  insideParens_go_append ho hc 1 true

theorem insideParens_eq (ha : '(' ∉ a ∧ ')' ∉ a) (hb : '(' ∉ b ∧ ')' ∉ b) (r : Text) :
    insideParens (a ++ '(' :: (b ++ ')' :: r)) = b := by
  rw [insideParens, insideParens_go_append ha.1 ha.2]
  exact (collected_of_not_mem hb.1 hb.2 (')' :: r)).trans (append_nil b)

theorem collected_of_flat (h : ∀ c ∈ u, isFlatItem c) : Collected u :=
  collected_of_not_mem (fun ho => absurd (h _ ho) (by decide)) fun hc => absurd (h _ hc) (by decide)

theorem collected_of_blank (h : ∀ c ∈ u, isBlank c) : Collected u :=
  collected_of_flat fun c hc => isFlatItem_of_isBlank (h c hc)

/-- The depth counts the round brackets that are still open, and there is one around the text. -/
theorem insideParens_go_nested (t : Text) {expected : List Char} {last : Option Char}
    (h : nestedFrom expected last t) :
    ∀ rest, insideParens.go ((expected.count ')' : Nat) + 1) true (t ++ rest)
      = t ++ insideParens.go 1 true rest := by
  induction t generalizing expected last with
  | nil =>
    intro rest
    rw [List.isEmpty_iff.mp h]
    rfl
  | cons c r ih =>
    intro rest
    rw [cons_append, insideParens.go]
    -- only round brackets change the depth, all other characters are collected
    rcases nestedFrom_cons h with ⟨d, ho, hr⟩ | ⟨ho, hc, outer, rfl, hr⟩ | ⟨ho, hc, -, hr⟩
    · have hrest := ih hr rest
      by_cases hround : c = '('
      · subst hround
        obtain rfl : ')' = d := by simpa [closerOf?] using ho
        rw [count_cons_self, Int.natCast_add] at hrest
        rw [if_pos rfl, show ((expected.count ')' : Nat) : Int) + 1 + 1
          = (expected.count ')' : Nat) + (1 : Nat) + 1 from rfl, hrest]
        rfl
      · have hclose : c ≠ ')' := by rintro rfl; cases ho
        have hd : d ≠ ')' := by
          rintro rfl
          unfold closerOf? at ho
          grind
        rw [count_cons_of_ne hd] at hrest
        rw [if_neg hround, if_neg hclose, if_pos (by omega), hrest]
        rfl
    · have hrest := ih hr rest
      have hround : c ≠ '(' := by rintro rfl; cases ho
      rw [if_neg hround]
      by_cases hclose : c = ')'
      · subst hclose
        rw [if_pos rfl, count_cons_self]
        rw [if_neg (by simp; omega), if_pos (by omega)]
        have hdepth : ((outer.count ')' + 1 : Nat) : Int) + 1 - 1
            = (outer.count ')' : Nat) + 1 := by omega
        rw [hdepth, hrest]
        rfl
      · rw [if_neg hclose, if_pos (by omega), count_cons_of_ne hclose, hrest]
        rfl
    · have hround : c ≠ '(' := by rintro rfl; cases ho
      have hclose : c ≠ ')' := by rintro rfl; exact absurd hc (by simp [closes, isCloser])
      rw [if_neg hround, if_neg hclose, if_pos (by omega), ih hr rest]
      rfl

/-- A parameter is collected as it is. -/
theorem FieldParameter.collected_text (p : FieldParameter) : Collected p.text := by
  have htext : p.text = (p.before ++ (p.word ++ ("this." ++ p.name)))
      ++ (p.valueText ++ p.after) := by
    simp [text, core]
  rw [htext]
  refine (collected_of_flat p.flat_front).append
    (Collected.append ?_ (collected_of_blank p.blank_after))
  unfold valueText
  cases hv : p.value with
  | none => exact fun _ => rfl
  | some v =>
    obtain ⟨b, d⟩ := v
    have hd : Collected d := insideParens_go_nested d (p.value_nested b d hv)
    exact (collected_of_blank (all_eq_true.mp (p.value_blank b d hv))).append
      ((collected_of_not_mem (u := ['=']) (by decide) (by decide)).append hd)

theorem collected_join {ts : List Text} (h : ∀ t ∈ ts, Collected t) :
    Collected (join [','] ts) := by
  induction ts with
  | nil => exact fun _ => rfl
  | cons t ts ih =>
    have ht := h t mem_cons_self
    cases ts with
    | nil => simpa [join] using ht
    | cons u us =>
      rw [join_cons_cons]
      exact (ht.append (collected_of_not_mem (by decide) (by decide))).append
        (ih (forall_mem_cons.mp h).2)

theorem NamedList.collected_print (l : NamedList) : Collected l.print := by
  refine (collected_join fun t ht => ?_).append
    (Collected.append ?_ (collected_of_blank l.blank_close))
  · obtain ⟨p, -, rfl⟩ := mem_map.mp ht
    exact p.collected_text
  · split <;> exact collected_of_not_mem (by decide) (by decide)

theorem trim_bracketed {o c : Char} (ha : a.allBlank) (hb : b.allBlank)
    (ho : isBlank o = false) (hc : isBlank c = false) (t : Text) :
    trim (a ++ o :: (t ++ c :: b)) = o :: (t ++ [c]) := by
  have happ : a ++ o :: (t ++ c :: b) = (a ++ ((o :: t) ++ [c])) ++ b := by simp
  rw [happ, trim_append_blank (all_eq_true.mp hb),
    trim_between (all_eq_true.mp ha) (a := o) rfl ho hc]
  rfl

/-- A constructor with a list between round brackets and braces, and blanks between these. -/
structure NamedConstructor where
  lead : Text
  opening : Text
  list : NamedList
  closing : Text
  tail : Text
  lead_flat : '(' ∉ lead ∧ ')' ∉ lead
  opening_blank : opening.allBlank = true
  closing_blank : closing.allBlank = true

namespace NamedConstructor

/-- The constructor as written. -/
def print (n : NamedConstructor) : Text :=
  n.lead ++ '(' :: (n.opening ++ '\x7b' :: (n.list.print ++ '\x7d' :: (n.closing ++ ')' :: n.tail)))

theorem insideParens_print (n : NamedConstructor) :
    insideParens n.print = n.opening ++ '\x7b' :: (n.list.print ++ '\x7d' :: n.closing) := by
  have ho := collected_of_blank (all_eq_true.mp n.opening_blank)
  have hc := collected_of_blank (all_eq_true.mp n.closing_blank)
  have hleft : Collected ['\x7b'] := collected_of_not_mem (by decide) (by decide)
  have hright : Collected ['\x7d'] := collected_of_not_mem (by decide) (by decide)
  have hlist := ho.append (hleft.append (n.list.collected_print.append (hright.append hc)))
    (')' :: n.tail)
  rw [insideParens, print, insideParens_go_append n.lead_flat.1 n.lead_flat.2]
  simp only [append_assoc, cons_append, nil_append] at hlist
  refine hlist.trans ?_
  rw [show insideParens.go 1 true (')' :: n.tail) = [] from rfl, append_nil]

/-- **The parameter list of the constructor is the list as written**, unless its last default ends
    with a square bracket. -/
theorem parameterList_print (n : NamedConstructor) (hend : n.list.print.trim.endsWith "]" = false) :
    parameterList n.print = n.list.print.trim := by
  obtain ⟨a, b, ha, hb, hprint⟩ := exists_trim n.list.print
  obtain ⟨e, r, he, hletter⟩ := n.list.print_trim_head
  have hblank : isBlank e = false ∧ e ≠ '[' := by rcases hletter with rfl | rfl <;> decide
  generalize hlist : n.list.print.trim = inner at *
  -- the list up to its brace begins with a letter
  have hhead : (inner ++ b).head? = some e := by rw [he]; rfl
  have htrim : ∀ a : Text, (∀ c ∈ a, isBlank c) →
      trim (a ++ ((inner ++ b) ++ ['\x7d'])) = (inner ++ b) ++ ['\x7d'] :=
    fun a ha => trim_between ha hhead hblank.1 (by decide)
  have hself : trim ((inner ++ b) ++ ['\x7d']) = (inner ++ b) ++ ['\x7d'] := htrim [] (by simp)
  have houter : trim (n.opening ++ '\x7b' :: (n.list.print ++ '\x7d' :: n.closing))
      = '\x7b' :: (a ++ ((inner ++ b) ++ ['\x7d'])) := by
    rw [trim_bracketed n.opening_blank n.closing_blank (by decide) (by decide), hprint]
    simp
  have hnone : removeStart ((inner ++ b) ++ ['\x7d']) "[" = (inner ++ b) ++ ['\x7d'] := by
    have hno : startsWith ((inner ++ b) ++ ['\x7d']) "[" = false :=
      startsWith_eq_false (c := e) (by rw [head?_append, hhead]; rfl) rfl hblank.2
    rw [removeStart, hno]
    rfl
  have hclose : removeEnd ((inner ++ b) ++ ['\x7d']) "\x7d" = inner ++ b :=
    removeEnd_append _ ['\x7d']
  have hkeep : inner.removeEnd "]" = inner := by
    rw [removeEnd, hend]
    rfl
  have hinner : inner.trim = inner := by rw [← hlist, trim_trim]
  rw [parameterList, n.insideParens_print, removeStarts_pair, houter,
    show removeStart ('\x7b' :: (a ++ ((inner ++ b) ++ ['\x7d']))) "\x7b"
      = a ++ ((inner ++ b) ++ ['\x7d']) from rfl,
    htrim a ha, hnone, hself, removeEnds_pair, hself, hclose, trim_append_blank hb, hinner, hkeep,
    hinner]

end NamedConstructor

/-! ## §5. A list on one line. -/

theorem forall₂_of_forall {α β : Type} {R : α → β → Prop} {f : α → Text} {g : Text → Option β}
    {xs : List α} (h : ∀ x ∈ xs, ∃ y, g (f x) = some y ∧ R x y) :
    List.Forall₂ R xs ((xs.map f).filterMap g) := by
  induction xs with
  | nil => exact .nil
  | cons x xs ih =>
    obtain ⟨y, hy, hr⟩ := h x mem_cons_self
    rw [map_cons, filterMap_cons_some hy]
    exact .cons hr (ih (forall_mem_cons.mp h).2)

namespace NamedList

/-- The items of a list are its parameters. -/
theorem splitTopLevel_print (l : NamedList) :
    l.print.splitTopLevel = l.items.map FieldParameter.core := by
  have hclosed : ∀ t ∈ l.items.map FieldParameter.text, endDepth? 0 none t = some 0 :=
    forall_mem_map.mpr fun p _ => p.depth_text
  have hitems : (l.items.map FieldParameter.text).flatMap itemOf
      = l.items.map FieldParameter.core := by
    rw [flatMap_itemOf (forall_mem_map.mpr fun p _ => by rw [p.trim_text]; exact p.core_ne_nil),
      map_map]
    exact map_congr_left fun p _ => p.trim_text
  rw [print, ending]
  cases l.comma with
  | true =>
    -- the blanks at the end are one more piece, of which nothing is left
    have hclose : endDepth? 0 none l.close = some 0 :=
      endDepth?_append_blank l.blank_close [] 0 none
    have hblank : itemOf l.close = [] := if_pos (trim_eq_nil_iff.mpr l.close_blank)
    have hne : l.items.map FieldParameter.text ≠ [] := by simpa using l.items_ne_nil
    have hall := forall_mem_append.mpr ⟨hclosed, forall_mem_singleton.mpr hclose⟩
    have := (isSequence_of_closed hall).splitTopLevel_join (b := []) (by simp)
    rw [join_concat hne, flatMap_append, hitems, flatMap_singleton, hblank] at this
    simpa using this
  | false =>
    rw [if_neg (by decide), nil_append, splitTopLevel_append_blank l.blank_close,
      (isSequence_of_closed hclosed).splitTopLevel_join (b := []) (by simp), hitems]

/-- **A list on one line is read as it is written.** -/
theorem readAs_items (l : NamedList) (hp : ∀ p ∈ l.items, p.IsClear) :
    List.Forall₂ FieldParameter.ReadAs l.items
      (l.print.trim.splitTopLevel.filterMap Parameter.ofText?) := by
  rw [splitTopLevel_trim, splitTopLevel_print]
  refine forall₂_of_forall fun p hmem => ?_
  have := FieldParameter.ofText?_core (hp p hmem) (x := []) ⟨.inl rfl, fun _ => .inl rfl⟩
  rwa [append_nil] at this

end NamedList

/-! ## §6. A list on several lines. -/

namespace Parameter

theorem nameIn_congr {t u : Text}
    (h : trim (t.eraseFirst "required") = trim (u.eraseFirst "required")) :
    nameIn t = nameIn u := by
  unfold nameIn
  rw [h]

section

variable {b : Text} (hb : ∀ c ∈ b, isBlank c = true) (t : Text)
include hb

theorem ofText?_blank_append : ofText? (b ++ t) = ofText? t := by
  have hr : 'r' ∉ b := fun h => absurd (hb _ h) (by decide)
  have herase : eraseFirst (b ++ t) "required" = b ++ t.eraseFirst "required" := by
    rw [eraseFirst, eraseFirst, cut?_append_of_not_mem (c := 'r') rfl hr]
    cases t.cut? "required" with
    | none => rfl
    | some x => exact append_assoc ..
  have hname : nameIn (b ++ t) = nameIn t := nameIn_congr (by rw [herase, trim_append_of_blank hb])
  unfold ofText?
  rw [hname, trim_append_of_blank hb]

theorem eraseFirst_append_blank :
    eraseFirst (t ++ b) "required" = t.eraseFirst "required" ++ b := by
  have hall : ∀ c ∈ "required".toList, (!isBlank c) := List.all_eq_true.mp (by decide)
  induction b generalizing t with
  | nil => rw [append_nil, append_nil]
  | cons c b ih =>
    have hc : c ∉ "required".toList := fun h => by
      have := hall c h
      rw [hb c mem_cons_self] at this
      cases this
    rw [append_cons, ih (forall_mem_cons.mp hb).2,
      eraseFirst_concat (by decide) hc, ← append_cons]

theorem ofText?_append_blank : ofText? (t ++ b) = ofText? t := by
  have hname : nameIn (t ++ b) = nameIn t :=
    nameIn_congr (by rw [eraseFirst_append_blank hb, trim_append_blank hb])
  unfold ofText?
  rw [hname, trim_append_blank hb]

end

end Parameter

/-- The parameters of a list that is read line by line. -/
def readLines (t : Text) : List Parameter := t.lines.filterMap Parameter.ofText?

theorem readLines_append_line (t u : Text) :
    readLines (t ++ '\n' :: u) = readLines t ++ readLines u := by
  rw [readLines, lines, split_append_sep, filterMap_append]
  rfl

theorem readLines_line {t : Text} (h : '\n' ∉ t) : readLines t = (Parameter.ofText? t).toList := by
  rw [readLines, lines_of_not_mem h]
  cases h : Parameter.ofText? t <;> simp [h]

/-- Blanks in front are not read. -/
theorem readLines_blank_append {b : Text} (hb : ∀ c ∈ b, isBlank c) (t : Text) :
    readLines (b ++ t) = readLines t := by
  induction b with
  | nil => rfl
  | cons c b ih =>
    have ih := ih fun d hd => hb d (mem_cons_of_mem _ hd)
    rw [cons_append, ← ih]
    by_cases hc : c = '\n'
    · subst hc
      exact readLines_append_line [] (b ++ t)
    · obtain ⟨l, ls, hl⟩ := exists_cons_of_ne_nil (lines_ne_nil (b ++ t))
      have hone : Parameter.ofText? (c :: l) = Parameter.ofText? l :=
        Parameter.ofText?_blank_append (b := [c]) (fun d hd => by
          rw [mem_singleton.mp hd]
          exact hb c mem_cons_self) l
      rw [readLines, readLines, hl, show lines (c :: (b ++ t)) = (c :: l) :: ls from
        split_cons_of_ne hc hl, filterMap_cons, filterMap_cons, hone]

/-- Blanks behind are not read. -/
theorem readLines_append_blank {b : Text} (hb : ∀ c ∈ b, isBlank c) (t : Text) :
    readLines (t ++ b) = readLines t := by
  induction b generalizing t with
  | nil => rw [append_nil]
  | cons c b ih =>
    have hc := hb c mem_cons_self
    rw [append_cons, ih (forall_mem_cons.mp hb).2]
    by_cases hn : c = '\n'
    · subst hn
      rw [readLines_append_line]
      exact append_nil _
    · have hfeed : '\n' ∉ [c] := by simpa using Ne.symm hn
      obtain ⟨ws, w, h₁, h₂⟩ := split_append_of_not_mem hfeed t
      have hone : Parameter.ofText? (w ++ [c]) = Parameter.ofText? w :=
        Parameter.ofText?_append_blank (fun d hd => mem_singleton.mp hd ▸ hc) w
      rw [readLines, readLines, lines, lines, h₁, h₂, filterMap_append, filterMap_append,
        filterMap_cons, filterMap_cons, hone]

theorem readLines_trim (t : Text) : readLines t.trim = readLines t := by
  obtain ⟨a, b, ha, hb, ht⟩ := exists_trim t
  conv => rhs; rw [ht, readLines_blank_append ha, readLines_append_blank hb]

namespace NamedList

/-- Each parameter stands on a line of its own, together with its comma; the comma stands directly
    after a parameter without a default. -/
def OneALine (l : NamedList) : Prop :=
  (∀ p ∈ l.items, '\n' ∉ p.core ∧ '\n' ∉ p.after ∧ (p.value = none → p.after = []))
    ∧ ∀ p ∈ l.items.tail, '\n' ∈ p.before

instance (l : NamedList) : Decidable l.OneALine := inferInstanceAs (Decidable (_ ∧ _))

theorem readLines_parameter {p : FieldParameter} (hp : p.IsClear) (hcore : '\n' ∉ p.core)
    {x b : Text}
    (hx : p.Follows x) (hxn : '\n' ∉ x) (hb : ∀ c ∈ b, isBlank c) :
    ∃ q, p.ReadAs q ∧ readLines (p.before ++ ((p.core ++ x) ++ b)) = [q] := by
  obtain ⟨q, hq, hread⟩ := FieldParameter.ofText?_core hp hx
  refine ⟨q, hread, ?_⟩
  rw [readLines_blank_append p.blank_before, readLines_append_blank hb,
    readLines_line (by rw [mem_append, not_or]; exact ⟨hcore, hxn⟩), hq]
  rfl

/-- The parameters from one on, by induction on their number: each line feed in front of a parameter
    ends the line of the one before. -/
theorem readLines_join (ps : List FieldParameter) (hne : ps ≠ []) (comma : Bool) {close : Text}
    (hclose : ∀ c ∈ close, isBlank c) (hclear : ∀ p ∈ ps, p.IsClear)
    (hlines : ∀ p ∈ ps, '\n' ∉ p.core ∧ '\n' ∉ p.after ∧ (p.value = none → p.after = []))
    (hapart : ∀ p ∈ ps.tail, '\n' ∈ p.before) :
    List.Forall₂ FieldParameter.ReadAs ps (readLines (join [','] (ps.map FieldParameter.text)
      ++ ((if comma then [','] else []) ++ close))) := by
  -- with its comma, each parameter is a line of its own
  have hcomma : ∀ p ∈ ps, p.Follows (p.after ++ [',']) ∧ '\n' ∉ p.after ++ [','] := by
    intro p hp
    obtain ⟨-, hafter, htight⟩ := hlines p hp
    refine ⟨⟨.inr rfl, fun hv => .inr ?_⟩, ?_⟩
    · rw [htight hv]
      rfl
    · exact List.not_mem_append hafter (by decide)
  induction ps with
  | nil => exact absurd rfl hne
  | cons p ps ih =>
    have hp := hclear p mem_cons_self
    have hcore := (hlines p mem_cons_self).1
    obtain ⟨hfollows, hfeed⟩ := hcomma p mem_cons_self
    cases ps with
    | nil =>
      cases comma with
      | true =>
        obtain ⟨q, hq, hread⟩ := readLines_parameter hp hcore hfollows hfeed hclose
        have happ : join [','] ([p].map FieldParameter.text)
            ++ ((if true then [','] else []) ++ close)
            = p.before ++ ((p.core ++ (p.after ++ [','])) ++ close) := by
          simp [join, FieldParameter.text]
        rw [happ, hread]
        exact .cons hq .nil
      | false =>
        have hblank : ∀ c ∈ p.after ++ close, isBlank c := fun c hc =>
          (mem_append.mp hc).elim (p.blank_after c) (hclose c)
        obtain ⟨q, hq, hread⟩ := readLines_parameter hp hcore (x := [])
          ⟨.inl rfl, fun _ => .inl rfl⟩ (by simp) hblank
        have happ : join [','] ([p].map FieldParameter.text)
            ++ ((if false then [','] else []) ++ close)
            = p.before ++ ((p.core ++ []) ++ (p.after ++ close)) := by
          simp [join, FieldParameter.text]
        rw [happ, hread]
        exact .cons hq .nil
    | cons q qs =>
      -- what stands in front of the next parameter is divided by a line feed
      obtain ⟨x, y, hbefore⟩ := append_of_mem (hapart q mem_cons_self)
      have hx : ∀ c ∈ x, isBlank c := fun c hc => q.blank_before c (by simp [hbefore, hc])
      have hy : ∀ c ∈ y, isBlank c := fun c hc => q.blank_before c (by simp [hbefore, hc])
      obtain ⟨p', hp', hread⟩ := readLines_parameter hp hcore hfollows hfeed hx
      obtain ⟨r, hr⟩ := exists_join_eq q qs ((if comma then [','] else []) ++ close)
      have hrest := ih (cons_ne_nil q qs) (forall_mem_cons.mp hclear).2
        (forall_mem_cons.mp hlines).2
        (fun p hp => hapart p (mem_of_mem_tail hp))
        (forall_mem_cons.mp hcomma).2
      rw [hr, readLines_blank_append q.blank_before] at hrest
      have happ : join [','] ((p :: q :: qs).map FieldParameter.text)
          ++ ((if comma then [','] else []) ++ close)
          = (p.before ++ ((p.core ++ (p.after ++ [','])) ++ x))
            ++ '\n' :: (y ++ (q.core ++ r)) := by
        rw [map_cons, map_cons, join_cons_cons, append_assoc, ← map_cons, hr,
          hbefore]
        simp [FieldParameter.text]
      rw [happ, readLines_append_line, hread, readLines_blank_append hy]
      exact .cons hp' hrest

/-- **A list with one parameter a line is read as it is written.** -/
theorem readAs_lines (l : NamedList) (hp : ∀ p ∈ l.items, p.IsClear) (h : l.OneALine) :
    List.Forall₂ FieldParameter.ReadAs l.items (readLines l.print.trim) := by
  rw [readLines_trim]
  exact readLines_join l.items l.items_ne_nil l.comma l.blank_close hp h.1 h.2

end NamedList

end DartData
