import DartData.Proofs.Member.Form

/-!
# Members in their place

A member is written into the body of a class with an empty line above it and moved to the right.
There it is still an item of the form of a member, it is passed over by the scanner, and its lines
are what would be written in the place of the member.
-/

namespace DartData

open List Text

/-! ## §1. Lines moved to the right. -/

namespace Text

theorem indentLine_of_ne_nil {l : Text} (h : l ≠ []) : indentLine l = "  " ++ l := by
  simp [indentLine, h]

theorem Adds.indentLine {o c : Char} {l : Text} {k : Int} (h : Adds o c l k) (ho : o ≠ ' ')
    (hc : c ≠ ' ') : Adds o c l.indentLine k := by
  by_cases hl : l = []
  · subst hl
    exact h
  · have hblanks : Adds o c "  " 0 := by
      refine ⟨"  ", Lexer.reads_code (by decide), ?_⟩
      simp [Ne.symm ho, Ne.symm hc]
    rw [indentLine_of_ne_nil hl]
    simpa using hblanks.append h

/-- A line without blanks around it, moved to the right. -/
theorem trim_indentLine {l t : Text} {a e : Char} (hhead : l.head? = some a)
    (ha : isBlank a = false)
    (hlast : l = t ++ [e]) (he : isBlank e = false) :
    l.indentLine.trimStart = l ∧ l.indentLine.trim = l := by
  have hstart : l.indentLine.trimStart = l := by
    cases l with
    | nil => simp at hhead
    | cons b l =>
      simp only [head?_cons, Option.some.injEq] at hhead
      rw [indentLine_of_ne_nil (by simp), trimStart_append_of_blank (all_eq_true.mp (by decide)),
        trimStart_cons_of_not_blank (hhead ▸ ha)]
  refine ⟨hstart, ?_⟩
  rw [trim, hstart, hlast, trimEnd_append_of_not_blank he]

theorem not_mem_indentLine {l : Text} {c : Char} (hl : c ∉ l) (hc : c ≠ ' ') :
    c ∉ l.indentLine := by
  unfold indentLine
  split
  · exact hl
  · simp [hl, hc]

end Text

theorem isClassLine_indentLine (l : Text) : isClassLine l.indentLine = isClassLine l := by
  have htrim : l.indentLine.trimStart = l.trimStart := by
    unfold indentLine
    split
    · rfl
    · exact trimStart_append_of_blank (b := "  ") (all_eq_true.mp (by decide)) l
  rw [isClassLine, htrim, isClassLine]

theorem Closes.indentLine {ls : List Text} :
    ∀ {k : Int}, Closes k ls → Closes k (ls.map indentLine) := by
  induction ls with
  | nil => exact id
  | cons l ls ih =>
    rintro k ⟨d, hd, hrest⟩
    refine ⟨d, hd.indentLine (by decide) (by decide), ?_⟩
    rcases hrest with ⟨rfl, h⟩ | ⟨hk, h⟩
    · exact .inl ⟨rfl, h⟩
    · exact .inr ⟨hk, ih h⟩

/-- A statement still ends with something in front of it. -/
theorem endsStatement_prepend {l : Text} (h : endsStatement l) (u : Text) :
    endsStatement (u ++ l) := by
  rw [endsStatement, endsWith_iff] at h ⊢
  have hl : l.allBlank = false := by
    rw [Bool.eq_false_iff]
    intro hall
    have hnil : l.trimEnd = [] :=
      trimEnd_append_of_blank (all_eq_true.mp hall) []
    simp [hnil] at h
  rw [trimEnd_append hl]
  exact h.trans (suffix_append u _)

/-! ## §2. Items moved to the right. -/

/-- The item moved to the right. -/
def Item.indented (i : Item) : Item := ⟨i.first.indentLine, i.rest.map indentLine⟩

theorem Item.lines_indented (i : Item) : i.indented.lines = i.lines.map indentLine := rfl

theorem Item.Sits.indented {i : Item} (h : i.Sits) : i.indented.Sits := by
  rcases h with ⟨hr, h⟩ | ⟨h, hr⟩
  · exact .inl ⟨by simp [Item.indented, hr], h.indentLine (by decide) (by decide)⟩
  · exact .inr ⟨h.indentLine (by decide) (by decide), hr.indentLine⟩

/-- A member stays one when it is moved to the right. -/
theorem Item.IsMember.indented {i : Item} (h : i.IsMember) : i.indented.IsMember := by
  refine ⟨h.1.indented, fun hr => ?_⟩
  have hr : i.rest = [] := by simpa [Item.indented] using hr
  obtain ⟨ha, he⟩ := h.2 hr
  have hne : i.first ≠ [] := by
    intro hnil
    rw [hnil] at ha
    exact absurd ha (by decide)
  show i.first.indentLine.has "=>" ∧ endsStatement i.first.indentLine
  rw [indentLine_of_ne_nil hne]
  refine ⟨?_, endsStatement_prepend he _⟩
  rw [has_iff] at ha ⊢
  exact ha.trans (suffix_append _ _).isInfix

theorem Item.IsMember.not_field {i : Item} (h : i.IsMember) (name : Option Text) (seen : Bool) :
    isFieldLine name seen i.first = false := by
  obtain ⟨hs, harrow⟩ := h
  rcases hs with ⟨hr, -⟩ | ⟨h, -⟩
  · have ha : i.first.has ['=', '>'] := (harrow hr).1
    have hsym : i.first.hasOneOf memberSymbols := by
      simp [hasOneOf, memberSymbols, ha]
    simp [isFieldLine, hsym]
  · exact isFieldLine_of_brace h (by decide) name seen

namespace Leads

variable {first sig : Text}

theorem head_not_blank (h : Leads first sig) :
    ∃ a, first.head? = some a ∧ isBlank a = false ∧ a ≠ 'c' := by
  obtain ⟨w, d, u, a, rfl, hw, -, ha, hc, -⟩ := h.word
  refine ⟨a, ?_, isBlank_of_isWord (all_eq_true.mp hw a (mem_of_mem_head? ha)), hc⟩
  rw [head?_append, ha]
  rfl

theorem trim_indentLine (h : Leads first sig) :
    first.indentLine.trimStart = first ∧ first.indentLine.trim = first := by
  obtain ⟨a, hhead, ha, -⟩ := h.head_not_blank
  obtain ⟨t, e, hlast, he⟩ := h.last
  exact Text.trim_indentLine hhead ha hlast he

theorem not_constructor (h : Leads first sig) {name : Text} (hw : name.all isWord) :
    (OpenClass.afterConst first.indentLine).startsWith (name ++ ['(']) = false := by
  have hconst : first.startsWith "const " = false := by
    obtain ⟨a, hhead, -, hc⟩ := h.head_not_blank
    exact startsWith_eq_false hhead rfl hc
  rw [OpenClass.afterConst, h.trim_indentLine.1, hconst, if_neg Bool.false_ne_true,
    startsWith_eq_false_iff]
  obtain ⟨w, d, u, a, rfl, hword, hd, -⟩ := h.word
  intro hp
  have hne := (prefix_word hw hword (by decide) (by rcases hd with rfl | rfl <;> decide) hp).2.1
  rcases hd with rfl | rfl <;> exact absurd hne (by decide)

end Leads

namespace Member.Shape

variable {m : Member} {sig : Text} {marked : Bool} {i : Item}

theorem isMember_indented (h : m.Shape sig marked i) : i.indented.IsMember :=
  h.written.member.indented

theorem silent_indented (h : m.Shape sig marked i) {name : Text} (hw : name.all isWord) :
    i.indented.Silent name where
  no_class_line := by
    intro l hl
    obtain ⟨l', hl', rfl⟩ := mem_map.mp (i.lines_indented ▸ hl)
    obtain ⟨k, hk⟩ := h.written.lines l' hl'
    rw [isClassLine_indentLine]
    exact hk.no_class_line
  no_constructor := h.leads.not_constructor hw
  no_field := .inr fun seen => h.isMember_indented.not_field _ seen

theorem signature_indented (h : m.Shape sig marked i) :
    ∃ tail, bareSignature i.indented.first.trim = sig ++ tail := by
  show ∃ tail, bareSignature i.first.indentLine.trim = sig ++ tail
  rw [h.leads.trim_indentLine.2]
  exact h.leads.signature

end Member.Shape

/-! ## §3. The text in the body of a class. -/

/-- The line above a member that is marked. -/
def Item.mark : Item := { first := "  @override" }

/-- The items that a member is in the body of a class. -/
def Item.placed (i : Item) (marked : Bool) : List Item :=
  Item.blank :: ((overrideMark marked).map (fun _ => Item.mark) ++ [i.indented])

/-- A blank line, the annotation and the member. -/
theorem itemLines_placed (i : Item) (marked : Bool) :
    itemLines (i.placed marked) = [] :: (overrideMark marked ++ i.lines).map indentLine := by
  have hlines : itemLines [i.indented] = i.lines.map indentLine := by
    rw [itemLines_cons, itemLines_nil, append_nil, i.lines_indented]
  cases marked with
  | false =>
    show [] :: itemLines [i.indented] = _
    rw [hlines]
    rfl
  | true =>
    show [] :: "  @override" :: itemLines [i.indented] = _
    rw [hlines]
    rfl

namespace Member

variable {m : Member} {marked : Bool} {i : Item}

/-- Without the annotation the text of a member is its lines. -/
theorem eraseAll_of_tame (h : m.text = unlines (overrideMark marked ++ i.lines))
    (htame : ∀ l ∈ i.lines, ∃ k, Tame l k) :
    m.text.eraseAll "@override\n" = unlines i.lines := by
  have hmark : '@' ∉ unlines i.lines := by
    intro hmem
    rcases mem_join hmem with hmem | ⟨l, hl, hmem⟩
    · revert hmem
      decide
    · obtain ⟨k, hk⟩ := htame l hl
      exact hk.no_mark hmem
  rw [h]
  cases marked with
  | false => exact eraseAll_of_not_mem (c := '@') (by decide) hmark
  | true =>
    have heq : unlines (overrideMark true ++ i.lines)
        = "@override\n" ++ unlines i.lines := by
      show join ['\n'] ("@override" :: i.lines) = _
      rw [join_cons i.lines_ne_nil]
      rfl
    rw [heq, eraseAll_append (by decide)]
    exact eraseAll_of_not_mem (c := '@') (by decide) hmark

theorem replacement_of_tame (h : m.text = unlines (overrideMark marked ++ i.lines))
    (htame : ∀ l ∈ i.lines, ∃ k, Tame l k) : m.replacement = unlines i.indented.lines := by
  have hfeed : ∀ l ∈ i.lines, '\n' ∉ l := fun l hl => (htame l hl).elim fun _ hk => hk.no_feed
  have hne := i.lines_ne_nil
  rw [replacement, eraseAll_of_tame h htame, indent_eq_endLines, lines_unlines hne hfeed,
    show "\n" = ['\n'] from rfl, removeEnd_endLines (by simpa using hne), i.lines_indented]

end Member

namespace Member.Shape

variable {m : Member} {sig : Text} {marked : Bool} {i : Item}

theorem lines_text (h : m.Shape sig marked i) : m.text.lines = overrideMark marked ++ i.lines := by
  rw [h.text_eq, lines_unlines (append_ne_nil_of_right_ne_nil _ i.lines_ne_nil)]
  intro l hl
  rcases mem_append.mp hl with hl | hl
  · cases marked with
    | false => exact absurd hl not_mem_nil
    | true =>
      rw [mem_singleton.mp hl]
      decide
  · obtain ⟨k, hk⟩ := h.written.lines l hl
    exact hk.tame.no_feed

/-- What is inserted into the class are the lines of the items. -/
theorem endLines_append_indent (h : m.Shape sig marked i) (is : List Item) :
    endLines (itemLines is) ++ ['\n'] ++ m.text.indent
      = endLines (itemLines (is ++ i.placed marked)) := by
  rw [itemLines_append, endLines_append, itemLines_placed, indent_eq_endLines, h.lines_text,
    endLines_cons, append_assoc]
  rfl

theorem replacement_eq (h : m.Shape sig marked i) : m.replacement = unlines i.indented.lines :=
  replacement_of_tame h.text_eq fun l hl => (h.written.lines l hl).imp fun _ hk => hk.tame

/-- The text and the replacement differ by the annotation, white space apart. -/
theorem squeeze_text (h : m.Shape sig marked i) :
    m.text.squeeze = (unlines (overrideMark marked)).squeeze ++ m.replacement.squeeze := by
  have hlines : i.indented.lines.map squeeze = i.lines.map squeeze := by
    rw [i.lines_indented, map_map]
    exact map_congr_left fun l _ => squeeze_indentLine l
  rw [h.text_eq, h.replacement_eq, squeeze_unlines, squeeze_unlines, squeeze_unlines, hlines,
    map_append, flatten_append]

end Member.Shape

/-! ## §4. The items of a member. -/

namespace Item

theorem sits_blank : blank.Sits := .inl ⟨rfl, tame_nil.adds⟩

theorem avoids_blank (wanted : Text) : blank.Avoids wanted := .inr ⟨rfl, by decide⟩

theorem silent_blank (name : Text) : blank.Silent name where
  no_class_line := by
    intro l hl
    rw [mem_singleton.mp hl]
    decide
  no_constructor := by
    show startsWith [] (name ++ ['(']) = false
    cases name <;> rfl
  no_field := .inl rfl

theorem sits_mark : mark.Sits := .inl ⟨rfl, adds_code (by decide) '{' '}'⟩

theorem avoids_mark (wanted : Text) : mark.Avoids wanted := .inr ⟨rfl, by decide⟩

/-- The annotation declares nothing. -/
theorem silent_mark {name : Text} (hw : name.all isWord) : mark.Silent name where
  no_class_line := by
    intro l hl
    rw [mem_singleton.mp hl]
    decide
  no_constructor := by
    show startsWith "@override" (name ++ ['(']) = false
    cases name with
    | nil => rfl
    | cons a r =>
      refine startsWith_eq_false (c := '@') rfl rfl ?_
      rintro rfl
      simp [isWord] at hw
  no_field := by
    refine .inr fun seen => ?_
    have hmark : hasOneOf "  @override" memberSymbols := by decide
    show isFieldLine (some name) seen "  @override" = false
    rw [isFieldLine, hmark]
    simp only [Bool.not_true, Bool.and_false, Bool.false_and]

theorem cases_of_mem_placed {i j : Item} {marked : Bool} (hj : j ∈ i.placed marked) :
    j = blank ∨ j = mark ∨ j = i.indented := by
  rcases mem_cons.mp hj with hj | hj
  · exact .inl hj
  · rcases mem_append.mp hj with hj | hj
    · obtain ⟨-, -, h⟩ := mem_map.mp hj
      exact .inr (.inl h.symm)
    · exact .inr (.inr (mem_singleton.mp hj))

end Item

namespace Member.Shape

variable {m : Member} {sig : Text} {marked : Bool} {i j : Item}

/-- The scanner passes over all items of a member. -/
theorem silent_placed (h : m.Shape sig marked i) {name : Text} (hw : name.all isWord)
    (hj : j ∈ i.placed marked) : j.Sits ∧ j.Silent name := by
  rcases Item.cases_of_mem_placed hj with rfl | rfl | rfl
  · exact ⟨Item.sits_blank, Item.silent_blank name⟩
  · exact ⟨Item.sits_mark, Item.silent_mark hw⟩
  · exact ⟨h.isMember_indented.1, h.silent_indented hw⟩

/-- A search for another member passes over all items of a member. -/
theorem avoids_placed (h : m.Shape sig marked i) {wanted : Text} (h₁ : ¬ wanted <+: sig)
    (h₂ : ¬ sig <+: wanted) (hj : j ∈ i.placed marked) : j.Sits ∧ j.Avoids wanted := by
  rcases Item.cases_of_mem_placed hj with rfl | rfl | rfl
  · exact ⟨Item.sits_blank, Item.avoids_blank wanted⟩
  · exact ⟨Item.sits_mark, Item.avoids_mark wanted⟩
  · refine ⟨h.isMember_indented.1, .inl ?_⟩
    obtain ⟨tail, htail⟩ := h.signature_indented
    rw [startsWith_eq_false_iff, htail]
    intro hp
    rcases prefix_or_prefix_of_prefix hp (prefix_append sig tail) with h' | h'
    · exact h₁ h'
    · exact h₂ h'

/-- Quotes and the like are not written. -/
theorem not_mem_placed (h : m.Shape sig marked i) {d : Char} (hd : d ∈ unwrittenChars) :
    ∀ l ∈ itemLines (i.placed marked), d ∉ l := by
  have hfixed : ∀ d ∈ unwrittenChars, d ∉ "@override".toList ∧ d ≠ ' ' :=
    forall_mem_of_all (by decide)
  obtain ⟨hmark, hblank⟩ := hfixed d hd
  rw [itemLines_placed]
  intro l hl
  rcases mem_cons.mp hl with rfl | hl
  · exact not_mem_nil
  · obtain ⟨l', hl', rfl⟩ := mem_map.mp hl
    refine not_mem_indentLine ?_ hblank
    rcases mem_append.mp hl' with hl' | hl'
    · cases marked with
      | false => exact absurd hl' not_mem_nil
      | true =>
        exact mem_singleton.mp hl' ▸ hmark
    · obtain ⟨k, hk⟩ := h.written.lines l' hl'
      exact hk.tame.not_mem hd

end Member.Shape

end DartData
