import Mathlib.Data.List.Nodup
import DartData.Proofs.Constructor.Tail
import DartData.Proofs.Constructor.Written
import DartData.Proofs.Scan.Span

/-!
# Parameters survive a rebuild

A class with a named constructor whose parameters all set fields gets a constructor with one
parameter for each field: the one that is there, with its modifier and its default, and a new one
for a field that has none (`scan_keeps_parameters`).  This takes three things: no name contains the
word `required`, unless the modifier is there; the list does not end with a square bracket; and a
constructor on several lines has one parameter a line.
-/

namespace DartData

open List Text

/-! ## §1. The parameters that are found. -/

theorem mem_unlines_of_length {ls : List Text} (h : 2 ≤ ls.length) : '\n' ∈ unlines ls := by
  match ls, h with
  | l :: m :: ls, _ =>
    rw [unlines, join_cons_cons]
    simp

namespace SourceClass

variable {c : SourceClass} {n : NamedConstructor} {ps : List Parameter}

/-- The parameters are read item by item, or line by line if the constructor has several lines. -/
theorem parameters_eq {ls : List Text} {s h e : Int} (hst : c.Stands ls s h e)
    (hcon : c.hasConstructor) {t : Text} (ht : c.constructorText = some t) :
    c.parameters = .ok ((parameterList t).splitTopLevel.filterMap Parameter.ofText?)
      ∨ ('\n' ∈ t ∧ c.parameters = .ok (readLines (parameterList t))) := by
  obtain ⟨a, b, ha, hb⟩ := exists_constructor_lines hcon
  unfold parameters
  rw [ha, hb, ht]
  dsimp only
  split
  next => exact .inl rfl
  next hab =>
    -- the constructor is the text of more lines than one
    refine .inr ⟨?_, rfl⟩
    obtain ⟨h₁, h₂, h₃, htext⟩ := hst.constructor_inside a b ha hb
    have hone := hst.one_le_first
    have hfirst := hst.first_le
    have hlast := hst.last_le
    have hlen : ((span ls a b).length : Int) = b - a + 1 := length_span (by omega) h₂ (by omega)
    rw [Option.some.inj (ht.symm.trans htext)]
    exact mem_unlines_of_length (by omega)

/-- The parameters are found as they are written, if those of a constructor on several lines stand
    on lines of their own. -/
theorem exists_readAs {ls : List Text} {s h e : Int} (hst : c.Stands ls s h e)
    (hcon : c.hasConstructor) (ht : c.constructorText = some n.print)
    (hclear : ∀ p ∈ n.list.items, p.IsClear) (hend : n.list.print.trim.endsWith "]" = false)
    (hlines : '\n' ∈ n.print → n.list.OneALine) :
    ∃ ps, c.parameters = .ok ps ∧ List.Forall₂ FieldParameter.ReadAs n.list.items ps := by
  rcases parameters_eq hst hcon ht with h | ⟨hfeed, h⟩ <;> rw [n.parameterList_print hend] at h
  · exact ⟨_, h, n.list.readAs_items hclear⟩
  · exact ⟨_, h, n.list.readAs_lines hclear (hlines hfeed)⟩

/-! ## §2. The parameters that are written. -/

end SourceClass

/-- The parameter for a field: the one of the list, or a new one if the list has none. -/
def NamedList.parameterFor (l : NamedList) (named defaultValues : Bool) (f : Field) : Text :=
  match l.items.find? (·.name == f.name) with
  | some p => p.core
  | none => SourceClass.newParameter f named defaultValues

/-- Names are distinct, so each parameter of the list is found by its name. -/
theorem NamedList.find?_name (l : NamedList) {p : FieldParameter} (hp : p ∈ l.items) {name : Text}
    (hname : p.name = name) : l.items.find? (·.name == name) = some p := by
  obtain ⟨q, hq⟩ := Option.isSome_iff_exists.mp
    (find?_isSome (p := (·.name == name)).mpr ⟨p, hp, by simpa using hname⟩)
  have hsame : q.name = name := by simpa using find?_some hq
  rw [hq, inj_on_of_nodup_map l.distinct (mem_of_find?_eq_some hq) hp
    (hsame.trans hname.symm)]

theorem FieldParameter.ReadAs.line_eq {p : FieldParameter} {q : Parameter} (h : p.ReadAs q) :
    ∃ b : Text, (b = [] ∨ b = p.after) ∧ q.line = p.core ++ (b ++ [',']) := by
  obtain ⟨b, hb, htext⟩ := h.text_eq
  refine ⟨b, hb, ?_⟩
  have happ : p.core ++ (b ++ [',', '\n']) = (p.core ++ (b ++ [','])) ++ ['\n'] := by simp
  rw [Parameter.line, htext, happ, dropLast_concat]

namespace SourceClass

variable {c : SourceClass} {l : NamedList} {ps : List Parameter}

/-- The parameters all set fields and begin with one of two words, so none of them is a key. -/
def SetsOnly (ps : List Parameter) : Prop :=
  ∀ q ∈ ps, q.setsField = true ∧ ∃ e r, q.text = e :: r ∧ (e = 't' ∨ e = 'r')

namespace SetsOnly

theorem startsWith_eq (h : SetsOnly ps) {q : Parameter} (hq : q ∈ ps) {e : Char} {r : Text}
    (ht : e ≠ 't') (hr : e ≠ 'r') : q.text.startsWith (e :: r) = false := by
  obtain ⟨-, d, s, htext, rfl | rfl⟩ := h q hq
  · exact startsWith_eq_false (c := 't') (by rw [htext]; rfl) rfl (Ne.symm ht)
  · exact startsWith_eq_false (c := 'r') (by rw [htext]; rfl) rfl (Ne.symm hr)

/-- The lines of the parameter list: the key of a widget, and one line for each field. -/
theorem listLines_eq (h : SetsOnly ps) (named defaultValues : Bool) :
    c.listLines ps named defaultValues = (if c.head.isWidget then ["  Key? key,".toList] else [])
        ++ c.fields.filterMap (fieldLine? ps named defaultValues) := by
  have hkey : hasKey ps = false := by
    rw [hasKey, any_eq_false]
    intro q hq
    have h₁ : q.text.startsWith "Key? key" = false := h.startsWith_eq hq (by decide) (by decide)
    have h₂ : q.text.startsWith "super.key" = false := h.startsWith_eq hq (by decide) (by decide)
    rw [h₁, h₂]
    decide
  have hnone : ps.filter (fun p => !p.setsField) = [] := by
    rw [filter_eq_nil_iff]
    intro q hq
    simp [(h q hq).1]
  rw [listLines, hkey, hnone, Bool.not_false, Bool.and_true]
  rfl

theorem constructorTail_eq (h : SetsOnly ps) : c.constructorTail ps = c.constructorTail [] := by
  have hsuper : ps.any (·.text.startsWith "super.") = false := by
    rw [any_eq_false]
    intro q hq
    have hq : q.text.startsWith "super." = false := h.startsWith_eq hq (by decide) (by decide)
    rw [hq]
    decide
  unfold constructorTail
  rw [hsuper]
  rfl

end SetsOnly

section

variable (h : List.Forall₂ FieldParameter.ReadAs l.items ps)
include h

theorem exists_of_mem_readAs {q : Parameter} (hq : q ∈ ps) : ∃ p ∈ l.items, p.ReadAs q := by
  obtain ⟨i, hi, rfl⟩ := mem_iff_getElem.mp hq
  have hi' : i < l.items.length := h.length_eq ▸ hi
  exact ⟨l.items[i], getElem_mem hi', (forall₂_iff_get.mp h).2 i hi' hi⟩

theorem setsOnly_of_readAs : SetsOnly ps := by
  intro q hq
  obtain ⟨p, -, hread⟩ := exists_of_mem_readAs h hq
  obtain ⟨b, -, htext⟩ := hread.text_eq
  obtain ⟨e, r, hr, he⟩ := p.core_head
  exact ⟨hread.setsField, e, r ++ (b ++ [',', '\n']), by rw [htext, hr]; rfl, he⟩

theorem exists_of_mem_items {p : FieldParameter} (hp : p ∈ l.items) : ∃ q ∈ ps, p.ReadAs q := by
  obtain ⟨i, hi, rfl⟩ := mem_iff_getElem.mp hp
  have hi' : i < ps.length := h.length_eq ▸ hi
  exact ⟨ps[i], getElem_mem hi', (forall₂_iff_get.mp h).2 i hi hi'⟩

/-- The line for a field is that of its parameter in the list, perhaps without the blanks in front
    of its comma. -/
theorem exists_fieldLine (named defaultValues : Bool) (f : Field) :
    ∃ b : Text, (b = [] ∨ ∃ p ∈ l.items, b = p.after) ∧ fieldLine? ps named defaultValues f
        = some ("  " ++ (l.parameterFor named defaultValues f ++ (b ++ [',']))) := by
  cases hfind : ps.reverse.find? (·.name == f.name) with
  | some q =>
    obtain ⟨p, hp, hread⟩ := exists_of_mem_readAs h
      (mem_reverse.mp (mem_of_find?_eq_some hfind))
    have hname : p.name = f.name := by
      rw [← hread.name_eq]
      simpa using find?_some hfind
    obtain ⟨b, hb, hline⟩ := hread.line_eq
    refine ⟨b, hb.imp_right fun hb => ⟨p, hp, hb⟩, ?_⟩
    rw [NamedList.parameterFor, l.find?_name hp hname, ← hline]
    simp [fieldLine?, hfind, hread.setsField]
  | none =>
    -- a parameter of the list was read, and would have been found
    have hitem : l.items.find? (·.name == f.name) = none := by
      rw [find?_eq_none]
      intro p hp hpf
      obtain ⟨q, hq, hread⟩ := exists_of_mem_items h hp
      refine find?_eq_none.mp hfind q (mem_reverse.mpr hq) ?_
      rw [hread.name_eq]
      exact hpf
    refine ⟨[], .inl rfl, ?_⟩
    rw [NamedList.parameterFor, hitem]
    simp only [fieldLine?, hfind]
    rfl

/-- The lines of the new list, one for each field. -/
theorem listLines_of_readAs (named defaultValues : Bool) :
    ∃ lines, c.listLines ps named defaultValues
        = (if c.head.isWidget then ["  Key? key,".toList] else []) ++ lines
      ∧ List.Forall₂ (fun f w => ∃ b : Text, b.allBlank
          ∧ w = "  ".toList ++ (l.parameterFor named defaultValues f ++ (b ++ [','])))
        c.fields lines := by
  refine ⟨_, (setsOnly_of_readAs h).listLines_eq named defaultValues, ?_⟩
  induction c.fields with
  | nil => exact .nil
  | cons f fs ih =>
    obtain ⟨b, hb, hw⟩ := exists_fieldLine h named defaultValues f
    have hblank : b.allBlank := by
      rcases hb with rfl | ⟨p, -, rfl⟩
      · rfl
      · exact p.after_blank
    rw [filterMap_cons_some hw]
    exact .cons ⟨b, hblank, rfl⟩ ih

theorem constructorTail_of_readAs : c.constructorTail ps = c.constructorTail [] :=
  (setsOnly_of_readAs h).constructorTail_eq

end

/-! ## §3. The constructor. -/

/-- **Each field gets exactly one parameter, and the parameters that are there survive** with their
    modifiers and defaults. -/
theorem scan_keeps_parameters {text : Text} {cs : List SourceClass} {n : NamedConstructor}
    (hcs : scan text = .ok cs) (hc : c ∈ cs) (hv : c.isValid = true)
    (hcon : c.hasConstructor = true)
    (ht : c.constructorText = some n.print) (hclear : ∀ p ∈ n.list.items, p.IsClear)
    (hend : n.list.print.trim.endsWith "]" = false) (hlines : '\n' ∈ n.print → n.list.OneALine)
    (defaultValues makeConst : Bool) :
    ∃ name d lines, c.head.name = some name ∧ c.delimiters = .ok d
      ∧ c.newConstructor defaultValues makeConst
        = .ok ((c.constWord makeConst ++ (name ++ d.opening))
        ++ '\n' :: (endLines ((if c.head.isWidget then ["  Key? key,".toList] else []) ++ lines)
          ++ (d.closing ++ c.constructorTail [])))
      ∧ List.Forall₂ (fun f w => ∃ b : Text, b.allBlank = true ∧ w = "  ".toList
          ++ (n.list.parameterFor (d == Delimiters.named) defaultValues f ++ (b ++ [','])))
        c.fields lines := by
  obtain ⟨name, -, d, ps, hname, -, hd, hps⟩ := exists_of_hasConstructor hv hcon
  obtain ⟨s, -, hrep⟩ := (scan_laid hcs).2 c hc
  obtain ⟨e, he⟩ : ∃ e, c.last = some e := by
    simp only [isValid, Bool.and_eq_true] at hv
    exact Option.isSome_iff_exists.mp hv.1.1.2
  obtain ⟨h, -, hst⟩ := hrep.stands e he
  obtain ⟨ps', hps', hread⟩ := exists_readAs hst hcon ht hclear hend hlines
  obtain rfl : ps = ps' := Except.ok.inj (hps.symm.trans hps')
  obtain ⟨lines, hlist, hforall⟩ := listLines_of_readAs (c := c) hread (d == Delimiters.named)
    defaultValues
  refine ⟨name, d, lines, hname, hd, ?_, hforall⟩
  rw [newConstructor_eq hname hd hps, hlist, constructorTail_of_readAs hread]

/-- A default, a modifier and a field without a parameter. -/
theorem scan_keeps_default_and_modifier :
    ∃ (cs : List SourceClass) (c : SourceClass) (front rest : Text) (lines : List Text),
      scan
        "class A \x7b\n  int x;\n  int y;\n  int z;\n  A(\x7b\n    this.x = f(1, 2) ,
    required  this.y,\n  \x7d);\n\x7d"
          = .ok cs ∧ c ∈ cs
        ∧ c.newConstructor false false = .ok (front ++ '\n' :: (endLines lines ++ rest))
        ∧ lines.map squeeze
          = ["this.x=f(1,2),".toList, "requiredthis.y,".toList, "requiredthis.z,".toList] := by
  let x : FieldParameter := {
    before := "\n    ", modifier := none, name := "x", value := some (" ", " f(1, 2)"), after := " "
    before_blank := by decide
    modifier_blank := nofun
    name_identifier := by decide
    value_blank := by rintro b d ⟨⟩; decide
    value_nested := by rintro b d ⟨⟩; decide
    value_end := by rintro b d ⟨⟩; decide
    after_blank := by decide }
  let y : FieldParameter := {
    before := "\n    ", modifier := some "  ", name := "y", value := none, after := []
    before_blank := by decide
    modifier_blank := by rintro b ⟨⟩; decide
    name_identifier := by decide
    value_blank := nofun
    value_nested := nofun
    value_end := nofun
    after_blank := by decide }
  let n : NamedConstructor := {
    lead := "  A", opening := [], closing := [], tail := ";"
    list := {
      items := [x, y], comma := true, close := "\n  "
      items_ne_nil := by simp
      distinct := by decide
      close_blank := by decide }
    lead_flat := by decide
    opening_blank := by decide
    closing_blank := by decide }
  obtain ⟨cs, c, hcs, hc, hv, hcon, ht, hw, hd, hfields⟩ := exists_scanned
    (t := "class A \x7b\n  int x;\n  int y;\n  int z;\n  A(\x7b\n    this.x = f(1, 2) ,
    required  this.y,\n  \x7d);\n\x7d")
    (P := fun c => c.isValid = true ∧ c.hasConstructor = true ∧ c.constructorText = some n.print
      ∧ c.head.isWidget = false ∧ c.delimiters.toOption = some .named
      ∧ c.fields = [⟨"int", "x", 2, false, false, false, false⟩,
        ⟨"int", "y", 3, false, false, false, false⟩, ⟨"int", "z", 4, false, false, false, false⟩])
          (by decide +kernel)
  obtain ⟨name, d, lines, -, hdel, hout, hlines⟩ := scan_keeps_parameters hcs hc hv hcon ht
    (by decide) (by decide) (fun _ => by decide) false false
  rw [hdel] at hd
  obtain rfl : d = .named := Option.some.inj hd
  rw [hw] at hout
  refine ⟨cs, c, _, _, lines, hcs, hc, hout, ?_⟩
  -- the blanks in front of a comma do not count
  rw [hfields] at hlines
  obtain ⟨u, us, ⟨a, ha, rfl⟩, hus, rfl⟩ := forall₂_cons_left_iff.mp hlines
  obtain ⟨v, vs, ⟨b, hb, rfl⟩, hvs, rfl⟩ := forall₂_cons_left_iff.mp hus
  obtain ⟨w, ws, ⟨e, he, rfl⟩, hws, rfl⟩ := forall₂_cons_left_iff.mp hvs
  obtain rfl := forall₂_nil_left_iff.mp hws
  simp only [map_cons, map_nil, squeeze_append, squeeze_of_allBlank ha,
    squeeze_of_allBlank hb, squeeze_of_allBlank he]
  decide

/-- A default that ends with a square bracket loses it; a field whose name contains the word
    `required` loses its default; and of two parameters on one of several lines the second one is
    written twice. -/
theorem scan_mangles_parameters :
    (scan "class A \x7b\n  List<int> x;\n  A(\x7bthis.x = const []\x7d);\n\x7d").toOption.map
          (·.map fun c => (c.newConstructor false false).toOption)
        = some [some "A(\x7b\n  this.x = const [,\n\x7d);".toList]
      ∧ (scan
        "class A \x7b\n  int requiredAge;\n  A(\x7bthis.requiredAge = 3\x7d);\n\x7d").toOption.map
          (·.map fun c => (c.newConstructor false false).toOption)
        = some [some "A(\x7b\n  required this.requiredAge,\n\x7d);".toList]
      ∧ (scan
        "class A \x7b\n  int x;\n  int y;\n  A(\x7b\n    this.x = 1, this.y = 2,
  \x7d);\n\x7d").toOption.map
          (·.map fun c => (c.newConstructor false false).toOption)
        = some [some "A(\x7b\n  this.x = 1, this.y = 2,\n  required this.y,\n\x7d);".toList] :=
  ⟨by decide +kernel, by decide +kernel, by decide +kernel⟩

end SourceClass

end DartData
