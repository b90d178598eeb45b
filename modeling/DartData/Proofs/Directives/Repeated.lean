import DartData.Proofs.Directives.Rewrite

/-!
# Directives before the first class

Up to quotes and the blanks around them, the directives that stand before the first class of a file
come through generation, and to them come those that are added.  What is added is compared with the
block of directives only.  So a directive comes to stand there twice exactly if one is added that
the file has below the block, say after a comment.

Main statement: **`generate_distinct_directives`**.
-/

namespace DartData

open List Text

/-! ## §1. The lines before the first class. -/

/-- The lines before the first class line. -/
def headLines (ls : List Text) : List Text := ls.takeWhile fun l => !isClassLine l

/-- The directives among lines, in the form in which they are compared. -/
def forms (ls : List Text) : List Text := (ls.filter fun l => isDirective l.trim).map directiveForm

/-- The directives before the first class line. -/
def headForms (ls : List Text) : List Text := forms (headLines ls)

theorem forms_append (as bs : List Text) : forms (as ++ bs) = forms as ++ forms bs := by
  rw [forms, filter_append, map_append]
  rfl

variable {as ls : List Text}

theorem forms_eq_nil (h : ∀ l ∈ ls, isDirective l.trim = false) : forms ls = [] := by
  rw [forms, filter_eq_nil_iff.mpr fun l hl => by simp [h l hl]]
  rfl

theorem headLines_append (h : ∀ l ∈ as, isClassLine l = false) (bs : List Text) :
    headLines (as ++ bs) = as ++ headLines bs :=
  takeWhile_append_of_pos fun l hl => by simp [h l hl]

theorem headLines_of_class {l : Text} (h : isClassLine l) (ls : List Text) :
    headLines (l :: ls) = [] := by
  simp [headLines, h]

/-- Below a class nothing is at the head. -/
theorem headLines_append_of_class (h : ∃ l ∈ as, isClassLine l) (bs : List Text) :
    headLines (as ++ bs) = headLines as := by
  obtain ⟨l, hl, hc⟩ := h
  induction as with
  | nil => simp at hl
  | cons a as ih =>
    cases ha : isClassLine a with
    | true => simp [headLines, ha]
    | false =>
      have hl : l ∈ as := by
        rcases mem_cons.mp hl with rfl | hl
        · simp [hc] at ha
        · exact hl
      have hrest := ih hl
      simp only [headLines] at hrest ⊢
      simp [ha, hrest]

theorem headLines_append_sublist (as bs : List Text) :
    (headLines (as ++ bs)).Sublist (as ++ headLines bs) := by
  by_cases h : ∃ l ∈ as, isClassLine l
  · rw [headLines_append_of_class h]
    exact (takeWhile_sublist _).trans (sublist_append_left as _)
  · rw [headLines_append fun l hl => Bool.eq_false_iff.mpr fun hc => h ⟨l, hl, hc⟩]

/-- Putting lines together and taking them apart again does not change what stands at the head. -/
theorem headForms_lines_unlines (h : ∀ l ∈ ls, '\n' ∉ l) :
    headForms (unlines ls).lines = headForms ls := by
  by_cases hne : ls = []
  · rw [hne]
    rfl
  · rw [lines_unlines hne h]

/-- The blanks around a directive do not count. -/
theorem directiveForm_trim (l : Text) : directiveForm l.trim = directiveForm l := by
  have hblank : isBlank ∘ (fun c => if c = '\x22' then '\x27' else c) = isBlank := by
    funext c
    by_cases hc : c = '\x22'
    · subst hc
      decide
    · simp [hc]
  have hmap : ∀ t : Text, trim (t.map fun c => if c = '\x22' then '\x27' else c)
      = t.trim.map fun c => if c = '\x22' then '\x27' else c := by
    intro t
    simp only [trim, trimStart, trimEnd, dropWhile_map, ← map_reverse, hblank]
  rw [directiveForm, directiveForm, hmap, hmap, trim_trim]

theorem forms_blockDirectives (block : List Text) :
    forms (Directives.blockDirectives block) = forms block := by
  have hall : (Directives.blockDirectives block).filter (fun l => isDirective l.trim)
      = Directives.blockDirectives block := by
    refine filter_eq_self.mpr fun l hl => ?_
    obtain ⟨k, hk, rfl⟩ := mem_map.mp hl
    rw [trim_trim]
    exact (mem_filter.mp hk).2
  rw [forms, hall, Directives.blockDirectives, map_map, forms]
  exact map_congr_left fun l _ => directiveForm_trim l

theorem forms_filter_isFilled (ls : List Text) : forms (ls.filter isFilled) = forms ls := by
  rw [forms, filter_filter, forms]
  congr 1
  refine filter_congr fun l _ => ?_
  cases hd : isDirective l.trim with
  | true => rw [isFilled_of_isDirective hd]; rfl
  | false => rfl

/-! ## §2. Where the edit of a class begins. -/

/-- The lines of an edit begin with a class line, below the annotation of the template if that is
    written. -/
def OpensOnClass (ls : List Text) : Prop :=
  ∃ l rest, isClassLine l = true
    ∧ (ls = l :: rest ∨ ls = (templateMark ++ "()") :: l :: rest)

/-- Nothing is added to the directives there. -/
theorem OpensOnClass.headForms_append (h : OpensOnClass ls) (after : List Text) :
    headForms (ls ++ after) = [] := by
  obtain ⟨l, rest, hl, rfl | rfl⟩ := h
  · rw [headForms, cons_append, headLines_of_class hl]
    rfl
  · have hmark : ∀ m ∈ [templateMark ++ "()"],
        isClassLine m = false ∧ isDirective m.trim = false := by decide
    have hstop : headLines (l :: (rest ++ after)) = [] := headLines_of_class hl _
    rw [headForms, ← singleton_append (l := l :: rest), append_assoc,
      headLines_append fun m hm => (hmark m hm).1]
    exact forms_eq_nil fun m hm => (hmark m (by simpa [hstop] using hm)).2

theorem lines_append_of_not_mem {p : Text} (hp : '\n' ∉ p) (t : Text) :
    ∃ l ls, (p ++ t).lines = (p ++ l) :: ls := by
  induction p with
  | nil => exact exists_cons_of_ne_nil (lines_ne_nil t)
  | cons c p ih =>
    obtain ⟨l, ls, hl⟩ := ih fun h => hp (mem_cons_of_mem c h)
    have hne : c ≠ '\n' := by
      rintro rfl
      exact hp mem_cons_self
    exact ⟨l, ls, split_cons_of_ne hne hl⟩

/-- A declaration is printed on a class line. -/
theorem Declaration.lines_print (d : Declaration) (isAbstract : Bool) (t : Text) :
    ∃ l ls, (d.print isAbstract ++ t).lines = l :: ls ∧ isClassLine l := by
  unfold print
  simp only [append_assoc]
  cases isAbstract with
  | true =>
    obtain ⟨l, ls, hl⟩ := lines_append_of_not_mem (p := "abstract class ") (by decide) _
    exact ⟨_, ls, hl, rfl⟩
  | false =>
    obtain ⟨l, ls, hl⟩ := lines_append_of_not_mem (p := "class ") (by decide) _
    exact ⟨_, ls, hl, rfl⟩

namespace SourceClass

/-- The declaration is put in front of all other lines. -/
theorem assembleLines_declaration {c : SourceClass} {ls : List Text} {s e : Int}
    (hs : 0 ≤ c.headOffset s) :
    ∀ (k : Nat) {after t : Text}, c.assembleLines ls s e (k + 1) after = .ok t →
      ∃ u, t = c.declarationLine ++ u ∧ u ≠ [] := by
  intro k
  induction k with
  | zero =>
    intro after t h
    obtain ⟨t', ht', h⟩ := bind_eq_ok.mp h
    obtain rfl : t' = t := Except.ok.inj h
    unfold assembleLine at ht'
    split at ht'
    · simp at ht'
    · rw [if_pos (by simpa using hs), if_pos rfl] at ht'
      split at ht'
      · simp at ht'
      · next headLine _ =>
        refine ⟨(if headLine.has "\x7b" then " \x7b".toList else []) ++ '\n' :: after, ?_, by simp⟩
        rw [← Except.ok.inj ht']
        simp [of]
  | succ k ih =>
    intro after t h
    obtain ⟨t', -, h⟩ := bind_eq_ok.mp h
    exact ih h

/-- The text of an assembled class begins with the declaration. -/
theorem Stands.assemble_declaration {c c₀ : SourceClass} {ls : List Text} {s h e : Int}
    (hst : c₀.Stands ls s h e) (hk : c.Keeps c₀) (hs : c₀.first = some s)
    (hh : c₀.headLast = some h) (he : c₀.last = some e) {t : Text} (ht : c.assemble = .ok t) :
    ∃ u, t = c.declarationLine ++ u := by
  have hone := hst.one_le_first
  have hfirst := hst.first_le
  have hlast := hst.headLast_le
  obtain ⟨k, hcount⟩ : ∃ k, (e - s + 1).toNat = k + 1 := ⟨(e - s).toNat, by omega⟩
  rw [assemble, hk.first_eq, hs, hk.last_eq, he] at ht
  dsimp only at ht
  rw [hcount] at ht
  obtain ⟨t', ht', ht⟩ := bind_eq_ok.mp ht
  have hoffset : 0 ≤ c.headOffset s := by
    rw [headOffset_eq (hk.headLast_eq.trans hh) (by omega)]
    omega
  obtain ⟨u, rfl, hu⟩ := assembleLines_declaration hoffset k ht'
  have hpos : 0 < u.length := length_pos_iff.mpr hu
  cases ht
  -- a line feed that is taken off the end is not one of the declaration
  have hprefix : c.declarationLine <+: (c.declarationLine ++ u).removeEnd "\n" := by
    unfold removeEnd
    split
    · refine prefix_take_iff.mpr ⟨prefix_append _ _, ?_⟩
      have hfeed : "\n".toList.length = 1 := rfl
      rw [length_append, hfeed]
      omega
    · exact prefix_append _ _
  obtain ⟨v, hv⟩ := hprefix
  exact ⟨v, hv.symm⟩

/-- A class written from the template begins with its declaration, or with the annotation. -/
theorem fromTemplate_begins (c : SourceClass) (annotate : Bool) :
    OpensOnClass (c.fromTemplate annotate).lines := by
  obtain ⟨rest, hrest⟩ : ∃ rest, c.fromTemplate annotate
      = unlines ((if annotate then [templateMark ++ "()"] else [])
        ++ (c.declarationLine ++ " \x7b") :: rest) :=
    ⟨_, by unfold fromTemplate; simp only [append_assoc, singleton_append]; rfl⟩
  obtain ⟨l, ls, hl, hc⟩ := c.head.lines_print c.isAbstract " \x7b"
  rw [hrest, lines_unlines_flatMap (by simp), flatMap_append, flatMap_cons,
    declarationLine, hl]
  cases annotate with
  | true => exact ⟨l, ls ++ rest.flatMap lines, hc, .inr rfl⟩
  | false => exact ⟨l, ls ++ rest.flatMap lines, hc, .inl rfl⟩

end SourceClass

variable {r : Request} {text : Text} {e : ClassEdit} {g : Generation}

/-- **The edit of a class begins with its declaration, or with the annotation above it.** -/
theorem Request.work_begins {c c' : SourceClass} {s : Nat} (hc : c.Reported text.lines s)
    (hv : c.isValid) (hk : c'.Keeps c) (hw : (r.work text).Yields c (some e) c') :
    OpensOnClass e.text.lines := by
  obtain ⟨d, d', hrun⟩ := hw
  unfold work at hrun
  split at hrun
  · obtain ⟨rfl, -, b, -, he⟩ := Work.reviseByTemplate_eq_ok hrun
    split at he
    · simp at he
    · rw [Option.some.inj he]
      exact c'.fromTemplate_begins (!b)
  · obtain ⟨t, ht, rfl⟩ := (Work.revise_eq_ok hrun).2 e rfl
    obtain ⟨b, hb⟩ := SourceClass.exists_last hv
    obtain ⟨hl, hh, hst⟩ := hc.stands b hb
    obtain ⟨u, rfl⟩ := hst.assemble_declaration hk hc.first_eq hh hb ht
    obtain ⟨l, ls, hlines, hclass⟩ := c'.head.lines_print c'.isAbstract u
    exact ⟨l, ls, hclass, .inl hlines⟩

theorem generate_edit_begins (h : generate text r = .ok g) (he : e ∈ g.edits.classes) :
    OpensOnClass e.text.lines := by
  obtain ⟨cs, hs, hrev⟩ := generate_yields h
  obtain ⟨c, hc, c', -, hv, hyields, hk⟩ := hrev.mem_edits he
  obtain ⟨s, -, hrep⟩ := (scan_laid hs).2 c hc
  exact Request.work_begins hrep hv hk hyields

/-! ## §3. What edits do to the head. -/

/-- The edit stands on a class line of the lines `ls` after the line number `k`. -/
def Edit.OnClass (e : Edit) (k : Nat) (ls : List Text) : Prop :=
  (∃ l, ls[(e.first - 1).toNat - k]? = some l ∧ isClassLine l = true) ∧ OpensOnClass e.lines

/-- Edits of classes keep the directives before the first class. -/
theorem Edit.headForms_replaceFrom {k : Nat} {ls : List Text} {es : List Edit}
    (h : ∀ e ∈ es, e.OnClass k ls) : headForms (replaceFrom k ls es) = headForms ls := by
  cases es with
  | nil => rfl
  | cons e es =>
    obtain ⟨⟨l, hl, hclass⟩, hbegins⟩ := h e mem_cons_self
    have hcut : ls = ls.take ((e.first - 1).toNat - k)
        ++ l :: ls.drop ((e.first - 1).toNat - k + 1) := by
      obtain ⟨hlt, rfl⟩ := List.getElem?_eq_some_iff.mp hl
      rw [← drop_eq_getElem_cons hlt, take_append_drop]
    rw [replaceFrom, append_assoc]
    generalize replaceFrom e.last.toNat _ es = after
    generalize ls.take ((e.first - 1).toNat - k) = above at hcut ⊢
    rw [hcut]
    by_cases habove : ∃ l ∈ above, isClassLine l
    · -- the first class stands above the edit
      rw [headForms, headLines_append_of_class habove, headForms, headLines_append_of_class habove]
    · have hno : ∀ l ∈ above, isClassLine l = false := fun l hl =>
        Bool.eq_false_iff.mpr fun hc => habove ⟨l, hl, hc⟩
      rw [headForms, headLines_append hno, headForms, headLines_append hno,
        headLines_of_class hclass,
        forms_append, forms_append]
      congr 1
      exact hbegins.headForms_append after

/-! ## §4. The directives of a result. -/

/-- The edits of the classes stand on class lines, seen from a line above all of them. -/
theorem generate_onClass (h : generate text r = .ok g) (front back : List Text)
    (hcut : text.lines = front ++ back)
    (hbelow : ∀ e ∈ g.edits.classes.map ClassEdit.placed, (front.length : Int) < e.first) :
    ∀ e ∈ g.edits.classes.map ClassEdit.placed, e.OnClass front.length back := by
  intro e he
  have hlt := hbelow e he
  obtain ⟨f, hf, rfl⟩ := mem_map.mp he
  obtain ⟨-, -, -, -, a, b, ⟨ha, -⟩, -, -, l, hl, hclass⟩ := generate_edit_of_class h hf
  have hfirst : f.placed.first = a := by simp [ClassEdit.placed, ha]
  rw [hfirst] at hlt
  refine ⟨⟨l, ?_, hclass⟩, generate_edit_begins h hf⟩
  rw [hfirst, ← hl, hcut, getElem?_append_right (by omega)]

namespace Directives.Splices

variable {text : Text} {is : List RequiredImport} {d : Directives} {package : Option Text}
  {e : DirectiveEdit} {above block below new : List Text}

/-- Before the first class of the text stand the directives of the block, and others below it. -/
theorem headForms_text (h : Splices text d package e above block below new) :
    headForms text.lines = forms block ++ headForms below := by
  have hno : ∀ l ∈ above ++ block, isClassLine l = false := fun l hl =>
    isClassLine_of_isHeadward (h.headward l hl)
  rw [headForms, h.lines_eq, ← append_assoc, headLines_append hno, forms_append, forms_append,
    forms_eq_nil h.no_directive, nil_append]
  rfl

/-- The directives that are written are those of the block and what is added. -/
theorem perm_forms_new
    (h : Splices text ((read text).requireAll is) package e above block below new)
    (hne : ((read text).requireAll is).values ≠ []) :
    (forms new).Perm (forms block ++ forms (((read text).added is).flatMap lines)) := by
  have hperm := ((h.perm_new hne).filter fun l => isDirective l.trim).map directiveForm
  change (forms _).Perm (forms _) at hperm
  rwa [forms_append, forms_filter_isFilled, forms_filter_isFilled, forms_blockDirectives] at hperm

end Directives.Splices

/-- The directives before the first class are those of the text and what is added.  They are fewer
    if a class line is among the lines of what is added. -/
theorem generate_headForms {out : Text} (h : generate text r = .ok g)
    (hout : g.edits.apply text = .ok out) :
    ∃ fs, (headForms out.lines).Sublist fs ∧ (r.HasLineName → headForms out.lines = fs)
      ∧ fs.Perm (headForms text.lines
        ++ forms (((Directives.read text).added (r.needsIn text)).flatMap lines)) := by
  have hdisjoint := generate_disjoint h
  obtain rfl : unlines (Edit.replaceFrom 0 text.lines g.edits.topDown) = out :=
    Except.ok.inj ((Edits.apply_eq hdisjoint).symm.trans hout)
  rw [headForms_lines_unlines fun l hl => Edits.not_mem_of_mem_replaceFrom hl]
  have hdirectives := generate_directives h
  cases he : g.edits.directives with
  | none =>
    have htop : g.edits.topDown = g.edits.classes.map ClassEdit.placed := by
      rw [Edits.topDown, he]
      rfl
    have hon := generate_onClass h [] text.lines rfl fun f hf => by
      have := (hdisjoint.inside f (htop ▸ hf)).1
      simp only [length_nil]
      omega
    rw [htop, ← length_nil (α := Text), Edit.headForms_replaceFrom hon]
    refine ⟨_, List.Sublist.refl _, fun _ => rfl, ?_⟩
    rw [added_eq_nil (hdirectives.symm.trans he)]
    simp [forms]
  | some e =>
    have htop : g.edits.topDown = e.toEdit :: g.edits.classes.map ClassEdit.placed := by
      rw [Edits.topDown, he]
      rfl
    rw [hdirectives] at he
    obtain ⟨above, block, below, new, hs⟩ :=
      Directives.edit?_splices (Directives.keeps_requireAll _ _) he
    have hne := Directives.values_ne_nil he
    -- the edits of the classes keep what stands below the block
    have hon := generate_onClass h (above ++ block) below
      (by rw [hs.lines_eq, append_assoc]) fun f hf => by
        have habove := hdisjoint.above
        rw [htop] at habove
        have hlt : e.toEdit.last < f.first := (pairwise_cons.mp habove).1 f hf
        rw [hs.edit_eq] at hlt
        simpa using hlt
    have hkept := Edit.headForms_replaceFrom hon
    rw [length_append] at hkept
    have hforms : forms (above ++ new ++ headLines (Edit.replaceFrom
        (above.length + block.length) below (g.edits.classes.map ClassEdit.placed)))
        = forms new ++ headForms below := by
      rw [forms_append, forms_append, forms_eq_nil hs.no_directive, nil_append, ← hkept]
      rfl
    rw [htop, hs.replaceFrom_eq]
    refine ⟨forms new ++ headForms below, ?_, fun hname => ?_, ?_⟩
    · rw [← hforms]
      exact ((headLines_append_sublist _ _).filter _).map _
    · rw [← hforms, headForms, headLines_append fun l hl =>
        isClassLine_of_isHeadward (hs.headward_new hne hname l hl)]
    · rw [hs.headForms_text]
      refine ((hs.perm_forms_new hne).append_right _).trans ?_
      rw [append_assoc, append_assoc]
      exact perm_append_comm.append_left _

/-- **When the directives before the first class stay distinct.**  They do if no directive that is
    added stands there already; and if the name of the file is a line, only then. -/
theorem generate_distinct_directives {text out : Text} {r : Request} {g : Generation}
    (h : generate text r = .ok g) (hout : g.edits.apply text = .ok out)
    (hdistinct : (headForms text.lines).Nodup) :
    ((headForms text.lines
          ++ forms (((Directives.read text).added (r.needsIn text)).flatMap lines)).Nodup →
        (headForms out.lines).Nodup)
      ∧ (r.HasLineName → ((headForms out.lines).Nodup ↔
        ∀ v ∈ (Directives.read text).added (r.needsIn text),
          directiveForm v ∉ headForms text.lines)) := by
  obtain ⟨fs, hsub, heq, hperm⟩ := generate_headForms h hout
  refine ⟨fun hnodup => (hperm.nodup_iff.mpr hnodup).sublist hsub, fun hname => ?_⟩
  have hforms : forms (((Directives.read text).added (r.needsIn text)).flatMap lines)
      = ((Directives.read text).added (r.needsIn text)).map directiveForm := by
    rw [lines_added hname, forms, filter_eq_self.mpr fun v hv => isDirective_added hv]
  rw [heq hname, hperm.nodup_iff, hforms, nodup_append]
  constructor
  · rintro ⟨-, -, hapart⟩ v hv hmem
    exact hapart _ hmem _ (mem_map_of_mem hv) rfl
  · intro hapart
    refine ⟨hdistinct, ((Directives.read text).adds _).nodup, ?_⟩
    intro f hf k hk hfk
    obtain ⟨v, hv, rfl⟩ := mem_map.mp hk
    exact hapart v hv (hfk ▸ hf)

/-- An import that is added below others stands there once. -/
theorem generate_distinct_imports :
    ∃ (text : Text) (r : Request) (g : Generation) (out : Text), generate text r = .ok g
      ∧ g.edits.apply text = .ok out ∧ (headForms text.lines).Nodup ∧ r.HasLineName
      ∧ (Directives.read text).added (r.needsIn text) = ["import 'dart:convert';".toList]
      ∧ (headForms out.lines).Nodup := by
  let text : Text :=
    "import 'a.dart';\n// c\nimport \x22b.dart\x22;\nclass A \x7b\n  int x;\n\x7d"
  let r : Request := { category := some .serialization }
  have hname : r.HasLineName := fun hcat => absurd hcat (by decide)
  obtain ⟨hdistinct, hadded, hgenerate, hnew⟩ : (headForms text.lines).Nodup
      ∧ (Directives.read text).added (r.needsIn text) = ["import 'dart:convert';"]
      ∧ (generate text r).toOption.isSome = true
      ∧ directiveForm "import 'dart:convert';" ∉ headForms text.lines := by decide +kernel
  obtain ⟨g, hg⟩ := Option.isSome_iff_exists.mp hgenerate
  rw [toOption_eq_some] at hg
  have hout := Edits.apply_eq (generate_disjoint hg)
  refine ⟨text, r, g, _, hg, hout, hdistinct, hname, hadded, ?_⟩
  refine ((generate_distinct_directives hg hout hdistinct).2 hname).mpr fun v hv => ?_
  rw [hadded] at hv
  rwa [mem_singleton.mp hv]

/-- An import that stands below a comment is added above it once more. -/
theorem generate_repeats_import :
    ∃ (text : Text) (r : Request) (g : Generation) (out : Text), generate text r = .ok g
      ∧ g.edits.apply text = .ok out ∧ (headForms text.lines).Nodup
      ∧ ¬ (headForms out.lines).Nodup := by
  let text : Text :=
    "import 'a.dart';\n// c\nimport 'dart:convert';\nclass A \x7b\n  int x;\n\x7d"
  let r : Request :=
    { category := some .serialization
      options := fun s => Options.default s
        && !([.enabled .toMap, .enabled .fromMap, .enabled .fromJson] : List Setting).contains s }
  obtain ⟨hdistinct, h⟩ : (headForms text.lines).Nodup
      ∧ ((generate text r).toOption.bind fun g => (g.edits.apply text).toOption.map fun out =>
        decide (¬ (headForms out.lines).Nodup)) = some true := by decide +kernel
  simp only [Option.bind_eq_some_iff, Option.map_eq_some_iff, toOption_eq_some,
    decide_eq_true_eq] at h
  obtain ⟨g, hg, out, hout, hrepeated⟩ := h
  exact ⟨text, r, g, out, hg, hout, hdistinct, hrepeated⟩

end DartData
