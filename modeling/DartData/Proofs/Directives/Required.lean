import DartData.Proofs.Directives.Format
import DartData.Proofs.Generation.Work

/-!
# The directives that members require

The members that are written need a few libraries.  In a file that has none of them, each that is
required is imported once, and the imports are put at the top of the file in order.  Read back from
there they are all that is required, and they are in order already.
-/

namespace DartData

open List Text

/-! ## §1. Libraries. -/

/-- The imports that can be required. -/
def knownImports : List RequiredImport :=
  [⟨dartConvert, []⟩, ⟨dartUi, Member.flutterUiLibraries⟩, ⟨flutterFoundation, []⟩,
    ⟨collectionLibrary, []⟩, ⟨equatableLibrary, []⟩]

/-- Members ask for known imports only. -/
theorem MemberKind.imports_mem (k : MemberKind) (r : Request) (c : SourceClass) :
    ∀ i ∈ (k.build r c).imports, i ∈ knownImports := by
  have hconvert : ∀ i ∈ [(⟨dartConvert, []⟩ : RequiredImport)], i ∈ knownImports := by decide
  have hnone : ∀ i ∈ ([] : List RequiredImport), i ∈ knownImports := by decide
  cases k with
  | toJson | fromJson => exact hconvert
  | hashCode =>
    show ∀ i ∈
      (if r.options .jenkinsHash then [(⟨dartUi, Member.flutterUiLibraries⟩ : RequiredImport)]
      else []), i ∈ knownImports
    split
    · decide
    · exact hnone
  | equality =>
    show ∀ i ∈ (if (c.fields.filter Field.isCollection).isEmpty then ([] : List RequiredImport)
      else [⟨if r.flutter then flutterFoundation else collectionLibrary, []⟩]), i ∈ knownImports
    split
    · exact hnone
    · cases r.flutter <;> decide
  | _ => exact hnone

namespace Directives

/-- The directive that a required import becomes. -/
def wanted (i : RequiredImport) : Text := directiveFor i.uri

/-- What is known of the directives that can be required. -/
theorem wanted_known : ∀ i ∈ knownImports, isDirective (wanted i)
    ∧ (wanted i).trim = wanted i ∧ (wanted i).squeeze ≠ [] ∧ '\n' ∉ wanted i
    ∧ directiveForm (wanted i) = wanted i := by decide +kernel

/-- None of the alternatives of a known import is a known import itself, or stands in one. -/
theorem alternatives_known : ∀ i ∈ knownImports, ∀ a ∈ i.alternatives,
    ('\n' ∉ importOf a ∧ '/' ∈ importOf a) ∧ ∀ j ∈ knownImports,
      (directiveForm (wanted j) == directiveForm (importOf a)) = false
        ∧ (wanted j).has (importOf a) = false := by decide +kernel

/-! ## §2. Requiring them. -/

/-- All directives are required ones, each is there once, and none of their alternatives stands
    anywhere in the text. -/
structure Fresh (d : Directives) : Prop where
  known : ∀ v ∈ d.values, ∃ i ∈ knownImports, v = wanted i
  nodup : d.values.Nodup
  no_library : ∀ i ∈ knownImports, ∀ a ∈ i.alternatives, d.source.has (importOf a) = false

/-- Lines without a slash, and lines that import known libraries, have none of the alternatives. -/
theorem no_library_of_lines {ls : List Text}
    (h : ∀ l ∈ ls, '/' ∉ l ∨ ∃ i ∈ knownImports, l = wanted i) :
    ∀ i ∈ knownImports, ∀ a ∈ i.alternatives, (unlines ls).has (importOf a) = false := by
  intro i hi a ha
  obtain ⟨⟨hfeed, hslash⟩, hothers⟩ := alternatives_known i hi a ha
  refine has_unlines_eq_false (ne_nil_of_mem hslash) hfeed fun l hl => ?_
  rcases h l hl with hno | ⟨j, hj, rfl⟩
  · exact has_eq_false_of_not_mem hslash hno
  · exact (hothers j hj).2

variable {d : Directives} {l line text v : Text} {i : RequiredImport} {is : List RequiredImport}
  {above more vs ws : List Text}

theorem includes_of_mem (h : v ∈ d.values) : d.includes v :=
  any_eq_true.mpr ⟨v, h, beq_self_eq_true _⟩

theorem Fresh.includes_iff (h : d.Fresh) (hi : i ∈ knownImports) :
    d.includes (wanted i) ↔ wanted i ∈ d.values := by
  refine ⟨fun hinc => ?_, includes_of_mem⟩
  obtain ⟨v, hv, heq⟩ := any_eq_true.mp hinc
  obtain ⟨j, hj, rfl⟩ := h.known v hv
  rw [(wanted_known j hj).2.2.2.2, (wanted_known i hi).2.2.2.2, beq_iff_eq] at heq
  rwa [heq] at hv

/-- In a fresh file no alternative is imported. -/
theorem Fresh.importsOneOf (h : d.Fresh) (hi : i ∈ knownImports) :
    d.importsOneOf i.alternatives = false := by
  rw [Directives.importsOneOf, any_eq_false]
  intro a ha
  have hvalues : d.includes (importOf a) = false := by
    rw [includes, any_eq_false]
    intro v hv
    obtain ⟨j, hj, rfl⟩ := h.known v hv
    rw [((alternatives_known i hi a ha).2 j hj).1]
    exact Bool.false_ne_true
  rw [h.no_library i hi a ha, hvalues]
  exact Bool.false_ne_true

/-- A directive that is there is not added again. -/
theorem require_of_includes (h : d.includes (wanted i)) : d.require i.uri i.alternatives = d := by
  have h : d.includes (directiveFor i.uri) := h
  rw [require, h]
  rfl

theorem Fresh.require_eq (h : d.Fresh) (hi : i ∈ knownImports)
    (hn : d.includes (wanted i) = false) :
    d.require i.uri i.alternatives = { d with values := d.values ++ [wanted i] } := by
  have hn : d.includes (directiveFor i.uri) = false := hn
  rw [require, hn, h.importsOneOf hi]
  rfl

/-- Requiring an import adds at most the import. -/
theorem Fresh.require_cases (h : d.Fresh) (hi : i ∈ knownImports) :
    (d.require i.uri i.alternatives).Fresh
      ∧ ∃ ws, (d.require i.uri i.alternatives).values = d.values ++ ws
        ∧ ∀ v, v ∈ d.values ++ ws ↔ v ∈ d.values ∨ v = wanted i := by
  cases hc : d.includes (wanted i) with
  | true =>
    rw [require_of_includes hc]
    refine ⟨h, [], (append_nil _).symm, fun v => ?_⟩
    rw [append_nil]
    refine ⟨.inl, fun hv => hv.elim id ?_⟩
    rintro rfl
    exact (h.includes_iff hi).mp hc
  | false =>
    have hnot : wanted i ∉ d.values := fun hmem => by simp [includes_of_mem hmem] at hc
    rw [h.require_eq hi hc]
    refine ⟨⟨fun v hv => ?_, ?_, h.no_library⟩, [wanted i], rfl, fun v => by simp⟩
    · rcases mem_append.mp hv with hv | hv
      · exact h.known v hv
      · exact ⟨i, hi, mem_singleton.mp hv⟩
    · exact nodup_append.mpr ⟨h.nodup, nodup_singleton _, fun a ha b hb hab =>
        hnot ((hab.trans (mem_singleton.mp hb)) ▸ ha)⟩

/-- **All imports that are required are there in the end**, behind those that were there before. -/
theorem Fresh.requireAll_cases (is : List RequiredImport) {d : Directives} (hd : d.Fresh)
    (his : ∀ i ∈ is, i ∈ knownImports) :
    (d.requireAll is).Fresh ∧ ∃ ws, (d.requireAll is).values = d.values ++ ws
        ∧ ∀ v, v ∈ d.values ++ ws ↔ v ∈ d.values ∨ ∃ i ∈ is, v = wanted i := by
  induction is generalizing d with
  | nil => exact ⟨hd, [], by simp [requireAll], by simp⟩
  | cons i is ih =>
    obtain ⟨hf, vs, hvs, hmem⟩ := hd.require_cases (his i mem_cons_self)
    obtain ⟨hf', ws, hws, hmem'⟩ := ih hf fun j hj => his j (mem_cons_of_mem _ hj)
    refine ⟨hf', vs ++ ws, ?_, fun v => ?_⟩
    · rw [← append_assoc, ← hvs]
      exact hws
    · rw [← append_assoc, ← hvs, hmem', hvs, hmem]
      simp only [mem_cons, exists_eq_or_imp, or_assoc]

theorem Fresh.mem_requireAll (h : d.Fresh) (his : ∀ i ∈ is, i ∈ knownImports) :
    v ∈ (d.requireAll is).values ↔ v ∈ d.values ∨ ∃ i ∈ is, v = wanted i := by
  obtain ⟨-, ws, hws, hmem⟩ := h.requireAll_cases is his
  rw [hws, hmem]

theorem requireAll_of_includes (is : List RequiredImport)
    (h : ∀ i ∈ is, d.includes (wanted i)) : d.requireAll is = d := by
  induction is with
  | nil => rfl
  | cons i is ih =>
    show (d.require i.uri i.alternatives).requireAll is = d
    rw [require_of_includes (h i mem_cons_self)]
    exact ih (forall_mem_cons.mp h).2

/-- Nothing but the values changes. -/
theorem requireAll_eq (is : List RequiredImport) (d : Directives) :
    d.requireAll is = { d with values := (d.requireAll is).values } := by
  induction is generalizing d with
  | nil => rfl
  | cons i is ih =>
    have hone : ∀ ws : List Text, { d.require i.uri i.alternatives with values := ws }
        = { d with values := ws } := by
      intro ws
      unfold require
      split <;> rfl
    exact (ih (d.require i.uri i.alternatives)).trans (hone _)

/-! ## §3. Writing them at the top of the file. -/

/-- The lines that are put at the top of a file for the directives `vs`. -/
def topLines (package : Option Text) (vs : List Text) : List Text :=
  if vs.isEmpty then [] else blockLines (sortedGroups package vs) ++ [[]]

variable {package : Option Text}

theorem sortedGroups_ne_nil : ∀ g ∈ sortedGroups package vs, g ≠ [] := by
  intro g hg
  have := (mem_filter.mp hg).2
  simpa using this

theorem format_eq_blockLines (d : Directives) (package : Option Text) :
    d.format package = unlines (blockLines (sortedGroups package d.values)) := by
  rw [d.format_eq, join_map_unlines sortedGroups_ne_nil]

/-- Where nothing was found, any directive is a change. -/
theorem Fresh.isChanged_eq (h : d.Fresh) (hfound : d.found = []) :
    d.isChanged package = !d.values.isEmpty := by
  rw [isChanged, hfound, format_eq_blockLines, sameUpToBlanks, squeeze_blockLines]
  congr 1
  rw [Bool.eq_iff_iff, beq_iff_eq, List.isEmpty_iff]
  constructor
  · intro hs
    refine eq_nil_iff_forall_not_mem.mpr fun v hv => ?_
    obtain ⟨i, hi, rfl⟩ := h.known v hv
    have hmem : (wanted i).squeeze ∈ ((sortedGroups package d.values).flatten.map squeeze) :=
      mem_map_of_mem (mem_flatten_sortedGroups.mpr hv)
    exact (wanted_known i hi).2.2.1 (flatten_eq_nil_iff.mp hs.symm _ hmem)
  · intro hv
    rw [hv]
    rfl

theorem mem_blockLines (hvs : ∀ v ∈ vs, ∃ i ∈ knownImports, v = wanted i)
    (hl : l ∈ blockLines (sortedGroups package vs)) :
    l = [] ∨ ∃ i ∈ knownImports, l = wanted i :=
  (DartData.mem_blockLines hl).imp_right fun hv => hvs l (mem_flatten_sortedGroups.mp hv)

theorem mem_topLines (hvs : ∀ v ∈ vs, ∃ i ∈ knownImports, v = wanted i)
    (hl : l ∈ topLines package vs) : l = [] ∨ ∃ i ∈ knownImports, l = wanted i := by
  rw [topLines] at hl
  split at hl
  · exact absurd hl not_mem_nil
  · rcases mem_append.mp hl with hl | hl
    · exact mem_blockLines hvs hl
    · exact .inl (mem_singleton.mp hl)

/-- The lines at the top are lines by themselves, and none of them begins a class. -/
theorem Fresh.not_mem_topLines (h : d.Fresh) (hl : l ∈ topLines package d.values) :
    '\n' ∉ l ∧ isClassLine l = false := by
  rcases mem_topLines h.known hl with rfl | ⟨i, hi, rfl⟩
  · exact ⟨not_mem_nil, rfl⟩
  · obtain ⟨hd, ht, -, hn, -⟩ := wanted_known i hi
    exact ⟨hn, isClassLine_of_isDirective (ht.symm ▸ hd)⟩

/-- The block of some directives begins with one of them. -/
theorem block_cons (package : Option Text) (hne : vs ≠ []) :
    ∃ l ls, blockLines (sortedGroups package vs) = l :: ls ∧ l ∈ vs := by
  have hgroups : sortedGroups package vs ≠ [] := by
    intro hnil
    have hperm := perm_flatten_sortedGroups package vs
    rw [hnil, flatten_nil] at hperm
    exact hne hperm.nil_eq.symm
  obtain ⟨l, ls, hl, hmem⟩ := blockLines_cons hgroups sortedGroups_ne_nil
  exact ⟨l, ls, hl, mem_flatten_sortedGroups.mp hmem⟩

theorem lines_format (package : Option Text) (hlines : ∀ v ∈ d.values, '\n' ∉ v)
    (hne : d.values ≠ []) :
    (d.format package).lines = blockLines (sortedGroups package d.values) := by
  obtain ⟨l, ls, hl, -⟩ := block_cons package hne
  rw [format_eq_blockLines]
  refine lines_unlines (hl ▸ cons_ne_nil l ls) fun x hx => ?_
  rcases DartData.mem_blockLines hx with rfl | hx
  · exact not_mem_nil
  · exact hlines x (mem_flatten_sortedGroups.mp hx)

theorem Fresh.lines_format (h : d.Fresh) (package : Option Text) (hne : d.values ≠ []) :
    (d.format package).lines = blockLines (sortedGroups package d.values) := by
  refine Directives.lines_format package (fun v hv => ?_) hne
  obtain ⟨i, hi, rfl⟩ := h.known v hv
  exact (wanted_known i hi).2.2.2.1

/-- **The directives of a fresh file are put at the top of it.** -/
theorem Fresh.edit?_eq (h : d.Fresh) (hfound : d.found = []) (hfirst : d.first = none) :
    (d.edit? package).map DirectiveEdit.toEdit = if d.values.isEmpty then none
      else some { first := 1, last := 0, lines := topLines package d.values } := by
  rw [edit?, h.isChanged_eq hfound]
  cases hv : d.values.isEmpty with
  | true => rfl
  | false =>
    have hlines := h.lines_format package (isEmpty_eq_false_iff.mp hv)
    rw [topLines, hv, Bool.not_false, if_pos rfl]
    simp [hasPlace, hfirst, DirectiveEdit.toEdit, hlines]

/-- The directives read back from the top of the file are in the order of the groups. -/
theorem read_top (hvs : ∀ v ∈ vs, ∃ i ∈ knownImports, v = wanted i)
    (htext : text.lines = topLines package vs ++ (above ++ line :: more))
    (habove : ∀ l ∈ above, l.allBlank) (hline : isClassLine line) :
    (read text).source = text ∧ (read text).values = (sortedGroups package vs).flatten
      ∧ (read text).found = endLines (sortedGroups package vs).flatten := by
  have hhead : ∀ l ∈ topLines package vs ++ above, IsHeadLine l := by
    intro l hl
    rcases mem_append.mp hl with hl | hl
    · rcases mem_topLines hvs hl with rfl | ⟨i, hi, rfl⟩
      · exact .inl rfl
      · exact .inr ⟨(wanted_known i hi).1, (wanted_known i hi).2.1⟩
    · exact .inl (habove l hl)
  -- blank lines between the groups and above the class do not count
  have hfilter : (topLines package vs ++ above).filter (fun l => !l.allBlank)
      = (sortedGroups package vs).flatten := by
    have hblank : above.filter (fun l => !allBlank l) = [] :=
      filter_eq_nil_iff.mpr fun l hl => by rw [habove l hl]; exact Bool.false_ne_true
    have hgroups : ∀ l ∈ (sortedGroups package vs).flatten, l.allBlank = false := by
      intro l hl
      obtain ⟨i, hi, rfl⟩ := hvs l (mem_flatten_sortedGroups.mp hl)
      have hk := wanted_known i hi
      exact not_allBlank_of_isDirective (hk.2.1.symm ▸ hk.1)
    rw [filter_append, hblank, append_nil, topLines]
    split
    · next hv =>
      rw [List.isEmpty_iff.mp hv]
      rfl
    · rw [filter_append, filter_blockLines hgroups]
      exact append_nil _
  rw [← hfilter]
  exact read_head (by rw [htext, append_assoc]) hhead hline

section

variable (hv : d.values = (sortedGroups package vs).flatten)
  (hf : d.found = endLines (sortedGroups package vs).flatten)
include hv hf

theorem isChanged_of_sorted : d.isChanged package = false := by
  rw [isChanged, hf, format_eq_blockLines, hv, sortedGroups_flatten, sameUpToBlanks,
    squeeze_blockLines, squeeze_endLines, beq_self_eq_true]
  rfl

theorem edit?_of_sorted : d.edit? package = none := by
  rw [edit?, isChanged_of_sorted hv hf]
  rfl

end

/-- **Read back from the top of the file, the directives are settled**: all that was required is
    there, and nothing changes any more. -/
theorem Fresh.read_settled (h : d.Fresh)
    (htext : text.lines = topLines package d.values ++ (above ++ line :: more))
    (habove : ∀ l ∈ above, l.allBlank) (hline : isClassLine line)
    (his : ∀ i ∈ is, d.includes (wanted i)) :
    (read text).requireAll is = read text ∧ (read text).edit? package = none := by
  obtain ⟨-, hvalues, hfound⟩ := read_top h.known htext habove hline
  refine ⟨requireAll_of_includes is fun i hi => ?_, edit?_of_sorted hvalues hfound⟩
  obtain ⟨v, hv, heq⟩ := any_eq_true.mp (his i hi)
  rw [includes, hvalues]
  exact any_eq_true.mpr ⟨v, mem_flatten_sortedGroups.mpr hv, heq⟩

/-! ## §4. Adding to those at the top of the file. -/

theorem topLines_congr (h : vs.Perm ws) : topLines package vs = topLines package ws := by
  have hempty : vs.isEmpty = ws.isEmpty := by
    rw [Bool.eq_iff_iff, isEmpty_iff_length_eq_zero, isEmpty_iff_length_eq_zero, h.length_eq]
  rw [topLines, topLines, sortedGroups_congr h, hempty]

/-- The edit turns the lines `top` at the top of a file into `top'`.  Without an edit they are the
    same. -/
def TurnsTop (top top' : List Text) : Option Edit → Prop
  | none => top' = top
  | some e => ∃ k : Nat, k ≤ top.length ∧ e.first = 1 ∧ e.last = k ∧ top' = e.lines ++ top.drop k

/-- Some more directives are a change. -/
theorem isChanged_of_append (hf : d.found = endLines vs) (hv : d.values = vs ++ ws)
    (hws : ∃ w ∈ ws, w.squeeze ≠ []) : d.isChanged package := by
  obtain ⟨w, hw, hne⟩ := hws
  have hpos : 0 < ((ws.map squeeze).flatten).length :=
    length_pos_iff.mpr fun hnil =>
      hne (flatten_eq_nil_iff.mp hnil _ (mem_map_of_mem hw))
  -- without white space, what is written is longer than what was found
  have hlength : d.found.squeeze.length < (d.format package).squeeze.length := by
    have hperm := (perm_flatten_sortedGroups package d.values).map squeeze
    rw [format_eq_blockLines, squeeze_blockLines, hperm.flatten.length_eq, hf, squeeze_endLines, hv,
      map_append, flatten_append, length_append]
    omega
  have hdiffer : sameUpToBlanks d.found (d.format package) = false := by
    rw [sameUpToBlanks, beq_eq_false_iff_ne]
    intro heq
    rw [heq] at hlength
    exact Nat.lt_irrefl _ hlength
  rw [isChanged, hdiffer]
  rfl

/-- **What is required on top of the directives at the top of the file is sorted in there.** -/
theorem edit?_top (hvs : ∀ v ∈ vs, ∃ i ∈ knownImports, v = wanted i)
    (htext : text.lines = topLines package vs ++ line :: more) (hline : isClassLine line)
    (hfresh : (read text).Fresh) (his : ∀ i ∈ is, i ∈ knownImports) :
    TurnsTop (topLines package vs) (topLines package ((read text).requireAll is).values)
      ((((read text).requireAll is).edit? package).map DirectiveEdit.toEdit) := by
  obtain ⟨hf, ws, hws, -⟩ := hfresh.requireAll_cases is his
  have hnone : ∀ l ∈ ([] : List Text), l.allBlank := by simp
  obtain ⟨-, hvalues, hfound⟩ := read_top hvs
    (show text.lines = topLines package vs ++ ([] ++ line :: more) from htext) hnone hline
  have hfound' := (congrArg found (requireAll_eq is (read text))).trans hfound
  rw [hvalues] at hws
  cases ws with
  | nil =>
    -- everything is there already
    rw [append_nil] at hws
    rw [edit?_of_sorted hws hfound', hws]
    exact topLines_congr (perm_flatten_sortedGroups package vs)
  | cons w ws =>
    have hne : ((read text).requireAll is).values.isEmpty = false := by simp [hws]
    cases vs with
    | nil =>
      -- the first directives of the file
      have hread : read text = { source := text } :=
        read_of_blank (show text.lines = [] ++ line :: more from htext) hnone hline
      have hfirst : ((read text).requireAll is).first = none := by
        rw [requireAll_eq, hread]
      rw [hf.edit?_eq hfound' hfirst, hne]
      exact ⟨0, Nat.le_refl 0, rfl, rfl, (append_nil _).symm⟩
    | cons v vs =>
      -- the block that is there gives way to the new one, and the empty line below it stays
      obtain ⟨l, ls, hblock, hl⟩ := block_cons package (cons_ne_nil v vs)
      obtain ⟨i, hi, rfl⟩ := hvs l hl
      have htop : topLines package (v :: vs) = (wanted i :: ls) ++ [[]] := by
        rw [← hblock]
        rfl
      have hhead : ∀ x ∈ ls, IsHeadLine x := by
        intro x hx
        rcases mem_blockLines hvs (hblock ▸ mem_cons_of_mem _ hx) with rfl | ⟨j, hj, rfl⟩
        · exact .inl rfl
        · exact .inr ⟨(wanted_known j hj).1, (wanted_known j hj).2.1⟩
      obtain ⟨hfirst, hlast⟩ := read_place (by rw [htext, htop, append_assoc]; rfl)
        (wanted_known i hi).1 (wanted_known i hi).2.1 hhead hline
      have hchanged : ((read text).requireAll is).isChanged package := by
        refine isChanged_of_append hfound' hws ⟨w, mem_cons_self, ?_⟩
        obtain ⟨j, hj, rfl⟩ := hf.known w (by rw [hws]; simp)
        exact (wanted_known j hj).2.2.1
      have hlines := hf.lines_format package (isEmpty_eq_false_iff.mp hne)
      have hfirst' := (congrArg first (requireAll_eq is (read text))).trans hfirst
      have hlast' := (congrArg last (requireAll_eq is (read text))).trans hlast
      rw [edit?, hchanged, htop]
      refine ⟨ls.length + 1, by simp, ?_, ?_, ?_⟩
      · simp [hasPlace, hfirst', hlast', DirectiveEdit.toEdit]
      · simp [hasPlace, hfirst', hlast', DirectiveEdit.toEdit]
      · rw [topLines, hne]
        simp [hasPlace, hfirst', hlast', DirectiveEdit.toEdit, hlines]

end Directives

end DartData
