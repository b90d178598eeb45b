import DartData.Proofs.Edit.Splice
import DartData.Proofs.Generation.Frame
import DartData.Proofs.Scan.Faults

/-!
# The edits of a file

Whatever the text and the request, the edits that generation comes to fit the text: each one stands
on the lines of a valid class, they do not overlap, and that of the directives lies above all of
them (`generate_applicable`).  Working them in loses no line that is not given up on purpose
(`generate_keeps_lines`).
-/

namespace DartData

open List

/-! ## §1. What generation comes to. -/

/-- What the work on a class comes to, if `edit` is its edit and `c` the class as it is left. -/
structure SourceClass.Edited (text : Text) (r : Request) (edit : Option ClassEdit)
    (c : SourceClass) : Prop where
  edit_eq : ∀ e ∈ edit, e = c.edit e.text
  assemble_ok : ∃ t, c.assemble = .ok t
  keeps_lines : r.category ≠ some .jsonSerializable → ∀ e ∈ edit, ∀ a b, c.first = some a →
    c.last = some b → (c.untouchedLines a (Text.span text.lines a b)).Sublist e.text.lines

/-- The work that a request asks for on each class. -/
def Request.work (r : Request) (text : Text) : Work (Option ClassEdit) :=
  if r.category == some .jsonSerializable then Work.reviseByTemplate r text else Work.revise r

variable {text : Text} {c c' : SourceClass} {s : Nat} {cs cs' : List SourceClass} {r : Request}
  {Q : SourceClass → Option ClassEdit → SourceClass → Prop} {es : List ClassEdit} {e : ClassEdit}
  {ls : List Text} {d : Directives} {g : Generation}

/-- The work on a class leaves an edit of its lines. -/
theorem Request.work_keeps (r : Request) (hc : c.Reported text.lines s) (hv : c.isValid)
    (d : Directives) :
    (r.work text).KeepsOn c d (SourceClass.Edited text r) := by
  unfold Request.work
  split
  next hcat =>
    obtain ⟨edit, c', d', hrun, hk, hd, rfl, hedit⟩ := Work.reviseByTemplate_keeps r hc d
    obtain ⟨e, he⟩ := SourceClass.exists_last hv
    obtain ⟨hl, hh, hst⟩ := hc.stands e he
    obtain ⟨t, ht, -⟩ := SourceClass.assemble_keeps
      (hst.assembles (.refl c') (hc.workable hv) hc.first_eq hh he)
    refine ⟨edit, c', d', hrun, hk, hd, fun e he => ?_, ⟨t, ht⟩, fun hne => ?_⟩
    · obtain ⟨t, rfl⟩ := hedit e he
      rfl
    · exact absurd (by simpa using hcat) hne
  next =>
    obtain ⟨edit, c', d', hrun, hk, hd, t, ht, rfl, hsub⟩ := Work.revise_keeps r hc hv d
    refine ⟨_, c', d', hrun, hk, hd, fun e he => ?_, ⟨t, ht⟩, fun _ e he a b ha hb => ?_⟩
    · split at he
      · rw [← Option.mem_some.mp he]
        rfl
      · simp at he
    · split at he
      · rw [← Option.mem_some.mp he]
        exact hsub a b ha hb
      · simp at he

theorem generate_of_error {f : Fault} (hs : scan text = .error f) (r : Request) :
    generate text r = .error f := by
  rw [generate, SourceFile.read, hs]
  rfl

/-- **Generation works on all classes that the scan finds**, unless it wants a file name. -/
theorem generate_of_scan (hs : scan text = .ok cs)
    (hn : r.category = some .jsonSerializable → (r.fileName.getD []).isEmpty = false) :
    ∃ (g : Generation) (d : Directives), generate text r = .ok g
      ∧ g.issues = (cs.filter fun c => !c.isValid).map SourceClass.issue
      ∧ g.edits.directives = d.edit? r.package ∧ d.Keeps (Directives.read text)
      ∧ Revised (fun c e c' => (r.work text).Yields c e c' ∧ c'.Keeps c
        ∧ SourceClass.Edited text r e c') cs g.classes g.edits.classes := by
  have hlaid := scan_laid hs
  obtain ⟨cs', d', found, hall, hd, hissues, hrev⟩ := SourceFile.reviseAll_revised
    (P := fun _ => SourceClass.Edited text r) cs (fun c hc hv d => by
      obtain ⟨s, -, hrep⟩ := hlaid.2 c hc
      exact r.work_keeps hrep hv d) (Directives.read text)
  rw [Request.work] at hall
  have hno : ¬ ((r.category == some .jsonSerializable && (r.fileName.getD []).isEmpty)) := by
    rw [Bool.and_eq_true, beq_iff_eq]
    exact fun h => by simp [hn h.1] at h
  refine ⟨⟨cs', ⟨found.edits, d'.edit? r.package⟩, found.issues⟩, d', ?_, hissues, rfl, hd, hrev⟩
  rw [generate, SourceFile.read, hs]
  show (SourceFile.generate ⟨text, cs, Directives.read text⟩ r).2 = _
  unfold SourceFile.generate
  dsimp only
  rw [if_neg hno, hall]
  rfl

/-- **Generation stops at the scan or for want of a file name, or works on all classes.** -/
theorem generate_cases (text : Text) (r : Request) :
    (∃ f, scan text = .error f ∧ generate text r = .error f)
      ∨ (r.category = some .jsonSerializable ∧ generate text r = .error .noFileName)
      ∨ ∃ (cs : List SourceClass) (g : Generation) (d : Directives), scan text = .ok cs
        ∧ generate text r = .ok g
        ∧ g.edits.directives = d.edit? r.package ∧ d.Keeps (Directives.read text)
        ∧ Revised (fun c e c' => (r.work text).Yields c e c' ∧ c'.Keeps c
          ∧ SourceClass.Edited text r e c') cs g.classes g.edits.classes := by
  cases hs : scan text with
  | error f => exact .inl ⟨f, rfl, generate_of_error hs r⟩
  | ok cs =>
    refine .inr ?_
    by_cases hn : r.category = some .jsonSerializable ∧ (r.fileName.getD []).isEmpty
    · refine .inl ⟨hn.1, ?_⟩
      rw [generate, SourceFile.read, hs]
      show (SourceFile.generate ⟨text, cs, Directives.read text⟩ r).2 = _
      unfold SourceFile.generate
      dsimp only
      rw [if_pos (by simp [hn])]
    · obtain ⟨g, d, hg, -, hd, hk, hrev⟩ := generate_of_scan hs (r := r) fun hcat => by
        rw [Bool.eq_false_iff]
        exact fun he => hn ⟨hcat, he⟩
      exact .inr ⟨cs, g, d, rfl, hg, hd, hk, hrev⟩

/-! ## §2. The edits among the classes. -/

/-- Every edit is that of a valid class. -/
theorem Revised.mem_edits (h : Revised Q cs cs' es) (he : e ∈ es) :
    ∃ c ∈ cs, ∃ c' ∈ cs', c.isValid ∧ Q c (some e) c' := by
  induction h with
  | nil => simp at he
  | skip hv _ ih =>
    obtain ⟨c, hc, c', hc', hq⟩ := ih he
    exact ⟨c, mem_cons_of_mem _ hc, c', mem_cons_of_mem _ hc', hq⟩
  | @work c c' edit cs cs' es hv hq h ih =>
    rcases mem_append.mp he with he | he
    · rw [Option.mem_toList] at he
      subst he
      exact ⟨c, mem_cons_self, c', mem_cons_self, hv, hq⟩
    · obtain ⟨c, hc, c', hc', hq⟩ := ih he
      exact ⟨c, mem_cons_of_mem _ hc, c', mem_cons_of_mem _ hc', hq⟩

/-- A class of the file and what became of it. -/
theorem Revised.of_mem (h : Revised Q cs cs' es) (hc : c ∈ cs) (hv : c.isValid) :
    ∃ edit, ∃ c' ∈ cs', Q c edit c' ∧ ∀ e ∈ edit, e ∈ es := by
  induction h with
  | nil => cases hc
  | skip hv' _ ih =>
    rcases mem_cons.mp hc with rfl | hc
    · rw [hv] at hv'
      cases hv'
    · obtain ⟨edit, c', hc', hq, hes⟩ := ih hc
      exact ⟨edit, c', mem_cons_of_mem _ hc', hq, hes⟩
  | @work d d' edit cs cs' es hv' hq h ih =>
    rcases mem_cons.mp hc with rfl | hc
    · exact ⟨edit, d', mem_cons_self, hq, fun e he =>
        mem_append_left es (Option.mem_toList.mpr he)⟩
    · obtain ⟨edit', c', hc', hq, hes⟩ := ih hc
      exact ⟨edit', c', mem_cons_of_mem _ hc', hq, fun e he =>
        mem_append_right _ (hes e he)⟩

/-- Every valid class has been worked on. -/
theorem Revised.mem_classes (h : Revised Q cs cs' es) (hc : c' ∈ cs') (hv : c'.isValid) :
    ∃ c ∈ cs, ∃ edit, c.isValid ∧ Q c edit c' := by
  induction h with
  | nil => simp at hc
  | skip hv' _ ih =>
    rcases mem_cons.mp hc with rfl | hc
    · simp [hv'] at hv
    · obtain ⟨c, hc, hq⟩ := ih hc
      exact ⟨c, mem_cons_of_mem _ hc, hq⟩
  | @work c c' edit cs cs' es hv' hq h ih =>
    rcases mem_cons.mp hc with rfl | hc
    · exact ⟨c, mem_cons_self, edit, hv', hq⟩
    · obtain ⟨c, hc, hq⟩ := ih hc
      exact ⟨c, mem_cons_of_mem _ hc, hq⟩

/-- Edits come in the order of their classes. -/
theorem Revised.pairwise {R : SourceClass → SourceClass → Prop} {S : ClassEdit → ClassEdit → Prop}
    (hS : ∀ {c d c' d' e f}, Q c (some e) c' → Q d (some f) d' → R c d → S e f)
    (h : Revised Q cs cs' es) (hp : cs.Pairwise R) : es.Pairwise S := by
  induction h with
  | nil => exact List.Pairwise.nil
  | skip _ _ ih => exact ih (pairwise_cons.mp hp).2
  | @work c c' edit cs cs' es hv hq h ih =>
    obtain ⟨hc, hp⟩ := pairwise_cons.mp hp
    cases edit with
    | none => exact ih hp
    | some e =>
      refine pairwise_cons.mpr ⟨fun f hf => ?_, ih hp⟩
      obtain ⟨d, hd, d', -, -, hq'⟩ := h.mem_edits hf
      exact hS hq hq' (hc d hd)

/-! ## §3. Places. -/

/-- The edit of a valid class stands on the lines of the class, which begin with a class line. -/
theorem SourceClass.Reported.edit_place (hc : c.Reported ls s) (hv : c.isValid)
    (hk : c'.Keeps c) (he : e = c'.edit e.text) :
    ∃ a b : Int, (e.first = some a ∧ e.last = some b) ∧ (c'.first = some a ∧ c'.last = some b)
      ∧ (1 ≤ a ∧ a ≤ b ∧ b ≤ ls.length)
      ∧ ∃ l, ls[(a - 1).toNat]? = some l ∧ isClassLine l := by
  obtain ⟨b, hb⟩ := SourceClass.exists_last hv
  obtain ⟨hl, -, hst⟩ := hc.stands b hb
  obtain ⟨l, hline, hcl⟩ := hc.class_line
  have hfirst : c'.first = some (s : Int) := hk.first_eq.trans hc.first_eq
  have hlast : c'.last = some b := hk.last_eq.trans hb
  refine ⟨s, b, ?_, ⟨hfirst, hlast⟩,
    ⟨hst.one_le_first, Int.le_trans hst.first_le hst.headLast_le, hst.last_le⟩, l, ?_, hcl⟩
  · rw [he]
    exact ⟨hfirst, hlast⟩
  · rw [← hline]
    congr 1
    omega

/-- The edit of the directives stands on their block if there is one, and else at the top. -/
theorem Directives.edit?_place {package : Option Text} {e : DirectiveEdit}
    (hd : d.Keeps (read text)) (he : d.edit? package = some e) :
    (e.first = none ∧ e.last = none)
      ∨ ∃ a b : Nat, e.first = some (a : Int) ∧ e.last = some (b : Int)
        ∧ (read text).StandsIn text.lines a b := by
  unfold edit? at he
  split at he
  · rw [Option.some.injEq] at he
    rcases read_standsIn text with ⟨h₁, h₂⟩ | ⟨a, b, hst⟩
    · have h₁ : d.first = none := hd.1.trans h₁
      refine .inl ?_
      simp [← he, hasPlace, h₁]
    · have h₁ : d.first = some a := hd.1.trans hst.first_eq
      have h₂ : d.last = some b := hd.2.trans hst.last_eq
      refine .inr ⟨a, b, ?_, ?_, hst⟩
      · simp [← he, hasPlace, h₁, h₂]
      · simp [← he, hasPlace, h₁, h₂]
  · simp at he

/-- A class line is not among the directives. -/
theorem Directives.StandsIn.lt_of_class_line {a b : Nat} (h : d.StandsIn ls a b) {s : Int}
    {l : Text} (h1 : 1 ≤ s) (hl : ls[(s - 1).toNat]? = some l) (hcl : isClassLine l) :
    (b : Int) < s := by
  by_cases hlt : (b : Int) < s
  · exact hlt
  · have hmem : l ∈ ls.take b := by
      have : (ls.take b)[(s - 1).toNat]? = some l := by
        rw [getElem?_take_of_lt (by omega), hl]
      exact mem_of_getElem? this
    simp [h.no_class_line l hmem] at hcl

/-! ## §4. Generation that succeeds. -/

section

variable (h : generate text r = .ok g)
include h

/-- What is known of generation that succeeds: the scan and what became of its classes. -/
theorem generate_revised : ∃ (cs : List SourceClass) (d : Directives), Laid text.lines 1 cs
      ∧ g.edits.directives = d.edit? r.package ∧ d.Keeps (Directives.read text)
      ∧ Revised (fun c e c' => c'.Keeps c ∧ SourceClass.Edited text r e c') cs g.classes
        g.edits.classes := by
  rcases generate_cases text r with ⟨f, -, hf⟩ | ⟨-, hf⟩ | ⟨cs, g', d, hs, hg, hd, hk, hrev⟩
  · simp [hf] at h
  · simp [hf] at h
  · rw [hg, Except.ok.injEq] at h
    subst h
    exact ⟨cs, d, scan_laid hs, hd, hk, hrev.imp fun h => h.2⟩

/-- Each edit is what the work on its class came to. -/
theorem generate_yields :
    ∃ cs, scan text = .ok cs ∧ Revised (fun c e c' => (r.work text).Yields c e c' ∧ c'.Keeps c) cs
      g.classes g.edits.classes := by
  rcases generate_cases text r with ⟨f, -, hf⟩ | ⟨-, hf⟩ | ⟨cs, g', d, hs, hg, -, -, hrev⟩
  · simp [hf] at h
  · simp [hf] at h
  · rw [hg, Except.ok.injEq] at h
    subst h
    exact ⟨cs, hs, hrev.imp fun h => ⟨h.1, h.2.1⟩⟩

/-- An edit belongs to a valid class of the file, and stands on its lines. -/
theorem generate_edit_of_class (he : e ∈ g.edits.classes) :
    ∃ c ∈ g.classes, c.isValid ∧ SourceClass.Edited text r (some e) c
      ∧ ∃ a b : Int, (e.first = some a ∧ e.last = some b) ∧ (c.first = some a ∧ c.last = some b)
        ∧ (1 ≤ a ∧ a ≤ b ∧ b ≤ text.lines.length)
        ∧ ∃ l, text.lines[(a - 1).toNat]? = some l ∧ isClassLine l := by
  obtain ⟨cs, d, hlaid, -, -, hrev⟩ := generate_revised h
  obtain ⟨c, hc, c', hc', hv, hk, hed⟩ := hrev.mem_edits he
  obtain ⟨s, -, hrep⟩ := hlaid.2 c hc
  exact ⟨c', hc', hk.isValid_eq.trans hv, hed, hrep.edit_place hv hk (hed.edit_eq e rfl)⟩

/-- The edits of classes stand one below another. -/
theorem generate_edits_above : (g.edits.classes.map ClassEdit.placed).Pairwise Edit.Above := by
  obtain ⟨cs, d, hlaid, -, -, hrev⟩ := generate_revised h
  -- an edit ends where its class ends, and the next one begins after that
  have hpair : g.edits.classes.Pairwise
      fun e f => ∀ a b, e.last = some b → f.first = some a → b < a := by
    refine hrev.pairwise (fun {c c₂ c' c₂' e f} hq hq₂ hb a b he hf => ?_) hlaid.1
    obtain ⟨s, t, -, ht, -, hlt⟩ := hb
    have he' : e.last = c.last := by
      rw [hq.2.edit_eq e rfl]
      exact hq.1.last_eq
    have hf' : f.first = c₂.first := by
      rw [hq₂.2.edit_eq f rfl]
      exact hq₂.1.first_eq
    rw [hf', ht, Option.some.injEq] at hf
    rw [← hf]
    exact hlt b (he'.symm.trans he)
  refine pairwise_map.mpr (hpair.imp_of_mem fun {e f} he hf hab => ?_)
  obtain ⟨-, -, -, -, a, b, ⟨-, hb⟩, -⟩ := generate_edit_of_class h he
  obtain ⟨-, -, -, -, a', b', ⟨ha', -⟩, -⟩ := generate_edit_of_class h hf
  simp only [Edit.Above, ClassEdit.placed, hb, ha', Option.getD_some]
  exact hab a' b hb ha'

/-- The edit of the directives has a span above all classes, or goes to the top of the file. -/
theorem generate_directives_above {d : DirectiveEdit} (hd : d ∈ g.edits.directives) :
    (d.first = none ∧ d.last = none)
      ∨ ∃ a b : Int, d.first = some a ∧ d.last = some b ∧ 1 ≤ a ∧ a ≤ b ∧ b ≤ text.lines.length
        ∧ ∀ e ∈ g.edits.classes, ∀ s, e.first = some s → b < s := by
  obtain ⟨cs, ds, -, hdir, hk, -⟩ := generate_revised h
  rcases Directives.edit?_place hk (hdir.symm.trans hd) with hno | ⟨a, b, ha, hb, hst⟩
  · exact .inl hno
  · have h₁ := hst.one_le
    have h₂ := hst.le
    have h₃ := hst.le_length
    refine .inr ⟨a, b, ha, hb, by omega, by omega, by omega, fun e he s hs => ?_⟩
    obtain ⟨-, -, -, -, s', -, ⟨hs', -⟩, -, ⟨hs1, -, -⟩, l, hl, hcl⟩ := generate_edit_of_class h he
    rw [hs, Option.some.injEq] at hs'
    subst hs'
    exact hst.lt_of_class_line hs1 hl hcl

/-- An edit begins on a line of the text and puts lines in the place of its span. -/
theorem generate_edit_lines {e : Edit} (he : e ∈ g.edits.topDown) :
    e.Inside text.lines.length ∧ e.first ≤ text.lines.length ∧ e.lines ≠ [] := by
  rcases mem_append.mp he with he | he
  · obtain ⟨d, hd, rfl⟩ := Option.map_eq_some_iff.mp (Option.mem_toList.mp he)
    rcases generate_directives_above h hd with ⟨hf, hl⟩ | ⟨a, b, ha, hb, h₁, h₂, h₃, -⟩
    · have hpos := Text.length_lines_pos text
      simp only [DirectiveEdit.toEdit, hf, hl, Edit.Inside]
      exact ⟨by omega, by omega, by simp⟩
    · simp only [DirectiveEdit.toEdit, ha, hb, Edit.Inside]
      exact ⟨by omega, by omega, Text.lines_ne_nil _⟩
  · obtain ⟨f, hf, rfl⟩ := mem_map.mp he
    obtain ⟨-, -, -, -, a, b, ⟨ha, hb⟩, -, ⟨h₁, h₂, h₃⟩, -⟩ := generate_edit_of_class h hf
    simp only [ClassEdit.placed, ha, hb, Option.getD_some, Edit.Inside]
    exact ⟨by omega, by omega, Text.lines_ne_nil _⟩

/-- **No two edits share a line.** -/
theorem generate_disjoint : g.edits.Disjoint text.lines.length where
  placed := fun e he => by
    obtain ⟨-, -, -, -, a, b, ⟨ha, hb⟩, -, ⟨-, hab, -⟩, -⟩ := generate_edit_of_class h he
    exact ⟨a, b, ha, hb, hab⟩
  inside := fun e he => (generate_edit_lines h he).1
  above := by
    refine pairwise_append.mpr ⟨?_, generate_edits_above h, fun d hd e he => ?_⟩
    · cases g.edits.directives with
      | none => exact List.Pairwise.nil
      | some d => exact pairwise_singleton _ _
    · obtain ⟨d', hd', rfl⟩ := Option.map_eq_some_iff.mp (Option.mem_toList.mp hd)
      obtain ⟨f, hf, rfl⟩ := mem_map.mp he
      obtain ⟨-, -, -, -, a, b, ⟨ha, -⟩, -, ⟨h1, -, -⟩, -⟩ := generate_edit_of_class h hf
      rcases generate_directives_above h hd' with ⟨hd₁, hd₂⟩ | ⟨a', b', ha', hb', -, -, -, hlt⟩
      · simp only [DirectiveEdit.toEdit, hd₁, hd₂, ClassEdit.placed, ha, Option.getD_some,
          Edit.Above]
        omega
      · simp only [DirectiveEdit.toEdit, ha', hb', ClassEdit.placed, ha, Option.getD_some,
          Edit.Above]
        exact hlt f hf a ha

end

/-! ## §5. Main results. -/

/-- **Edits can always be worked in.**  Generation stops only at a class name with open type
    parameters, or at the template without a file name.  In all other cases each edit stands on the
    lines of a valid class, the edits come in order and do not overlap, that of the directives
    lies above all of them, every valid class can be assembled, and the edits can be applied. -/
theorem generate_applicable (text : Text) (r : Request) :
    (∀ f, generate text r = .error f →
        f = .unclosedGenerics ∨ (r.category = some .jsonSerializable ∧ f = .noFileName))
      ∧ ∀ g, generate text r = .ok g →
        (∀ e ∈ g.edits.classes, ∃ c ∈ g.classes, c.isValid = true ∧ e = c.edit e.text
          ∧ ∃ a b : Int, c.first = some a ∧ c.last = some b ∧ 1 ≤ a ∧ a ≤ b
            ∧ b ≤ text.lines.length)
        ∧ (g.edits.classes.map ClassEdit.placed).Pairwise (fun e f => e.last < f.first)
        ∧ (∀ d ∈ g.edits.directives, (d.first = none ∧ d.last = none)
          ∨ ∃ a b : Int, d.first = some a ∧ d.last = some b ∧ 1 ≤ a ∧ a ≤ b
            ∧ b ≤ text.lines.length ∧ ∀ e ∈ g.edits.classes, ∀ s, e.first = some s → b < s)
        ∧ (∀ c ∈ g.classes, c.isValid = true → ∃ t, c.assemble = .ok t)
        ∧ ∃ out, g.edits.apply text = .ok out := by
  refine ⟨fun f hf => ?_, fun g hg => ⟨fun e he => ?_, generate_edits_above hg,
    fun d hd => generate_directives_above hg hd, fun c hc hv => ?_,
    _, Edits.apply_eq (generate_disjoint hg)⟩⟩
  · rcases generate_cases text r with ⟨f', hs, hf'⟩ | ⟨hcat, hf'⟩ | ⟨_, g, _, -, hg, -⟩
    · rw [hf', Except.error.injEq] at hf
      exact Or.inl (hf ▸ scan_error hs)
    · rw [hf', Except.error.injEq] at hf
      exact Or.inr ⟨hcat, hf.symm⟩
    · simp [hg] at hf
  · obtain ⟨c, hc, hv, hed, a, b, -, ⟨ha, hb⟩, ⟨h₁, h₂, h₃⟩, -⟩ := generate_edit_of_class hg he
    exact ⟨c, hc, hv, hed.edit_eq e rfl, a, b, ha, hb, h₁, h₂, h₃⟩
  · obtain ⟨cs, d, -, -, -, hrev⟩ := generate_revised hg
    obtain ⟨_, -, _, -, -, hed⟩ := hrev.mem_classes hc hv
    exact hed.assemble_ok

/-- **No line is lost.**  In the text of each edit the lines of its class below the declaration
    come through in order, those of a constructor and of members that are written anew apart; and
    working the edits in keeps all lines outside of their spans. -/
theorem generate_keeps_lines {text : Text} {r : Request} {g : Generation}
    (hr : r.category ≠ some .jsonSerializable) (h : generate text r = .ok g) :
    (∀ e ∈ g.edits.classes, ∃ c ∈ g.classes, e = c.edit e.text
        ∧ ∃ a b : Int, c.first = some a ∧ c.last = some b
          ∧ (c.untouchedLines a (Text.span text.lines a b)).Sublist e.text.lines)
      ∧ ∃ out, g.edits.apply text = .ok out
        ∧ (Edit.outside g.edits.topDown 0 text.lines).Sublist out.lines := by
  refine ⟨fun e he => ?_, _, Edits.apply_eq (generate_disjoint h), ?_⟩
  · obtain ⟨c, hc, -, hed, a, b, -, ⟨ha, hb⟩, -⟩ := generate_edit_of_class h he
    exact ⟨c, hc, hed.edit_eq e rfl, a, b, ha, hb, hed.keeps_lines hr e rfl a b ha hb⟩
  · have hd := generate_disjoint h
    have hno : ∀ l ∈ Edit.replaceFrom 0 text.lines g.edits.topDown, '\n' ∉ l := by
      intro l hl
      rcases Edit.mem_replaceFrom _ _ _ hl with hl | ⟨e, he, hl⟩
      · exact Text.not_mem_of_mem_lines hl
      · exact Edits.not_mem_of_mem_topDown he hl
    refine (Edit.outside_sublist_replaceFrom _ 0 _ (fun e he => ?_) hd.above).trans
      (Text.sublist_lines_unlines hno)
    obtain ⟨h₁, h₂, h₃⟩ := hd.inside e he
    exact ⟨he, by omega, h₂, by omega⟩

/-- A comment above a class. -/
theorem generate_keeps_lines_comment :
    ∃ (text : Text) (r : Request) (g : Generation), r.category ≠ some .jsonSerializable
      ∧ generate text r = .ok g ∧ g.edits.classes.length = 1
      ∧ ∃ out, g.edits.apply text = .ok out
        ∧ (Edit.outside g.edits.topDown 0 text.lines).Sublist out.lines := by
  let text : Text := "// a\nclass A \x7b\n  int x; // b\n  A();\n\x7d"
  let r : Request := { category := some .constructor }
  have h : (generate text r).toOption.map (·.edits.classes.length) = some 1 := by decide +kernel
  have hr : r.category ≠ some .jsonSerializable := by decide
  cases hg : generate text r with
  | error f => simp [hg, Except.toOption] at h
  | ok g =>
      have hlen : g.edits.classes.length = 1 := by simpa [hg, Except.toOption] using h
      exact ⟨text, r, g, hr, hg, hlen, (generate_keeps_lines hr hg).2⟩

end DartData
