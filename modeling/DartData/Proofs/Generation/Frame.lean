import DartData.Proofs.Assembly.Frame
import DartData.Proofs.Directives.Block
import DartData.Proofs.Generation.Work
import DartData.Proofs.Scan.Span

/-!
# What work on a class leaves alone

No task moves a class or the block of directives, and none fails on a class that the scanner has
found complete.  `Keeps` says what stays the same from one class to the next, `Workable` says what
a class must be like for work on it to succeed, and each task keeps both.  The class can then be
assembled, and its untouched lines are in the new text (`revise_keeps`).
-/

namespace DartData

open Text

/-! ## §1. Frames. -/

namespace SourceClass

/-- The class `c` is `c₀` with some work done on it: it has the same name and fields and stands on
    the same lines. -/
structure Keeps (c c₀ : SourceClass) : Prop where
  name_eq : c.head.name = c₀.head.name
  fields_eq : c.fields = c₀.fields
  content_eq : c.content = c₀.content
  first_eq : c.first = c₀.first
  last_eq : c.last = c₀.last
  headLast_eq : c.headLast = c₀.headLast
  constructorFirst_eq : c.constructorFirst = c₀.constructorFirst
  constructorLast_eq : c.constructorLast = c₀.constructorLast

theorem Keeps.refl (c : SourceClass) : c.Keeps c := ⟨rfl, rfl, rfl, rfl, rfl, rfl, rfl, rfl⟩

variable {c : SourceClass}

theorem Keeps.trans {a b : SourceClass} (h : a.Keeps b) (h' : b.Keeps c) : a.Keeps c where
  name_eq := h.name_eq.trans h'.name_eq
  fields_eq := h.fields_eq.trans h'.fields_eq
  content_eq := h.content_eq.trans h'.content_eq
  first_eq := h.first_eq.trans h'.first_eq
  last_eq := h.last_eq.trans h'.last_eq
  headLast_eq := h.headLast_eq.trans h'.headLast_eq
  constructorFirst_eq := h.constructorFirst_eq.trans h'.constructorFirst_eq
  constructorLast_eq := h.constructorLast_eq.trans h'.constructorLast_eq

theorem Keeps.isValid_eq {c₀ : SourceClass} (h : c.Keeps c₀) : c.isValid = c₀.isValid := by
  simp [isValid, hasDistinctNames, h.name_eq, h.fields_eq, h.first_eq, h.last_eq]

/-- Work on the class cannot fail: its name and first line are known, a constructor with a place
    has a text, and what is to be put into the class ends with its line. -/
structure Workable (c : SourceClass) : Prop where
  first_some : c.first.isSome = true
  name_some : c.head.name.isSome = true
  text_some : c.constructorFirst.isSome = true → c.constructorLast.isSome = true →
    c.constructorText.isSome = true
  insertion_ends : c.insertion.EndsLine
  constructor_ends : ∀ t, c.constructorText = some t → c.hasConstructor = false → t.EndsLine

/-- A complete class as it is found can be worked on. -/
theorem Reported.workable {ls : List Text} {s : Nat} (h : c.Reported ls s) (hv : c.isValid) :
    c.Workable := by
  simp only [isValid, Bool.and_eq_true] at hv
  obtain ⟨⟨⟨⟨hfirst, hname⟩, hlast⟩, -⟩, -⟩ := hv
  obtain ⟨e, he⟩ := Option.isSome_iff_exists.mp hlast
  obtain ⟨hl, -, hst⟩ := h.stands e he
  refine ⟨hfirst, hname, fun ha hb => ?_, .inl h.unedited.2.2.1, fun t ht hno => ?_⟩
  · obtain ⟨a, ha⟩ := Option.isSome_iff_exists.mp ha
    obtain ⟨b, hb⟩ := Option.isSome_iff_exists.mp hb
    obtain ⟨-, -, -, ht⟩ := hst.constructor_inside a b ha hb
    rw [ht]
    rfl
  · cases ha : c.constructorFirst with
    | none => simp [(hst.constructor_none ha).2] at ht
    | some a =>
      cases hb : c.constructorLast with
      | some b => simp [hasConstructor, ha, hb, ht] at hno
      | none =>
        obtain ⟨-, -, ht'⟩ := hst.constructor_open a ha hb
        rw [ht, Option.some.injEq] at ht'
        rw [ht']
        exact endsLine_endLines _

/-- What stands around the parameters of the constructor is known, -/
theorem Workable.delimiters_ok (h : c.Workable) : ∃ d, c.delimiters = .ok d := by
  obtain ⟨n, hn⟩ := Option.isSome_iff_exists.mp h.name_some
  unfold delimiters
  cases c.constructorText with
  | none => exact ⟨_, rfl⟩
  | some t => rw [hn]; exact ⟨_, rfl⟩

/-- and so are the parameters. -/
theorem Workable.parameters_ok (h : c.Workable) : ∃ ps, c.parameters = .ok ps := by
  unfold parameters
  cases ha : c.constructorFirst with
  | none => exact ⟨_, rfl⟩
  | some a =>
    cases hb : c.constructorLast with
    | none => exact ⟨_, rfl⟩
    | some b =>
      obtain ⟨t, ht⟩ := Option.isSome_iff_exists.mp (h.text_some (by simp [ha]) (by simp [hb]))
      rw [ht]
      exact ⟨_, rfl⟩

/-- The constructor can be written anew. -/
theorem Workable.newConstructor_ok (h : c.Workable) (defaults const : Bool) :
    ∃ t, c.newConstructor defaults const = .ok t := by
  obtain ⟨n, hn⟩ := Option.isSome_iff_exists.mp h.name_some
  obtain ⟨around, hd⟩ := h.delimiters_ok
  obtain ⟨ps, hp⟩ := h.parameters_ok
  exact ⟨_, by rw [newConstructor, hd, hn, hp]; rfl⟩

theorem Workable.findMember_ok (h : c.Workable) (name finder : Text) :
    ∃ found, c.findMember name finder = .ok found := by
  obtain ⟨s, hs⟩ := Option.isSome_iff_exists.mp h.first_some
  exact ⟨_, by rw [findMember, hs]⟩

end SourceClass

namespace Directives

/-- The block of directives stands where it stood. -/
def Keeps (d d₀ : Directives) : Prop := d.first = d₀.first ∧ d.last = d₀.last

theorem Keeps.trans {a b c : Directives} (h : a.Keeps b) (h' : b.Keeps c) : a.Keeps c :=
  ⟨h.1.trans h'.1, h.2.trans h'.2⟩

theorem keeps_require (d : Directives) (uri : Text) (alternatives : List Text) :
    (d.require uri alternatives).Keeps d := ⟨require_first .., require_last ..⟩

theorem keeps_requireAll (is : List RequiredImport) :
    ∀ d : Directives, (d.requireAll is).Keeps d := by
  induction is with
  | nil => intro d; exact ⟨rfl, rfl⟩
  | cons i is ih =>
    intro d
    exact (ih (d.require i.uri i.alternatives)).trans (d.keeps_require i.uri i.alternatives)

end Directives

/-! ## §2. Tasks. -/

namespace Work

/-- The work ends well on a draft, and moves neither the class nor the directives. -/
def KeepsOn {α : Type} (w : Work α) (c : SourceClass) (d : Directives)
    (P : α → SourceClass → Prop) : Prop :=
  ∃ a c' d', w.run ⟨c, d⟩ = .ok a ⟨c', d'⟩ ∧ c'.Keeps c ∧ d'.Keeps d ∧ P a c'

variable {c : SourceClass}

/-- A new constructor leaves a class that can be worked on. -/
theorem rebuildConstructor_keeps (r : Request) (hc : c.Workable) (d : Directives) :
    (rebuildConstructor r).KeepsOn c d fun _ c' => c'.Workable := by
  obtain ⟨text, ht⟩ := hc.newConstructor_ok (r.options .constructorDefaults)
    (r.comparesByEquatable c && r.selects .useEquatable)
  unfold KeepsOn
  rw [run_rebuildConstructor, ht]
  dsimp only
  split
  · exact ⟨(), c, d, rfl, .refl c, ⟨rfl, rfl⟩, hc⟩
  · refine ⟨(), _, d, rfl, ⟨rfl, rfl, rfl, rfl, rfl, rfl, rfl, rfl⟩, ⟨rfl, rfl⟩, ?_⟩
    refine ⟨hc.first_some, hc.name_some, fun _ _ => rfl, hc.insertion_ends, fun t h _ => ?_⟩
    injection h with h
    rw [← h]
    exact endsLine_indent text

/-- So does a member. -/
theorem install_keeps (m : Member) (hc : c.Workable) (d : Directives) :
    (install m).KeepsOn c d fun _ c' => c'.Workable := by
  obtain ⟨found, hf⟩ := hc.findMember_ok m.name m.finder
  have hd := Directives.keeps_requireAll m.imports d
  unfold KeepsOn
  rw [run_install, hf]
  cases found with
  | none =>
    refine ⟨(), _, _, rfl, ⟨rfl, rfl, rfl, rfl, rfl, rfl, rfl, rfl⟩, hd, ?_⟩
    exact ⟨hc.first_some, hc.name_some, hc.text_some,
      (hc.insertion_ends.append (endsLine_line [])).append (endsLine_indent _),
      hc.constructor_ends⟩
  | some found =>
    dsimp only
    split
    · exact ⟨(), c, _, rfl, .refl c, hd, hc⟩
    · exact ⟨(), _, _, rfl, ⟨rfl, rfl, rfl, rfl, rfl, rfl, rfl, rfl⟩, hd,
        ⟨hc.first_some, hc.name_some, hc.text_some, hc.insertion_ends, hc.constructor_ends⟩⟩

/-- So does a new supertype. -/
theorem adoptEquatable_keeps (r : Request) (hc : c.Workable) (d : Directives) :
    (adoptEquatable r).KeepsOn c d fun _ c' => c'.Workable := by
  have hd := d.keeps_require equatableLibrary []
  have hname : (c.adopting (r.options .equatableMixin)).head.name = c.head.name := by
    unfold SourceClass.adopting
    dsimp only
    split <;> rfl
  unfold KeepsOn
  rw [run_adoptEquatable]
  split
  · exact ⟨(), c, d, rfl, .refl c, ⟨rfl, rfl⟩, hc⟩
  · split
    · exact ⟨(), c, _, rfl, .refl c, hd, hc⟩
    · exact ⟨(), _, _, rfl, ⟨hname, rfl, rfl, rfl, rfl, rfl, rfl, rfl⟩, hd,
        ⟨hc.first_some, hname ▸ hc.name_some, hc.text_some, hc.insertion_ends, hc.constructor_ends⟩⟩

/-- **Every task keeps a class in its place**, and a class that can be worked on. -/
theorem perform_keeps (r : Request) (t : Task) (hc : c.Workable) (d : Directives) :
    (perform r t).KeepsOn c d fun _ c' => c'.Workable := by
  cases t with
  | rebuildConstructor => exact rebuildConstructor_keeps r hc d
  | install k => exact install_keeps (k.build r c) hc d
  | adoptEquatable => exact adoptEquatable_keeps r hc d

theorem forM_perform_keeps (r : Request) (ts : List Task) :
    ∀ {c : SourceClass} (_ : c.Workable) (d : Directives),
      (ts.forM (perform r)).KeepsOn c d fun _ c' => c'.Workable := by
  induction ts with
  | nil => intro c hc d; exact ⟨(), c, d, rfl, .refl c, ⟨rfl, rfl⟩, hc⟩
  | cons t ts ih =>
    intro c hc d
    obtain ⟨_, c₁, d₁, h₁, hc₁, hd₁, hw₁⟩ := perform_keeps r t hc d
    obtain ⟨_, c₂, d₂, h₂, hc₂, hd₂, hw₂⟩ := ih hw₁ d₁
    refine ⟨(), c₂, d₂, ?_, hc₂.trans hc₁, hd₂.trans hd₁, hw₂⟩
    rw [run_forM_cons, h₁]
    exact h₂

end Work

/-! ## §3. Classes. -/

/-- A complete class can be assembled whatever work was done on it. -/
theorem SourceClass.Stands.assembles {c c₀ : SourceClass} {text : Text} {s h e : Int}
    (hst : c₀.Stands text.lines s h e) (hk : c.Keeps c₀) (hw : c.Workable) (hs : c₀.first = some s)
    (hh : c₀.headLast = some h) (he : c₀.last = some e) :
    c.Assembles (span text.lines s e) s h e where
  first_eq := hk.first_eq.trans hs
  headLast_eq := hk.headLast_eq.trans hh
  last_eq := hk.last_eq.trans he
  one_le := hst.one_le_first
  first_le := hst.first_le
  headLast_le := hst.headLast_le
  lines_eq := by
    have hlen := length_span hst.one_le_first (Int.le_trans hst.first_le hst.headLast_le)
      hst.last_le
    have hle := Int.le_trans hst.first_le hst.headLast_le
    rw [hk.content_eq, hst.content_eq, lines_unlines]
    · intro hnil
      rw [hnil, List.length_nil] at hlen
      omega
    · exact fun l hl => not_mem_of_mem_lines (mem_of_mem_span hl)
  length_eq := length_span hst.one_le_first (Int.le_trans hst.first_le hst.headLast_le) hst.last_le
  insertion_ends := hw.insertion_ends
  constructor_ends := hw.constructor_ends

namespace Work

/-- What revising a class comes to: an edit exactly if something changed, and its text has the lines
    of the class that are not touched. -/
def Reworks (ls : List Text) (edit : Option ClassEdit) (c : SourceClass) : Prop :=
  ∃ t, c.assemble = .ok t ∧ edit = (if c.isChanged then some (c.edit t) else none)
    ∧ ∀ s e, c.first = some s → c.last = some e →
      (c.untouchedLines s (span ls s e)).Sublist t.lines

variable {c : SourceClass} {text : Text} {s : Nat}

/-- The plan for a complete class is carried out, and the class can then be assembled. -/
theorem performAll_keeps (r : Request) (hc : c.Reported text.lines s) (hv : c.isValid)
    (d : Directives) :
    (performAll r).KeepsOn c d fun _ c' => ∃ t, c'.assemble = .ok t
      ∧ ∀ a b, c'.first = some a → c'.last = some b →
        (c'.untouchedLines a (span text.lines a b)).Sublist t.lines := by
  have hlast : c.last.isSome := by
    simp only [SourceClass.isValid, Bool.and_eq_true] at hv
    exact hv.1.1.2
  obtain ⟨e, he⟩ := Option.isSome_iff_exists.mp hlast
  obtain ⟨hl, hh, hst⟩ := hc.stands e he
  obtain ⟨_, c', d', hrun, hk, hd, hw⟩ := forM_perform_keeps r (r.plan c) (hc.workable hv) d
  obtain ⟨t, ht, hsub⟩ := SourceClass.assemble_keeps (hst.assembles hk hw hc.first_eq hh he)
  refine ⟨(), c', d', hrun, hk, hd, t, ht, fun a b ha hb => ?_⟩
  rw [hk.first_eq, hc.first_eq, Option.some.injEq] at ha
  rw [hk.last_eq, he, Option.some.injEq] at hb
  rw [← ha, ← hb]
  exact hsub

theorem revise_keeps (r : Request) (hc : c.Reported text.lines s) (hv : c.isValid)
    (d : Directives) :
    (revise r).KeepsOn c d (Reworks text.lines) := by
  obtain ⟨_, c', d', hrun, hk, hd, t, ht, hsub⟩ := performAll_keeps r hc hv d
  exact ⟨_, c', d', run_revise hrun ht, hk, hd, t, ht, rfl, hsub⟩

/-- The template leaves the class as it is found. -/
theorem reviseByTemplate_keeps (r : Request) (hc : c.Reported text.lines s) (d : Directives) :
    (reviseByTemplate r text).KeepsOn c d fun edit c' => c' = c
      ∧ ∀ e ∈ edit, ∃ t, e = c.edit t := by
  have hann : ∃ b, c.isAnnotatedIn text = .ok b := by
    obtain ⟨l, hl, -⟩ := hc.class_line
    obtain ⟨hlt, -⟩ := List.getElem?_eq_some_iff.mp hl
    have hin : ¬ ((s : Int) - 2 ≥ text.lines.length) := by omega
    unfold SourceClass.isAnnotatedIn
    rw [hc.first_eq]
    dsimp only
    rw [if_neg hin]
    split <;> exact ⟨_, rfl⟩
  obtain ⟨b, hb⟩ := hann
  have hd := (Directives.keeps_require (d.require jsonAnnotationLibrary [])
    (partDirective (r.fileName.getD "None")) []).trans (d.keeps_require jsonAnnotationLibrary [])
  refine ⟨_, c, _, run_reviseByTemplate r text c d hb, .refl c, hd, rfl, ?_⟩
  intro e he
  split at he
  · simp at he
  · exact ⟨_, (Option.mem_some.mp he).symm⟩

end Work

/-! ## §4. Files. -/

/-- The classes of a file have been worked on one after another: those that are not valid were left
    out, and `Q` holds of what the work on each of the others came to. -/
inductive Revised (Q : SourceClass → Option ClassEdit → SourceClass → Prop) :
    List SourceClass → List SourceClass → List ClassEdit → Prop
  | nil : Revised Q [] [] []
  | skip {c : SourceClass} {cs cs' : List SourceClass} {es : List ClassEdit}
      (hv : c.isValid = false) (h : Revised Q cs cs' es) : Revised Q (c :: cs) (c :: cs') es
  | work {c c' : SourceClass} {edit : Option ClassEdit} {cs cs' : List SourceClass}
      {es : List ClassEdit} (hv : c.isValid = true) (hq : Q c edit c') (h : Revised Q cs cs' es) :
      Revised Q (c :: cs) (c' :: cs') (edit.toList ++ es)

theorem Revised.imp {Q Q' : SourceClass → Option ClassEdit → SourceClass → Prop}
    (hQ : ∀ {c e c'}, Q c e c' → Q' c e c') {cs cs' : List SourceClass} {es : List ClassEdit}
    (h : Revised Q cs cs' es) : Revised Q' cs cs' es := by
  induction h with
  | nil => exact .nil
  | skip hv _ ih => exact .skip hv ih
  | work hv hq _ ih => exact .work hv (hQ hq) ih

/-- Work on the class `c` comes to the edit `edit` and leaves the class as `c'`. -/
def Work.Yields (w : Work (Option ClassEdit)) (c : SourceClass) (edit : Option ClassEdit)
    (c' : SourceClass) : Prop :=
  ∃ d d', w.run ⟨c, d⟩ = .ok edit ⟨c', d'⟩

/-- Work that ends well on each class ends well on all of them, and the issues are those of the
    classes that are left out. -/
theorem SourceFile.reviseAll_revised {work : Work (Option ClassEdit)}
    {P : SourceClass → Option ClassEdit → SourceClass → Prop} (cs : List SourceClass) :
    (∀ c ∈ cs, c.isValid → ∀ d, work.KeepsOn c d (P c)) →
    ∀ d : Directives, ∃ cs' d' found, reviseAll work cs d = ((cs', d'), .ok found)
      ∧ d'.Keeps d ∧ found.issues = (cs.filter fun c => !c.isValid).map SourceClass.issue
      ∧ Revised (fun c e c' => work.Yields c e c' ∧ c'.Keeps c ∧ P c e c') cs cs' found.edits := by
  induction cs with
  | nil => exact fun _ d => ⟨[], d, {}, rfl, ⟨rfl, rfl⟩, rfl, .nil⟩
  | cons c cs ih =>
    intro hw d
    have hcs := ih fun c hc => hw c (List.mem_cons_of_mem _ hc)
    cases hv : c.isValid with
    | false =>
      obtain ⟨cs', d', found, hr, hd, hi, hrev⟩ := hcs d
      exact ⟨c :: cs', d', { found with issues := c.issue :: found.issues },
        by simp [reviseAll, hv, hr, Except.map], hd, by simp [hv, hi], .skip hv hrev⟩
    | true =>
      obtain ⟨edit, c', d₁, hrun, hk, hd₁, hP⟩ := hw c List.mem_cons_self hv d
      obtain ⟨cs', d', found, hr, hd, hi, hrev⟩ := hcs d₁
      exact ⟨c' :: cs', d', { found with edits := edit.toList ++ found.edits },
        by simp [reviseAll, hv, hrun, hr, Except.map], hd.trans hd₁, by simp [hv, hi],
        .work hv ⟨⟨d, d₁, hrun⟩, hk, hP⟩ hrev⟩

end DartData
