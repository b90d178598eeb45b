import DartData.Proofs.Directives.Settled
import DartData.Proofs.Template.Rewrite

/-!
# The template is a fixed point

A file that was written from the template is left as it is by a second pass, and its classes are
found again with the same heads and fields.  This needs that its classes can be written at all and
that none of them ends with an annotation (`SourceClass.isRewritable`): a comment between type
arguments runs into the rest of the line when the declaration is put on one line, a field without
modifiers whose type begins with the name of the class reads like a constructor, and an annotation
that is lost with the end of a class leaves the class below it without one.

Main statement: **`generate_template_settles`**.
-/

namespace DartData

open List Text

/-! ## §1. The edits of the classes. -/

namespace Edit

/-- Lines above all edits stay. -/
theorem replaceFrom_skip (k : Nat) (gap ls : List Text) (es : List Edit)
    (h : ∀ e ∈ es, (k + gap.length : Int) < e.first ∧ e.first ≤ e.last + 1) :
    replaceFrom k (gap ++ ls) es = gap ++ replaceFrom (k + gap.length) ls es := by
  cases es with
  | nil => rfl
  | cons e es =>
    obtain ⟨h₁, h₂⟩ := h e mem_cons_self
    have htake : (gap ++ ls).take ((e.first - 1).toNat - k)
        = gap ++ ls.take ((e.first - 1).toNat - (k + gap.length)) := by
      rw [take_append, take_of_length_le (by omega), Nat.sub_sub]
    have hdrop : (gap ++ ls).drop (e.last.toNat - k)
        = ls.drop (e.last.toNat - (k + gap.length)) := by
      rw [drop_append, drop_of_length_le (by omega), nil_append, Nat.sub_sub]
    rw [replaceFrom, replaceFrom, htake, hdrop]
    simp

end Edit

/-- The edits of the classes, below the lines `above`. -/
def templateEdits (above : List Text) : List ClassBlock → List Edit
  | [] => []
  | b :: bs =>
    (if b.isKept (endsMarked above) then []
      else [{ first := above.length + 1, last := above.length + b.lines.length
              lines := b.newLines (endsMarked above) }])
      ++ templateEdits (above ++ b.lines ++ b.gap) bs

/-- The edits stand below the lines above. -/
theorem templateEdits_below (bs : List ClassBlock) : ∀ above : List Text,
    ∀ e ∈ templateEdits above bs, (above.length : Int) < e.first ∧ e.first ≤ e.last + 1 := by
  induction bs with
  | nil => intro above e he; simp [templateEdits] at he
  | cons b bs ih =>
    intro above e he
    rcases mem_append.mp he with he | he
    · split at he
      · simp at he
      · rw [mem_singleton.mp he]
        dsimp only
        omega
    · obtain ⟨h₁, h₂⟩ := ih _ e he
      simp only [length_append] at h₁
      exact ⟨by omega, h₂⟩

/-- **Worked in, the edits leave the lines that were written.** -/
theorem replaceFrom_templateEdits (bs : List ClassBlock) (above : List Text) :
    Edit.replaceFrom above.length (cutLines bs) (templateEdits above bs)
      = rewrittenLines above bs := by
  induction bs generalizing above with
  | nil => rfl
  | cons b bs ih =>
    have hbelow := templateEdits_below bs (above ++ b.lines ++ b.gap)
    have hrest := ih (above ++ b.lines ++ b.gap)
    simp only [length_append] at hbelow hrest
    have hcut : cutLines (b :: bs) = b.lines ++ (b.gap ++ cutLines bs) := by
      simp [cutLines]
    have hgap := Edit.replaceFrom_skip (above.length + b.lines.length) b.gap (cutLines bs)
      (templateEdits (above ++ b.lines ++ b.gap) bs) (by simpa using hbelow)
    rw [hrest] at hgap
    rw [rewrittenLines, hcut, templateEdits]
    -- a class that is kept gets no edit, and its lines are passed over
    split
    · next hk =>
      have hlines := Edit.replaceFrom_skip above.length b.lines (b.gap ++ cutLines bs)
        (templateEdits (above ++ b.lines ++ b.gap) bs) fun e he => by
          have := hbelow e he
          omega
      rw [nil_append, hlines, hgap, ClassBlock.newLines, if_pos hk]
    · have hlast : ((above.length : Int) + b.lines.length).toNat
          = above.length + b.lines.length := by
        omega
      have hfirst : ((above.length : Int) + 1 - 1).toNat - above.length = 0 := by omega
      rw [singleton_append, Edit.replaceFrom]
      dsimp only
      rw [hfirst, hlast, Nat.add_sub_cancel_left, drop_left, hgap, take_zero,
        nil_append]

/-- The edit of a class in a text, if the template changes more than white space. -/
def SourceClass.templateEdit? (c : SourceClass) (text : Text) : Option ClassEdit :=
  match c.isAnnotatedIn text with
  | .ok marked =>
    if sameUpToBlanks (c.fromTemplate (!marked)) c.content then none
    else some (c.edit (c.fromTemplate (!marked)))
  | .error _ => none

variable {cs : List SourceClass} {text : Text} {c : SourceClass} {above : List Text}
  {bs : List ClassBlock}

/-- Edits that depend on their classes alone. -/
theorem Revised.edits_eq {Q : SourceClass → Option ClassEdit → SourceClass → Prop}
    {f : SourceClass → Option ClassEdit} (hQ : ∀ {c e c'}, Q c e c' → e = f c)
    {cs' : List SourceClass} {es : List ClassEdit} (h : Revised Q cs cs' es) :
    es = (cs.filter SourceClass.isValid).flatMap fun c => (f c).toList := by
  induction h with
  | nil => rfl
  | skip hv _ ih =>
    rw [filter_cons_of_neg (by simp [hv])]
    exact ih
  | work hv hq _ ih => rw [filter_cons_of_pos hv, flatMap_cons, ← ih, hQ hq]

theorem generate_templateEdits {r : Request} {g : Generation}
    (hcat : r.category = some .jsonSerializable) (h : generate text r = .ok g) :
    ∃ cs, scan text = .ok cs ∧ g.edits.classes
      = (cs.filter SourceClass.isValid).flatMap fun c => (c.templateEdit? text).toList := by
  obtain ⟨cs, hs, hrev⟩ := generate_yields h
  refine ⟨cs, hs, hrev.edits_eq fun {c e c'} hq => ?_⟩
  obtain ⟨⟨d, d', hrun⟩, -⟩ := hq
  rw [Request.work, hcat] at hrun
  obtain ⟨-, -, marked, hmarked, rfl⟩ := Work.reviseByTemplate_eq_ok hrun
  rw [SourceClass.templateEdit?, hmarked]

/-- The end of a class is told by its content. -/
theorem SourceClass.Reported.last_eq {s : Nat} {ms : List Text} (h : c.Reported text.lines s)
    (hv : c.isValid) (hne : ms ≠ []) (hms : ∀ l ∈ ms, '\n' ∉ l)
    (hcontent : c.content = unlines ms) :
    c.last = some (s + ms.length - 1 : Int) := by
  obtain ⟨e, he⟩ := Option.ne_none_iff_exists'.mp (last_ne_of_isValid hv)
  obtain ⟨hl, -, hst⟩ := h.stands e he
  have hle := Int.le_trans hst.first_le hst.headLast_le
  have hlen := length_span hst.one_le_first hle hst.last_le
  have hspan : span text.lines s e = ms := by
    have hnonempty : span text.lines s e ≠ [] := by
      intro hnil
      rw [hnil, length_nil] at hlen
      omega
    rw [← lines_unlines hnonempty fun l hl => not_mem_of_mem_lines (mem_of_mem_span hl),
      ← hst.content_eq, hcontent, lines_unlines hne hms]
  rw [hspan] at hlen
  rw [he]
  congr 1
  omega

theorem SourceClass.Writable.lines_fromTemplate {name : Text} (h : c.Writable name)
    (annotate : Bool) :
    (c.fromTemplate annotate).lines = markLines annotate ++ c.templateLayout.lines := by
  rw [fromTemplate_eq]
  refine lines_unlines (by simp [ClassLayout.lines]) fun l hl => ?_
  rcases mem_append.mp hl with hl | hl
  · cases annotate with
    | true =>
      rw [mem_singleton.mp hl]
      decide
    | false => exact absurd hl not_mem_nil
  · exact h.not_mem_lines l hl

/-- The edits of the classes stand on their lines. -/
theorem map_placed_templateEdit? (hs : scan text = .ok cs) (bs : List ClassBlock)
    (hbs : ∀ b ∈ bs, b.Writable) (hcs : ∀ b ∈ bs, b.found ∈ cs) (above : List Text)
    (hlines : text.lines = above ++ cutLines bs) (hcut : Cut above bs) :
    ((bs.map ClassBlock.found).flatMap fun c => (c.templateEdit? text).toList).map
      ClassEdit.placed = templateEdits above bs := by
  induction bs generalizing above with
  | nil => rfl
  | cons b bs ih =>
    obtain ⟨hstands, hcut⟩ := hcut
    have hb := hbs b mem_cons_self
    obtain ⟨name, hw⟩ := hb.found
    obtain ⟨line, mine, hmine, hfound⟩ := hstands.found
    obtain ⟨hcontent, hfirst⟩ := hfound.content_eq
    have hcutLines : cutLines (b :: bs) = b.lines ++ (b.gap ++ cutLines bs) := by simp [cutLines]
    have hannotated :=
      SourceClass.isAnnotatedIn_eq (c := b.found) hlines (by simp [hcutLines, hmine])
      (by simpa using hfirst)
    have hrest := ih (forall_mem_cons.mp hbs).2
      (forall_mem_cons.mp hcs).2 (above ++ b.lines ++ b.gap)
      (by rw [hlines, hcutLines]; simp) hcut
    rw [map_cons, flatMap_cons, map_append, hrest, templateEdits]
    refine congrArg (· ++ templateEdits (above ++ b.lines ++ b.gap) bs) ?_
    rw [SourceClass.templateEdit?, hannotated]
    dsimp only
    split
    · next hk => rw [if_pos (show b.isKept (endsMarked above) = true from hk)]; rfl
    · next hk =>
      have hk : ¬ b.isKept (endsMarked above) := hk
      obtain ⟨s, -, hrep⟩ := (scan_laid hs).2 b.found (hcs b mem_cons_self)
      -- the line that the scan reports is the one at which the file is cut
      obtain rfl : above.length + 1 = s := by
        have := Option.some.inj (hfirst.symm.trans hrep.first_eq)
        omega
      have hlast := hrep.last_eq hstands.valid (by simp [hmine]) hb.lines (hmine ▸ hcontent)
      have hplaced : (b.found.edit (b.found.fromTemplate (!endsMarked above))).placed
          = { first := above.length + 1, last := above.length + b.lines.length
              lines := b.newLines (endsMarked above) } := by
        rw [ClassEdit.placed, SourceClass.edit, hfirst, hlast, hw.lines_fromTemplate,
          ClassBlock.newLines, if_neg hk]
        simp only [Option.getD_some, Edit.mk.injEq, and_true]
        omega
      rw [if_neg hk, Option.toList_some, map_singleton, hplaced]

/-! ## §2. The head of the file. -/

theorem endsMarked_of_isHeadward {ls : List Text} (h : ∀ l ∈ ls, isHeadward l) :
    endsMarked ls = false := by
  rw [endsMarked]
  cases hfind : ls.reverse.find? fun l => !l.allBlank with
  | none => rfl
  | some l =>
    have hl : l ∈ ls := mem_reverse.mp (mem_of_find?_eq_some hfind)
    rw [Option.any_some, Bool.eq_false_iff]
    intro hmark
    obtain ⟨rest, hrest⟩ := startsWith_iff.mp hmark
    have hhead : l.trim.head? = some '@' := by rw [← hrest]; rfl
    exact absurd (head?_trim_of_isHeadward (h l hl) hhead (by decide)) (by decide)

/-- Below the head of a file, the classes begin with a class line. -/
theorem Cut.beginsClass (h : Cut above bs) : BeginsClass (cutLines bs) := by
  cases bs with
  | nil => intro l hl; simp [cutLines] at hl
  | cons b bs =>
    obtain ⟨line, mine, hlines, hfound⟩ := h.1.found
    intro l hl
    rw [show cutLines (b :: bs) = b.lines ++ b.gap ++ cutLines bs from rfl, hlines] at hl
    exact Option.some.inj hl ▸ hfound.1

/-- The lines written for a class end the head of a file. -/
theorem ClassBlock.Stands.newLines_eq_cons {b : ClassBlock} {n : Nat} (h : b.Stands n)
    (hb : b.Writable) (marked : Bool) :
    ∃ l rest, b.newLines marked = l :: rest ∧ EndsHead l := by
  obtain ⟨line, mine, hlines, hfound⟩ := h.found
  obtain ⟨name, hw⟩ := hb.found
  unfold ClassBlock.newLines
  split
  · exact ⟨line, mine, hlines, endsHead_of_isClassLine hfound.1⟩
  · cases marked with
    | true => exact ⟨_, _, rfl, endsHead_of_isClassLine hw.fits.header.class_line⟩
    | false => exact ⟨_, _, rfl, by decide, by decide⟩

theorem stopsHead_rewrittenLines (h : Cut above bs) (hbs : ∀ b ∈ bs, b.Writable) :
    Directives.StopsHead (rewrittenLines above bs) := by
  cases bs with
  | nil => intro l hl; simp [rewrittenLines] at hl
  | cons b bs =>
    obtain ⟨l, rest, hnew, hl⟩ := h.1.newLines_eq_cons (hbs b mem_cons_self) (endsMarked above)
    intro x hx
    rw [rewrittenLines, hnew] at hx
    exact Option.some.inj hx ▸ hl

namespace Directives

variable {text : Text} {r : Request} {package : Option Text}

/-- The block of directives lies above the first class. -/
theorem Splices.cut_top {d : Directives} {e : DirectiveEdit} {above block below new : List Text}
    (h : Splices text d package e above block below new) {top body : List Text}
    (hlines : text.lines = top ++ body) (hbody : BeginsClass body) :
    ∃ rest, top = above ++ (block ++ rest) ∧ below = rest ++ body := by
  have heq : above ++ block ++ below = top ++ body := by
    rw [← hlines, h.lines_eq, append_assoc]
  rcases append_eq_append_iff.mp heq with ⟨rest, htop, hbelow⟩ | ⟨rest, habove, hrest⟩
  · exact ⟨rest, by rw [htop, append_assoc], hbelow⟩
  · cases rest with
    | nil => exact ⟨[], by simpa using habove.symm, by simpa using hrest.symm⟩
    | cons l rest =>
      have hclass : isClassLine l := hbody l (by rw [hrest]; rfl)
      have hhead : isHeadward l := h.headward l (by rw [habove]; simp)
      simp [isClassLine_of_isHeadward hhead] at hclass

/-- With another head the same classes are found, and the first one is annotated or not as
    before. -/
theorem TurnsHead.same_below {body top top' : List Text}
    (h : TurnsHead text ((read text).requireAll (r.needsIn text)) package body top top')
    (hname : r.HasLineName) (hbarren : Barren top) :
    Barren top' ∧ endsMarked top' = endsMarked top := by
  cases h with
  | unchanged _ _ => exact ⟨hbarren, rfl⟩
  | @written e above block below new hedit hs =>
    have hnew := hs.headward_new (values_ne_nil hedit) hname
    rw [← append_assoc] at hbarren ⊢
    rw [← append_assoc above block]
    refine ⟨?_, endsMarked_append_congr ?_ below⟩
    · rw [barren_append fun l hl => isClassLine_of_isHeadward (hs.headward l hl)] at hbarren
      rwa [barren_append fun l hl => isClassLine_of_isHeadward (hnew l hl)]
    · rw [endsMarked_of_isHeadward hnew, endsMarked_of_isHeadward hs.headward]

end Directives

/-! ## §3. The second pass. -/

variable {text : Text} {r : Request} {g : Generation} {cs : List SourceClass}

/-- **What generation makes of the lines of a file.**  The head and each class give way to what is
    written for them. -/
theorem generate_rewritten (hcat : r.category = some .jsonSerializable)
    (h : generate text r = .ok g) (hs : scan text = .ok cs) {top : List Text}
    (hlines : text.lines = top ++ cutLines bs) (hcut : Cut top bs)
    (hvalid : cs.filter SourceClass.isValid = bs.map ClassBlock.found)
    (hbs : ∀ b ∈ bs, b.Writable) :
    ∃ top', Directives.TurnsHead text ((Directives.read text).requireAll (r.needsIn text)) r.package
        (cutLines bs) top top'
      ∧ ∃ out, g.edits.apply text = .ok out ∧ out.lines = top' ++ rewrittenLines top bs := by
  have hclasses : g.edits.classes.map ClassEdit.placed = templateEdits top bs := by
    obtain ⟨cs', hs', hedits⟩ := generate_templateEdits hcat h
    obtain rfl : cs' = cs := Except.ok.inj (hs'.symm.trans hs)
    rw [hedits, hvalid]
    refine map_placed_templateEdit? hs bs hbs (fun b hb => ?_) top hlines hcut
    have hmem : b.found ∈ cs'.filter SourceClass.isValid := by
      rw [hvalid]
      exact mem_map_of_mem hb
    exact (mem_filter.mp hmem).1
  have hbelow := templateEdits_below bs top
  have hdirectives := generate_directives h
  -- the edits share no lines, so it is enough to follow them from the top
  suffices hreplace : ∃ top', Directives.TurnsHead text
      ((Directives.read text).requireAll (r.needsIn text)) r.package (cutLines bs) top top'
      ∧ Edit.replaceFrom 0 text.lines g.edits.topDown = top' ++ rewrittenLines top bs by
    obtain ⟨top', hturns, hreplace⟩ := hreplace
    refine ⟨top', hturns, _, Edits.apply_eq (generate_disjoint h), ?_⟩
    rw [← hreplace]
    refine lines_unlines ?_ fun l hl => Edits.not_mem_of_mem_replaceFrom hl
    rw [hreplace]
    cases hturns with
    | written _ hs => simp [hs.new_ne_nil]
    | unchanged _ _ =>
      intro hnil
      obtain ⟨rfl, hnil⟩ := append_eq_nil_iff.mp hnil
      cases bs with
      | nil => exact lines_ne_nil text hlines
      | cons b bs =>
        obtain ⟨l, rest, hnew, -⟩ := hcut.1.newLines_eq_cons (hbs b mem_cons_self) (endsMarked [])
        simp [rewrittenLines, hnew] at hnil
  cases he : g.edits.directives with
  | none =>
    refine ⟨top, .unchanged (hdirectives.symm.trans he) hlines, ?_⟩
    have hskip := Edit.replaceFrom_skip 0 top (cutLines bs) (templateEdits top bs)
      (by simpa using hbelow)
    rw [Nat.zero_add, replaceFrom_templateEdits] at hskip
    rw [Edits.topDown, he, hclasses, hlines]
    exact hskip
  | some e =>
    rw [hdirectives] at he
    obtain ⟨above, block, below, new, hsplices⟩ :=
      Directives.edit?_splices (Directives.keeps_requireAll _ _) he
    -- the block stands above all classes, and the rest of the head is kept
    obtain ⟨rest, rfl, rfl⟩ := hsplices.cut_top hlines hcut.beginsClass
    refine ⟨above ++ (new ++ rest), .written he hsplices, ?_⟩
    have hskip := Edit.replaceFrom_skip (above.length + block.length) rest (cutLines bs)
      (templateEdits (above ++ (block ++ rest)) bs) (by simpa [Int.add_assoc] using hbelow)
    have hedits := replaceFrom_templateEdits bs (above ++ (block ++ rest))
    rw [length_append, length_append, ← Nat.add_assoc] at hedits
    rw [Edits.topDown, hdirectives, he, hclasses]
    show Edit.replaceFrom 0 text.lines (e.toEdit :: templateEdits _ bs) = _
    rw [hsplices.replaceFrom_eq, hskip, hedits]
    simp

/-- A settled class gets no edit. -/
theorem SourceClass.SettledIn.templateEdit?_eq_none (h : c.SettledIn text.lines) :
    c.templateEdit? text = none := by
  obtain ⟨above, below, hlines, hne, hfirst, hsame⟩ := h
  rw [templateEdit?, isAnnotatedIn_eq hlines hne hfirst]
  dsimp only
  rw [if_pos hsame]

/-- The template is not asked for without the name of the file. -/
theorem generate_fileName (h : generate text r = .ok g)
    (hcat : r.category = some .jsonSerializable) :
    (r.fileName.getD []).isEmpty = false := by
  obtain ⟨file, -, h⟩ := bind_eq_ok.mp h
  cases hempty : (r.fileName.getD []).isEmpty with
  | false => rfl
  | true =>
    unfold SourceFile.generate at h
    dsimp only at h
    rw [if_pos (by simp [hcat, hempty])] at h
    simp at h

/-- What the template needs is the same for all classes. -/
theorem mem_needsIn_template (hcat : r.category = some .jsonSerializable) (hs : scan text = .ok cs)
    {i : RequiredImport} :
    i ∈ r.needsIn text ↔ cs.filter SourceClass.isValid ≠ [] ∧ i ∈ [{ uri := jsonAnnotationLibrary },
        { uri := partDirective (r.fileName.getD "None") }] := by
  have hneeds : ∀ c : SourceClass, r.needs c = [{ uri := jsonAnnotationLibrary },
      { uri := partDirective (r.fileName.getD "None") }] := fun c => by
    rw [Request.needs, if_pos (by simp [hcat])]
  rw [Request.needsIn, hs]
  dsimp only
  rw [mem_flatMap]
  constructor
  · rintro ⟨c, hc, hi⟩
    exact ⟨ne_nil_of_mem hc, hneeds c ▸ hi⟩
  · rintro ⟨hne, hi⟩
    obtain ⟨c, hc⟩ := exists_mem_of_ne_nil _ hne
    exact ⟨c, hc, (hneeds c).symm ▸ hi⟩

/-- **The template is a fixed point.**  If all valid classes of a file can be written from the
    template and be found again, a second pass has nothing to do, and the scan finds the same valid
    classes, with the same heads and the same fields. -/
theorem generate_template_settles {text : Text} {r : Request} {g : Generation}
    {cs : List SourceClass} (hcat : r.category = some .jsonSerializable) (hname : r.HasLineName)
    (h : generate text r = .ok g) (hs : scan text = .ok cs)
    (hw : ∀ c ∈ cs, c.isValid = true → c.isRewritable = true) :
    ∃ out g' cs', g.edits.apply text = .ok out ∧ generate out r = .ok g' ∧ g'.edits = {}
      ∧ scan out = .ok cs' ∧ (cs'.filter SourceClass.isValid).map SourceClass.outline
        = (cs.filter SourceClass.isValid).map SourceClass.outline := by
  obtain ⟨top, bs, hlines, hbarren, hcut, hvalid⟩ := scan_cut hs
  have hbs : ∀ b ∈ bs, b.Writable := by
    intro b hb
    have hmem : b.found ∈ cs.filter SourceClass.isValid := by
      rw [hvalid]
      exact mem_map_of_mem hb
    obtain ⟨hmem, hv⟩ := mem_filter.mp hmem
    have hrewritable := hw b.found hmem hv
    rw [SourceClass.isRewritable, Bool.and_eq_true, Bool.not_eq_true'] at hrewritable
    refine ⟨fun l hl => not_mem_of_mem_lines (t := text) ?_,
      (scan_declared hs b.found hmem).writable hrewritable.1, hrewritable.2⟩
    rw [hlines]
    exact mem_append_right _ (mem_flatMap.mpr ⟨b, hb, mem_append_left _ hl⟩)
  -- the first pass turns the head and rewrites the classes below it in place
  obtain ⟨top', hturns, out, hout, houtLines⟩ :=
    generate_rewritten hcat h hs hlines hcut hvalid hbs
  obtain ⟨hbarren', hmarked⟩ := hturns.same_below hname hbarren
  obtain ⟨cs', hscan, houtlines, hsettled⟩ :=
    scanLines_rewritten hbs top [] top' hcut hbarren' hmarked
  have hs' : scan out = .ok cs' := by
    rw [scan, houtLines]
    exact hscan
  obtain ⟨g', -, hg', -⟩ := generate_of_scan hs' (r := r) fun _ => generate_fileName h hcat
  rw [← hvalid] at houtlines
  refine ⟨out, g', cs', hout, hg', ?_, hs', houtlines⟩
  have hclasses : g'.edits.classes = [] := by
    obtain ⟨cs₂, hs₂, hedits⟩ := generate_templateEdits hcat hg'
    obtain rfl : cs₂ = cs' := Except.ok.inj (hs₂.symm.trans hs')
    rw [hedits, flatMap_eq_nil_iff]
    intro c hc
    obtain ⟨hmem, hv⟩ := mem_filter.mp hc
    have hset := hsettled c hmem hv
    rw [nil_append, ← houtLines] at hset
    rw [hset.templateEdit?_eq_none]
    rfl
  -- what the second pass requires was required by the first one
  have hdirectives : g'.edits.directives = none := by
    rw [generate_directives hg']
    refine hturns.edit?_eq_none hname ?_ (stopsHead_rewrittenLines hcut hbs) houtLines
      fun i hi => ?_
    · exact fun l hl => endsHead_of_isClassLine (hcut.beginsClass l hl)
    · obtain ⟨hne, hi⟩ := (mem_needsIn_template hcat hs').mp hi
      refine ⟨(mem_needsIn_template hcat hs).mpr ⟨fun hnil => hne ?_, hi⟩, ?_⟩
      · rw [hnil] at houtlines
        exact map_eq_nil_iff.mp houtlines
      · simp only [mem_cons, not_mem_nil, or_false] at hi
        rcases hi with rfl | rfl <;> rfl
  cases hedits : g'.edits with
  | mk classes directives =>
      rw [hedits] at hclasses hdirectives
      rw [show classes = [] from hclasses, show directives = none from hdirectives]

/-- Two classes, the one with an annotation and the other with type parameters, a comment between
    them and a constructor. -/
theorem generate_template_settles_pair :
    ∃ (text : Text) (r : Request) (g : Generation) (cs : List SourceClass),
      r.category = some .jsonSerializable ∧ r.HasLineName ∧ generate text r = .ok g
      ∧ scan text = .ok cs ∧ g.edits.classes.length = 2
      ∧ ∃ out g' cs', g.edits.apply text = .ok out ∧ generate out r = .ok g' ∧ g'.edits = {}
        ∧ scan out = .ok cs' ∧ (cs'.filter SourceClass.isValid).map SourceClass.outline
          = (cs.filter SourceClass.isValid).map SourceClass.outline := by
  let text : Text :=
    ("// a\nimport 'b.dart';\n\n@JsonSerializable()\nclass A \x7b\n  int x;\n\x7d\n"
    ++ "abstract class B<T /* t */ extends A> extends A \x7b\n  B(this.y);\n"
    ++ "  final Map<String, T>? y;\n\x7d").toList
  let r : Request := { category := some .jsonSerializable, fileName := some "f" }
  have hname : r.HasLineName := fun _ => by decide
  obtain ⟨hgenerate, hscan⟩ :
      (generate text r).toOption.map (·.edits.classes.length) = some 2
      ∧ (scan text).toOption.map (fun cs => decide (∀ c ∈ cs, c.isValid = true →
        c.isRewritable = true)) = some true := by decide +kernel
  simp only [Option.map_eq_some_iff, toOption_eq_some, decide_eq_true_eq] at hgenerate hscan
  obtain ⟨g, hg, hlength⟩ := hgenerate
  obtain ⟨cs, hs, hw⟩ := hscan
  exact ⟨text, r, g, cs, rfl, hname, hg, hs, hlength,
    generate_template_settles rfl hname hg hs hw⟩

/-- A text with these valid classes is written from the template, and a second pass has more to do
    or finds other valid classes. -/
def StaysUnsettled (text : Text) (outlines : List (Declaration × Bool × List Field)) : Prop :=
  ∃ (r : Request) (g g' : Generation) (out : Text) (cs cs' : List SourceClass),
    r.category = some .jsonSerializable ∧ r.HasLineName ∧ generate text r = .ok g
    ∧ scan text = .ok cs ∧ (cs.filter SourceClass.isValid).map SourceClass.outline = outlines
    ∧ g.edits.apply text = .ok out ∧ generate out r = .ok g' ∧ scan out = .ok cs'
    ∧ ¬ (g'.edits = {} ∧ (cs'.filter SourceClass.isValid).map SourceClass.outline = outlines)

/-- Two passes one after the other tell. -/
theorem staysUnsettled_of_passes {name : Text} {outlines : List (Declaration × Bool × List Field)}
    (hname : '\n' ∉ name)
    (h : ((generate text
        { category := some .jsonSerializable, fileName := some name }).toOption.bind
      fun g => (scan text).toOption.bind fun cs => (g.edits.apply text).toOption.bind fun out =>
      (generate out { category := some .jsonSerializable, fileName := some name }).toOption.bind
      fun g' => (scan out).toOption.map fun cs' =>
        decide ((cs.filter SourceClass.isValid).map SourceClass.outline = outlines
          ∧ ¬ (g'.edits = {}
            ∧ (cs'.filter SourceClass.isValid).map SourceClass.outline = outlines))) = some true) :
    StaysUnsettled text outlines := by
  simp only [Option.bind_eq_some_iff, Option.map_eq_some_iff, toOption_eq_some,
    decide_eq_true_eq] at h
  obtain ⟨g, hg, cs, hs, out, hout, g', hg', cs', hs', hfound, hunsettled⟩ := h
  exact ⟨{ category := some .jsonSerializable, fileName := some name }, g, g', out, cs, cs', rfl,
    fun _ => hname, hg, hs, hfound, hout, hg', hs', hunsettled⟩

/-- A comment between the type arguments of a superclass runs into the line of the declaration, a
    field whose type is its class is taken for a constructor, and an annotation at the end of a
    class is lost to the class below. -/
theorem generate_template_unsettled :
    StaysUnsettled "class Foo extends Bar<\n    A, // left\n    B> \x7b\n  int x;\n\x7d\n".toList
      [({ name := some "Foo".toList, superclass := some "Bar< A, // left B>".toList }, false,
        [{ rawType := "int".toList, sourceName := "x".toList, isFinal := false }])]
    ∧ StaysUnsettled "class Foo \x7b\n  x; Foo y;\n\x7d".toList
      [({ name := some "Foo".toList }, false,
        [{ rawType := "Foo".toList, sourceName := "x".toList, isFinal := false }])]
    ∧ StaysUnsettled
      "class A \x7b\n  int x;\n@JsonSerializable() \x7d\nclass B \x7b\n  int y;\n\x7d".toList
      [({ name := some "A".toList }, false,
        [{ rawType := "int".toList, sourceName := "x".toList, isFinal := false }]),
      ({ name := some "B".toList }, false,
        [{ rawType := "int".toList, sourceName := "y".toList, isFinal := false }])] := by
  have hname : '\n' ∉ "f".toList := by decide
  refine ⟨?_, ?_, ?_⟩
  · exact staysUnsettled_of_passes hname (by decide +kernel)
  · exact staysUnsettled_of_passes hname (by decide +kernel)
  · exact staysUnsettled_of_passes hname (by decide +kernel)

end DartData
