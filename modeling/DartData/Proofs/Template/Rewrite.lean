import DartData.Proofs.Scan.Blocks
import DartData.Proofs.Template.Layout

/-!
# Files written from the template

The template takes the place of each class of a file, with its annotation above it if the lines
above do not end with one.  Whether a class is written and how is decided by the lines that stood
above it before; what is found and what a second pass would do, by those that stand above it after.
Both agree on the annotation (`ClassBlock.Rewritten`), so a scan finds the classes again with the
same heads and fields, and all of them would be left as they are (`scanLines_rewritten`).
-/

namespace DartData

open List Text

/-! ## §1. Annotations. -/

/-- Whether the last of the lines that is not blank begins with the annotation of the template. -/
def endsMarked (ls : List Text) : Bool :=
  (ls.reverse.find? fun l => !l.allBlank).any fun l => l.trim.startsWith templateMark

theorem head?_dropWhile_allBlank (ls : List Text) :
    (ls.dropWhile allBlank).head? = ls.find? fun l => !l.allBlank := by
  induction ls with
  | nil => rfl
  | cons l ls ih => cases hl : l.allBlank <;> simp [hl, ih]

theorem endsMarked_append_blank {ms : List Text} (h : ∀ l ∈ ms, l.allBlank)
    (ls : List Text) : endsMarked (ls ++ ms) = endsMarked ls := by
  have hnone : ms.reverse.find? (fun l => !l.allBlank) = none :=
    find?_eq_none.mpr fun l hl => by simp [h l (mem_reverse.mp hl)]
  rw [endsMarked, reverse_append, find?_append, hnone, Option.none_or, endsMarked]

theorem endsMarked_append_filled {ms : List Text} (h : ∃ l ∈ ms, l.allBlank = false)
    (ls : List Text) : endsMarked (ls ++ ms) = endsMarked ms := by
  obtain ⟨l, hl, hfilled⟩ := h
  have hsome : (ms.reverse.find? fun l => !l.allBlank).isSome :=
    find?_isSome.mpr ⟨l, mem_reverse.mpr hl, by simp [hfilled]⟩
  rw [endsMarked, reverse_append, find?_append, Option.or_of_isSome hsome, endsMarked]

/-- What stands further up does not matter, if it makes no difference by itself. -/
theorem endsMarked_append_congr {ls ls' : List Text} (h : endsMarked ls = endsMarked ls')
    (ms : List Text) : endsMarked (ls ++ ms) = endsMarked (ls' ++ ms) := by
  by_cases hfilled : ∃ l ∈ ms, l.allBlank = false
  · rw [endsMarked_append_filled hfilled, endsMarked_append_filled hfilled]
  · have hblank : ∀ l ∈ ms, l.allBlank := fun l hl =>
      Bool.not_eq_false _ ▸ fun hno => hfilled ⟨l, hl, hno⟩
    rw [endsMarked_append_blank hblank, endsMarked_append_blank hblank, h]

/-- A class is annotated if the lines above it end with the annotation. -/
theorem SourceClass.isAnnotatedIn_eq {c : SourceClass} {text : Text} {above below : List Text}
    (hlines : text.lines = above ++ below) (hne : below ≠ [])
    (hfirst : c.first = some (above.length + 1 : Int)) :
    c.isAnnotatedIn text = .ok (endsMarked above) := by
  have hpos : 0 < below.length := length_pos_iff.mpr hne
  rw [isAnnotatedIn, hfirst]
  dsimp only
  by_cases hnil : above = []
  · subst hnil
    rfl
  · have habove : 0 < above.length := length_pos_iff.mpr hnil
    have hnumber : ((above.length : Int) + 1 - 1).toNat = above.length := by omega
    rw [if_neg (by omega), if_neg (by rw [hlines, length_append]; omega), hnumber, hlines,
      take_left, head?_dropWhile_allBlank]
    rfl

/-! ## §2. One class. -/

/-- Whether a class can be written from the template and be found again with nothing left to do:
    its head and its fields can be written, and it does not end with an annotation, which would go
    to the class below and be lost with the lines. -/
def SourceClass.isRewritable (c : SourceClass) : Bool :=
  c.isWritable && !endsMarked c.content.lines

/-- A class as its declaration and those of its fields have it. -/
def SourceClass.outline (c : SourceClass) : Declaration × Bool × List Field :=
  (c.head, c.isAbstract, c.fields.map Field.bare)

theorem SourceClass.fromTemplate_congr {c d : SourceClass} (h : c.outline = d.outline)
    (annotate : Bool) : c.fromTemplate annotate = d.fromTemplate annotate := by
  simp only [outline, Prod.mk.injEq] at h
  rw [fromTemplate_eq, fromTemplate_eq, templateLayout_congr h.1 h.2.1 h.2.2]

theorem SourceClass.outline_movedUp (c : SourceClass) (k : Int) :
    (c.movedUp k).outline = c.outline := by
  show (c.head, c.isAbstract, (c.fields.map (·.movedUp k)).map Field.bare) = _
  rw [map_map]
  rfl

theorem SourceClass.outline_rewritten (c : SourceClass) (n : Int) :
    (c.rewritten n).outline = c.outline := by
  rw [outline, c.isAbstract_rewritten n, c.map_bare_rewritten n]
  rfl

theorem sameUpToBlanks_self (t : Text) : sameUpToBlanks t t := beq_self_eq_true _

namespace ClassBlock

/-- Whether the class is left as it is, since the template would change white space only. -/
def isKept (b : ClassBlock) (marked : Bool) : Bool :=
  sameUpToBlanks (b.found.fromTemplate (!marked)) b.found.content

/-- The lines of the class after it was written, if those above it end with an annotation or not. -/
def newLines (b : ClassBlock) (marked : Bool) : List Text :=
  if b.isKept marked then b.lines
  else SourceClass.markLines (!marked) ++ b.found.templateLayout.lines

/-- What becomes of a class: `marks` is the annotation that is written above it, and on the lines
    `ls` it is found again and would be left as it is. -/
structure Rewritten (b : ClassBlock) (marked : Bool) (marks ls : List Text) : Prop where
  lines_eq : b.newLines marked = marks ++ ls
  barren : ∀ {gap : List Text}, Barren gap → Barren (gap ++ marks)
  not_marked : ∀ above : List Text, endsMarked (above ++ (marks ++ ls)) = false
  found : ∀ (n : Nat) (above : List Text), endsMarked above = marked → ∃ c : SourceClass,
    IsClassOn ls n c ∧ c.isValid = true ∧ c.outline = b.found.outline ∧ c.first = some (n : Int)
      ∧ sameUpToBlanks (c.fromTemplate (!endsMarked (above ++ marks))) c.content = true

variable {b : ClassBlock} {n : Nat}

/-- What the lines of a class end with, whatever stands above them. -/
theorem Stands.endsMarked_append (h : b.Stands n) (hlines : ∀ l ∈ b.lines, '\n' ∉ l)
    (above : List Text) : endsMarked (above ++ b.lines) = endsMarked b.found.content.lines := by
  obtain ⟨line, mine, hcut, hfound⟩ := h.found
  have hclass : line.allBlank = false := by
    cases hblank : line.allBlank with
    | false => rfl
    | true => exact absurd hfound.1 (by simp [isClassLine_of_allBlank hblank])
  rw [hfound.content_eq.1, ← hcut, lines_unlines (by simp [hcut]) hlines,
    endsMarked_append_filled ⟨line, by simp [hcut], hclass⟩]

/-- A class that is left as it is. -/
theorem Stands.kept (h : b.Stands n) (hlines : ∀ l ∈ b.lines, '\n' ∉ l)
    (hend : endsMarked b.found.content.lines = false) {marked : Bool} (hk : b.isKept marked) :
    b.Rewritten marked [] b.lines := by
  obtain ⟨line, mine, hcut, hfound⟩ := h.found
  refine ⟨by rw [newLines, hk]; rfl, fun hgap => by rwa [append_nil], fun above => ?_,
    fun m above habove => ?_⟩
  · rw [nil_append, h.endsMarked_append hlines, hend]
  · refine ⟨b.found.movedUp (n - m), ?_, ?_, b.found.outline_movedUp _, ?_, ?_⟩
    · have hmoved := hfound.movedUp (n - m)
      rw [show (n : Int) - (n - m) = m by omega] at hmoved
      rw [hcut]
      exact hmoved.isClassOn
    · rw [SourceClass.isValid_movedUp, h.valid]
    · show b.found.first.map (· - ((n : Int) - m)) = _
      rw [hfound.content_eq.2, Option.map_some]
      congr 1
      omega
    · rw [append_nil, habove, SourceClass.fromTemplate_congr (b.found.outline_movedUp _)]
      exact hk

/-- A class that is written from the template. -/
theorem Stands.written (h : b.Stands n) {name : Text} (hw : b.found.Writable name) {marked : Bool}
    (hk : b.isKept marked = false) :
    b.Rewritten marked (SourceClass.markLines (!marked)) b.found.templateLayout.lines := by
  refine ⟨by rw [newLines, hk]; rfl, fun hgap => ?_, fun above => ?_, fun m above habove => ?_⟩
  · cases marked with
    | true => rwa [SourceClass.markLines, if_neg (by decide), append_nil]
    | false => exact hgap.concat (by decide) (by decide) (by decide)
  · obtain ⟨front, hfront⟩ : ∃ front, b.found.templateLayout.lines = front ++ [['}']] := by
      rw [ClassLayout.lines]
      simp only [← append_assoc, ← cons_append]
      exact ⟨_, rfl⟩
    rw [hfront, ← append_assoc, ← append_assoc,
      endsMarked_append_filled ⟨['}'], by decide, by decide⟩]
    decide
  -- the annotation stands above, or is written
  · have hmark : endsMarked (above ++ SourceClass.markLines (!marked)) := by
      cases marked with
      | true => rwa [SourceClass.markLines, if_neg (by decide), append_nil]
      | false =>
        have hfilled : ∃ l ∈ SourceClass.markLines (!false), l.allBlank = false :=
          ⟨_, mem_singleton_self _, by decide⟩
        rw [endsMarked_append_filled hfilled]
        decide
    refine ⟨b.found.rewritten m, hw.fits.isClassOn m, SourceClass.isValid_rewritten h.valid,
      b.found.outline_rewritten m, rfl, ?_⟩
    rw [hmark, SourceClass.fromTemplate_eq, b.found.templateLayout_rewritten m]
    exact sameUpToBlanks_self _

/-- **Each class of a file is found again, and would be left as it is.** -/
theorem Stands.rewritten (h : b.Stands n) (hlines : ∀ l ∈ b.lines, '\n' ∉ l) {name : Text}
    (hw : b.found.Writable name) (hend : endsMarked b.found.content.lines = false) (marked : Bool) :
    ∃ marks ls, b.Rewritten marked marks ls := by
  cases hk : b.isKept marked with
  | true => exact ⟨_, _, h.kept hlines hend hk⟩
  | false => exact ⟨_, _, h.written hw hk⟩

end ClassBlock

/-! ## §3. All classes. -/

/-- The lines of the blocks after their classes were written.  The lines `above` them are those that
    stood there before. -/
def rewrittenLines (above : List Text) : List ClassBlock → List Text
  | [] => []
  | b :: bs =>
    b.newLines (endsMarked above) ++ (b.gap ++ rewrittenLines (above ++ b.lines ++ b.gap) bs)

/-- In a file with these lines the class would be left as it is. -/
def SourceClass.SettledIn (c : SourceClass) (ls : List Text) : Prop :=
  ∃ above below, ls = above ++ below ∧ below ≠ [] ∧ c.first = some (above.length + 1 : Int)
    ∧ sameUpToBlanks (c.fromTemplate (!endsMarked above)) c.content = true

/-- A block whose class can be written and found again. -/
structure ClassBlock.Writable (b : ClassBlock) : Prop where
  lines : ∀ l ∈ b.lines, '\n' ∉ l
  found : ∃ name, b.found.Writable name
  not_marked : endsMarked b.found.content.lines = false

/-- **The scan of blocks that were written.**  Below the new lines `above` and `gap`, which end with
    an annotation if the old ones did, the classes are found again with their outlines, and all of
    them are settled. -/
theorem scanLines_rewritten {bs : List ClassBlock} (hbs : ∀ b ∈ bs, b.Writable) :
    ∀ (old above gap : List Text), Cut old bs → Barren gap →
      endsMarked (above ++ gap) = endsMarked old →
      ∃ cs, scanLines (above.length + 1) none none (gap ++ rewrittenLines old bs) = .ok cs
        ∧ (cs.filter SourceClass.isValid).map SourceClass.outline
          = (bs.map ClassBlock.found).map SourceClass.outline
        ∧ ∀ c ∈ cs, c.isValid → c.SettledIn (above ++ (gap ++ rewrittenLines old bs)) := by
  induction bs with
  | nil =>
    intro old above gap _ hgap _
    obtain ⟨cs, hcs, hno⟩ := (barren_iff (above.length + 1) none).mp hgap
    refine ⟨cs, ?_, ?_, fun c hc hv => ?_⟩
    · rw [rewrittenLines, append_nil, hcs]
    · rw [filter_isValid_eq_nil hno]
      rfl
    · simp [hno c hc] at hv
  | cons b bs ih =>
    intro old above gap ⟨hstands, hcut⟩ hgap hmarked
    have hb := hbs b mem_cons_self
    obtain ⟨name, hw⟩ := hb.found
    obtain ⟨marks, ls, hrew⟩ := hstands.rewritten hb.lines hw hb.not_marked (endsMarked old)
    obtain ⟨c, hclass, hvalid, houtline, hfirst, hsame⟩ :=
      hrew.found (above.length + 1 + (gap ++ marks).length) (above ++ gap) hmarked
    obtain ⟨as, has, hscan⟩ := (hrew.barren hgap).scanLines_class hclass none
      (b.gap ++ rewrittenLines (old ++ b.lines ++ b.gap) bs)
    -- above the next class, only the gap can make a difference
    have hnext : endsMarked (above ++ (gap ++ (marks ++ ls)) ++ b.gap)
        = endsMarked (old ++ b.lines ++ b.gap) := by
      refine endsMarked_append_congr ?_ _
      rw [← append_assoc, hrew.not_marked, hstands.endsMarked_append hb.lines, hb.not_marked]
    obtain ⟨cs, hcs, houtlines, hsettled⟩ := ih (forall_mem_cons.mp hbs).2
      (old ++ b.lines ++ b.gap) (above ++ (gap ++ (marks ++ ls))) b.gap hcut hstands.gap hnext
    have hwhole : gap ++ rewrittenLines old (b :: bs) = gap ++ marks
        ++ (ls ++ (b.gap ++ rewrittenLines (old ++ b.lines ++ b.gap) bs)) := by
      rw [rewrittenLines, hrew.lines_eq]
      simp
    have hline : above.length + 1 + (gap ++ marks).length + ls.length
        = (above ++ (gap ++ (marks ++ ls))).length + 1 := by
      simp only [length_append]
      omega
    rw [hwhole]
    refine ⟨as ++ c :: cs, ?_, ?_, ?_⟩
    · rw [hscan, hline, hcs]
      rfl
    · rw [filter_append, filter_isValid_eq_nil has, nil_append,
        filter_cons_of_pos hvalid, map_cons, houtline, houtlines]
      rfl
    · intro x hx hv
      rcases mem_append.mp hx with hx | hx
      · simp [has x hx] at hv
      rcases mem_cons.mp hx with rfl | hx
      · obtain ⟨line, rest, hls, -⟩ := hclass.begins
        refine ⟨above ++ gap ++ marks, ls ++ (b.gap ++ rewrittenLines (old ++ b.lines ++ b.gap) bs),
          by simp, by simp [hls], ?_, hsame⟩
        rw [hfirst]
        congr 1
        simp only [length_append]
        omega
      · obtain ⟨above', below, heq, hrest⟩ := hsettled x hx hv
        exact ⟨above', below, by rw [← heq]; simp, hrest⟩

end DartData
