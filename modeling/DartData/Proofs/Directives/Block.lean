import DartData.Declaration
import DartData.Directives
import DartData.Proofs.Text.Lines
import DartData.Proofs.Text.Trim

/-!
# Where the directives stand

Directives are read from the head of a file: `headDirectives` says which lines are read, and
`readLines_eq` that these are the values.  The block that they form lies above every class of the
file (`read_standsIn`): a class line is no directive and may not stand among directives, so reading
stops there at the latest.
-/

namespace DartData

open List Text

/-! ## §1. Class lines among directives. -/

variable {l line : Text} {begun : Bool}

/-- A class line begins with a `c` or an `a`, blanks apart. -/
theorem head?_trim_of_isClassLine (h : isClassLine line) :
    line.trim.head? = some 'c' ∨ line.trim.head? = some 'a' := by
  simp only [isClassLine, startsWith, Bool.or_eq_true, List.isPrefixOf_iff_prefix] at h
  rcases h with ⟨r, hr⟩ | ⟨r, hr⟩
  · exact .inl (head?_trim (r := "lass " ++ r) (by rw [← hr]; rfl))
  · exact .inr (head?_trim (r := "bstract class " ++ r) (by rw [← hr]; rfl))

theorem isDirective_of_isClassLine (h : isClassLine line) : isDirective line.trim = false := by
  rcases head?_trim_of_isClassLine h with hc | hc <;>
    simp [isDirective, startsWithOneOf, directiveKeywords, startsWith_eq_false hc rfl]

theorem Directives.mayStand_of_isClassLine (d : Directives) (h : isClassLine line) :
    d.mayStand line.trim = false := by
  have hb : line.trim.allBlank = false := by
    rcases head?_trim_of_isClassLine h with hc | hc <;>
    · obtain ⟨r, hr⟩ := head?_eq_some_iff.mp hc
      rw [hr]
      rfl
  rcases head?_trim_of_isClassLine h with hc | hc <;>
    simp [mayStand, hb, startsWith_eq_false hc rfl]

/-! ## §2. The head of a file. -/

/-- Whether a line may stand at the head of a file without being a directive.  Below the first
    directive comments may not. -/
def standsAtHead (begun : Bool) (line : Text) : Bool :=
  line.trim.allBlank || line.trim.startsWith "library" || (line.trim.startsWith "//" && !begun)

/-- The directives at the head of a file; `begun` says whether there are some above. -/
def headDirectives (begun : Bool) : List Text → List Text
  | [] => []
  | l :: ls =>
    if isDirective l.trim then l.trim :: headDirectives true ls
    else if standsAtHead begun l then headDirectives begun ls
    else []

/-- A line that can be passed over or read at the head of a file. -/
def isHeadward (line : Text) : Bool := isDirective line.trim || standsAtHead false line

theorem Directives.mayStand_trim (d : Directives) (line : Text) :
    d.mayStand line.trim = standsAtHead (!d.values.isEmpty) line := by
  rw [standsAtHead, Bool.not_not]
  rfl

theorem standsAtHead_of_blank (h : line.allBlank) (begun : Bool) : standsAtHead begun line := by
  rw [standsAtHead, trim_eq_nil_iff.mpr h]
  rfl

theorem standsAtHead_false (h : standsAtHead begun line) : standsAtHead false line := by
  cases begun with
  | false => exact h
  | true =>
    rw [standsAtHead, Bool.not_true, Bool.and_false, Bool.or_false] at h
    rw [standsAtHead, h, Bool.true_or]

theorem isHeadward_of_stands (h : standsAtHead begun line) : isHeadward line := by
  rw [isHeadward, standsAtHead_false h, Bool.or_true]

/-- Lines at the head of a file begin with few characters only, blanks apart. -/
theorem head?_trim_of_isHeadward (h : isHeadward line) {c : Char}
    (hc : line.trim.head? = some c) (hb : isBlank c = false) : c ∈ ['i', 'e', 'p', 'l', '/'] := by
  obtain ⟨r, hr⟩ := head?_eq_some_iff.mp hc
  have hfirst : ∀ {p : Text} {d : Char}, p.head? = some d → line.trim.startsWith p → c = d := by
    intro p d hp hs
    obtain ⟨q, rfl⟩ := head?_eq_some_iff.mp hp
    rw [startsWith_iff, hr, cons_prefix_cons] at hs
    exact hs.1.symm
  simp only [isHeadward, isDirective, startsWithOneOf, directiveKeywords, standsAtHead,
    any_cons, any_nil, Bool.or_eq_true, Bool.or_false, Bool.not_false, Bool.and_true] at h
  rcases h with (h | h | h) | (h | h) | h
  · simp [hfirst (d := 'i') rfl h]
  · simp [hfirst (d := 'e') rfl h]
  · simp [hfirst (d := 'p') rfl h]
  · rw [hr] at h
    simp [allBlank, hb] at h
  · simp [hfirst (d := 'l') rfl h]
  · simp [hfirst (d := '/') rfl h]

theorem isClassLine_of_isHeadward (h : isHeadward line) : isClassLine line = false := by
  cases hc : isClassLine line with
  | false => rfl
  | true =>
    rcases head?_trim_of_isClassLine hc with hh | hh
    · exact absurd (head?_trim_of_isHeadward h hh (by decide)) (by decide)
    · exact absurd (head?_trim_of_isHeadward h hh (by decide)) (by decide)

theorem standsAtHead_of_isClassLine (h : isClassLine line) (begun : Bool) :
    standsAtHead begun line = false := by
  cases hs : standsAtHead begun line with
  | false => rfl
  | true => simp [isClassLine_of_isHeadward (isHeadward_of_stands hs)] at h

theorem headDirectives_directive (h : isDirective l.trim) (begun : Bool) (ls : List Text) :
    headDirectives begun (l :: ls) = l.trim :: headDirectives true ls := by
  rw [headDirectives, if_pos h]

theorem headDirectives_append {as : List Text}
    (h : ∀ l ∈ as, isDirective l.trim = false ∧ standsAtHead begun l) (ls : List Text) :
    headDirectives begun (as ++ ls) = headDirectives begun ls := by
  induction as with
  | nil => rfl
  | cons l as ih =>
    obtain ⟨hd, hs⟩ := h l mem_cons_self
    rw [cons_append, headDirectives, hd, hs]
    exact ih (forall_mem_cons.mp h).2

/-- A line that ends the head of a file. -/
def EndsHead (l : Text) : Prop := isDirective l.trim = false ∧ ∀ begun, standsAtHead begun l = false

theorem endsHead_of_isClassLine (h : isClassLine l) : EndsHead l :=
  ⟨isDirective_of_isClassLine h, standsAtHead_of_isClassLine h⟩

theorem headDirectives_end (hl : EndsHead l) (as : List Text) (begun : Bool) (ls : List Text) :
    headDirectives begun (as ++ l :: ls) = headDirectives begun as := by
  induction as generalizing begun ls with
  | nil =>
    show headDirectives begun (l :: ls) = []
    rw [headDirectives, hl.1, hl.2 begun]
    rfl
  | cons a as ih =>
    rw [cons_append, headDirectives, headDirectives, ih, ih]

/-- With a directive above, nothing more is read than without one. -/
theorem headDirectives_begun {ls : List Text} (h : headDirectives false ls = []) :
    headDirectives true ls = [] := by
  induction ls with
  | nil => rfl
  | cons l ls ih =>
    rw [headDirectives] at h ⊢
    split at h
    · exact absurd h (cons_ne_nil _ _)
    · next hd =>
      rw [if_neg hd]
      split
      · next hs =>
        rw [if_pos (standsAtHead_false hs)] at h
        exact ih h
      · rfl

/-! ## §3. Reading. -/

namespace Directives

theorem not_allBlank_of_isDirective (h : isDirective line.trim) : line.allBlank = false := by
  cases hb : line.allBlank with
  | false => rfl
  | true =>
    rw [trim_eq_nil_iff.mpr hb] at h
    simp [isDirective, startsWithOneOf, directiveKeywords, startsWith] at h

theorem isClassLine_of_isDirective (h : isDirective line.trim) : isClassLine line = false := by
  cases hc : isClassLine line with
  | false => rfl
  | true => simp [isDirective_of_isClassLine hc] at h

theorem endBefore_eq (d : Directives) (n : Nat) (previous : Option Text) :
    d.endBefore n previous = { d with last := (d.endBefore n previous).last } := by
  unfold endBefore
  split <;> rfl

/-- **The values are the directives at the head of the file**, and what was found are their
    lines. -/
theorem readLines_eq (ls : List Text) (d : Directives) (n : Nat) (previous : Option Text) :
    (d.readLines n previous ls).source = d.source ∧ (d.readLines n previous ls).values
        = d.values ++ headDirectives (!d.values.isEmpty) ls
      ∧ (d.readLines n previous ls).found
        = d.found ++ endLines (headDirectives (!d.values.isEmpty) ls) := by
  induction ls generalizing d n previous with
  | nil => simp [readLines, headDirectives]
  | cons raw rest ih =>
    unfold readLines
    by_cases hd : isDirective raw.trim
    · have hadd := ih (d.add n raw.trim) (n + 1) (some raw)
      have hbegun : (!(d.add n raw.trim).values.isEmpty) := by simp [add]
      rw [hbegun] at hadd
      rw [if_pos hd, headDirectives_directive hd]
      -- on the last line the block ends at once, with the same directives
      by_cases hr : rest.isEmpty
      · rw [if_pos hr, List.isEmpty_iff.mp hr]
        simp [add, headDirectives]
      · rw [if_neg hr, hadd.1, hadd.2.1, hadd.2.2]
        simp [add]
    · rw [if_neg hd, d.mayStand_trim raw]
      cases hs : standsAtHead (!d.values.isEmpty) raw with
      | false =>
        rw [Bool.not_false, Bool.or_true, if_pos rfl, endBefore_eq, headDirectives, if_neg hd, hs]
        simp
      | true =>
        have hhead : headDirectives (!d.values.isEmpty) (raw :: rest)
            = headDirectives (!d.values.isEmpty) rest := by rw [headDirectives, if_neg hd, hs]; rfl
        rw [hhead, Bool.not_true, Bool.or_false]
        by_cases hr : rest.isEmpty
        · rw [if_pos hr, List.isEmpty_iff.mp hr, endBefore_eq]
          simp [headDirectives]
        · rw [if_neg hr]
          exact ih d (n + 1) (some raw)

theorem read_eq (text : Text) :
    (read text).source = text ∧ (read text).values = headDirectives false text.lines
      ∧ (read text).found = endLines (headDirectives false text.lines) := by
  obtain ⟨hs, hv, hf⟩ := readLines_eq text.lines { source := text } 1 none
  exact ⟨hs, hv, hf⟩

/-! ## §4. The place of the block. -/

/-- The directives `block` between the lines `above` and `below` of a file. -/
structure IsBlock (above block below : List Text) : Prop where
  begins : ∃ l mid, block = l :: mid ∧ isDirective l.trim = true
  no_directive : ∀ l ∈ above, isDirective l.trim = false
  headward : ∀ l ∈ above ++ block, isHeadward l = true
  passed : ∀ l ∈ block, isDirective l.trim = true ∨ standsAtHead true l = true
  nothing_below : headDirectives true below = []

/-- What is known of the directives after the lines `pre`: the block has not ended, and it began on
    the first of the lines that is a directive. -/
structure Reads (d : Directives) (pre : List Text) : Prop where
  last_eq : d.last = none
  headward : ∀ l ∈ pre, isHeadward l = true
  unbegun : d.first = none → d.values = [] ∧ ∀ l ∈ pre, isDirective l.trim = false
  begun : ∀ a, d.first = some a → d.values ≠ [] ∧ ∃ above l mid, pre = above ++ l :: mid
    ∧ a = above.length + 1 ∧ isDirective l.trim = true ∧ (∀ x ∈ above, isDirective x.trim = false)
    ∧ ∀ x ∈ l :: mid, isDirective x.trim = true ∨ standsAtHead true x = true

/-- The block stands on the lines `a` to `b`. -/
structure StandsIn (d : Directives) (ls : List Text) (a b : Nat) : Prop where
  first_eq : d.first = some a
  last_eq : d.last = some b
  cut : ∃ above block below, ls = above ++ (block ++ below) ∧ IsBlock above block below
    ∧ a = above.length + 1 ∧ b = above.length + block.length

namespace StandsIn

variable {d : Directives} {ls : List Text} {a b : Nat}

theorem one_le (h : d.StandsIn ls a b) : 1 ≤ a := by
  obtain ⟨above, block, below, -, -, ha, -⟩ := h.cut
  omega

theorem le (h : d.StandsIn ls a b) : a ≤ b := by
  obtain ⟨above, block, below, -, hblock, ha, hb⟩ := h.cut
  obtain ⟨l, mid, rfl, -⟩ := hblock.begins
  rw [ha, hb, length_cons]
  omega

theorem le_length (h : d.StandsIn ls a b) : b ≤ ls.length := by
  obtain ⟨above, block, below, rfl, -, -, hb⟩ := h.cut
  simp [hb]

theorem no_class_line (h : d.StandsIn ls a b) : ∀ l ∈ ls.take b, isClassLine l = false := by
  obtain ⟨above, block, below, rfl, hblock, -, rfl⟩ := h.cut
  intro l hl
  rw [← append_assoc, ← length_append, take_left] at hl
  exact isClassLine_of_isHeadward (hblock.headward l hl)

end StandsIn

variable {d : Directives} {pre : List Text} {raw : Text}

/-- A directive begins the block or goes on with it. -/
theorem Reads.add (h : d.Reads pre) (hd : isDirective raw.trim) :
    (d.add (pre.length + 1) raw.trim).Reads (pre ++ [raw]) where
  last_eq := h.last_eq
  headward := by
    intro l hl
    rcases mem_append.mp hl with hl | hl
    · exact h.headward l hl
    · rw [mem_singleton.mp hl, isHeadward, hd, Bool.true_or]
  unbegun := fun hno => nomatch hno
  begun := by
    intro a ha
    refine ⟨by simp [Directives.add], ?_⟩
    have ha : d.first.getD (pre.length + 1) = a := by injection ha
    -- the block begins with this line, or goes on
    cases hf : d.first with
    | none =>
      rw [hf, Option.getD_none] at ha
      exact ⟨pre, raw, [], rfl, ha.symm, hd, (h.unbegun hf).2, by simp [hd]⟩
    | some a' =>
      rw [hf, Option.getD_some] at ha
      subst ha
      obtain ⟨-, above, l, mid, rfl, ha, hl, habove, hpassed⟩ := h.begun a' hf
      refine ⟨above, l, mid ++ [raw], by simp, ha, hl, habove, fun x hx => ?_⟩
      rcases mem_append.mp (cons_append ▸ hx) with hx | hx
      · exact hpassed x hx
      · exact .inl (mem_singleton.mp hx ▸ hd)

/-- A line that may stand among directives is passed over. -/
theorem Reads.skip (h : d.Reads pre) (hd : isDirective raw.trim = false)
    (hm : d.mayStand raw.trim) :
    d.Reads (pre ++ [raw]) where
  last_eq := h.last_eq
  headward := by
    intro l hl
    rcases mem_append.mp hl with hl | hl
    · exact h.headward l hl
    · rw [d.mayStand_trim] at hm
      exact mem_singleton.mp hl ▸ isHeadward_of_stands hm
  unbegun := by
    intro hf
    refine ⟨(h.unbegun hf).1, fun l hl => ?_⟩
    rcases mem_append.mp hl with hl | hl
    · exact (h.unbegun hf).2 l hl
    · exact mem_singleton.mp hl ▸ hd
  begun := by
    intro a ha
    obtain ⟨hv, above, l, mid, rfl, ha, hl, habove, hpassed⟩ := h.begun a ha
    refine ⟨hv, above, l, mid ++ [raw], by simp, ha, hl, habove, fun x hx => ?_⟩
    rcases mem_append.mp (cons_append ▸ hx) with hx | hx
    · exact hpassed x hx
    · rw [d.mayStand_trim, isEmpty_eq_false_iff.mpr hv] at hm
      exact .inr (mem_singleton.mp hx ▸ hm)

/-- Where the block ends, if nothing more is read from the lines `rest` below `pre`: a blank line at
    its end is left out, and is not the line on which the block began. -/
theorem Reads.endBefore (h : d.Reads pre) {rest : List Text}
    (hrest : headDirectives true rest = []) :
    ((d.endBefore (pre.length + 1) pre.getLast?).first = none
        ∧ (d.endBefore (pre.length + 1) pre.getLast?).last = none)
      ∨ ∃ a b, (d.endBefore (pre.length + 1) pre.getLast?).StandsIn (pre ++ rest) a b := by
  cases hf : d.first with
  | none => exact .inl (by simp [Directives.endBefore, hf, h.last_eq])
  | some a =>
    obtain ⟨-, above, l, mid, rfl, rfl, hl, habove, hpassed⟩ := h.begun a hf
    have hfirst : ∀ n p, (d.endBefore n p).first = some (above.length + 1) := by
      intro n p
      rw [endBefore_eq]
      exact hf
    cases hb : (above ++ l :: mid).getLast?.any allBlank with
    | false =>
      refine .inr ⟨_, _, hfirst _ _, ?_, above, l :: mid, rest, by simp,
        ⟨⟨l, mid, rfl, hl⟩, habove, h.headward, hpassed, hrest⟩, rfl, rfl⟩
      rw [endBefore, hf, hb, length_append]
      rfl
    | true =>
      -- the last line is blank, so it is below the directive `l`
      obtain ⟨x, hx, hblank⟩ := (Option.any_eq_true _ _).mp hb
      have hne : mid ≠ [] := by
        rintro rfl
        rw [getLast?_append, getLast?_singleton, Option.some_or, Option.some.injEq] at hx
        rw [← hx, not_allBlank_of_isDirective hl] at hblank
        exact Bool.false_ne_true hblank
      obtain ⟨mid, y, hmid⟩ := (eq_nil_or_concat mid).resolve_left hne
      rw [concat_eq_append] at hmid
      subst hmid
      have hy : y.allBlank := by
        have hlast : (above ++ l :: (mid ++ [y])).getLast? = some y := by
          rw [← cons_append, ← append_assoc, getLast?_concat]
        rw [hlast, Option.some.injEq] at hx
        exact hx ▸ hblank
      have hbelow : headDirectives true (y :: rest) = [] := by
        have hd : isDirective y.trim = false := by
          cases hd : isDirective y.trim with
          | false => rfl
          | true => simp [not_allBlank_of_isDirective hd] at hy
        rw [headDirectives, hd, standsAtHead_of_blank hy]
        exact hrest
      refine .inr ⟨_, _, hfirst _ _, ?_, above, l :: mid, y :: rest, by simp,
        ⟨⟨l, mid, rfl, hl⟩, habove, fun x hx => h.headward x ?_, fun x hx => hpassed x ?_,
          hbelow⟩, rfl, rfl⟩
      · rw [endBefore, hf, hb]
        simp
      · rw [← cons_append, ← append_assoc]
        exact mem_append_left _ hx
      · rw [← cons_append]
        exact mem_append_left _ hx

/-- What is read later stands on lines of the text. -/
theorem readLines_standsIn (rest : List Text) (d : Directives) (pre : List Text) (h : d.Reads pre) :
    ((d.readLines (pre.length + 1) pre.getLast? rest).first = none
        ∧ (d.readLines (pre.length + 1) pre.getLast? rest).last = none)
      ∨ rest = []
      ∨ ∃ a b, (d.readLines (pre.length + 1) pre.getLast? rest).StandsIn (pre ++ rest) a b := by
  induction rest generalizing d pre with
  | nil => exact .inr (.inl rfl)
  | cons raw rest ih =>
    have happ : pre ++ raw :: rest = (pre ++ [raw]) ++ rest := by simp
    have hnum : pre.length + 1 + 1 = (pre ++ [raw]).length + 1 := by simp
    have hlast : some raw = (pre ++ [raw]).getLast? := by simp
    unfold readLines
    by_cases hd : isDirective raw.trim
    · rw [if_pos hd]
      have hadd := h.add hd
      by_cases hr : rest.isEmpty
      · -- the last line of the file is a directive
        rw [if_pos hr]
        rw [List.isEmpty_iff] at hr
        subst hr
        obtain ⟨a, ha⟩ : ∃ a, (d.add (pre.length + 1) raw.trim).first = some a := ⟨_, rfl⟩
        obtain ⟨-, above, l, mid, hpre, rfl, hl, habove, hpassed⟩ := hadd.begun a ha
        refine .inr (.inr ⟨_, pre.length + 1, ha, rfl, above, l :: mid, [], ?_,
          ⟨⟨l, mid, rfl, hl⟩, habove, hpre ▸ hadd.headward, hpassed, rfl⟩, rfl, ?_⟩)
        · rw [hpre, append_nil]
        · rw [← length_append, ← hpre, length_append, length_singleton]
      · rw [if_neg hr, hnum, hlast, happ]
        rcases ih _ _ hadd with h' | h' | h'
        · exact .inl h'
        · exact absurd (List.isEmpty_iff.mpr h') hr
        · exact .inr (.inr h')
    · rw [if_neg hd]
      by_cases hr : (rest.isEmpty || !d.mayStand raw.trim)
      · rw [if_pos hr]
        have hend : headDirectives true (raw :: rest) = [] := by
          rw [headDirectives, if_neg hd]
          split
          · next hs =>
            rw [d.mayStand_trim, Bool.or_eq_true, List.isEmpty_iff, Bool.not_eq_true'] at hr
            rcases hr with rfl | hr
            · rfl
            · cases hv : d.values.isEmpty with
              | false => rw [hv] at hr; simp [hs] at hr
              | true => rw [hv] at hr; simp [standsAtHead_false hs] at hr
          · rfl
        rcases h.endBefore hend with h' | h'
        · exact .inl h'
        · exact .inr (.inr h')
      · rw [if_neg hr, hnum, hlast, happ]
        simp only [Bool.or_eq_true, not_or, Bool.not_eq_true, Bool.not_eq_false'] at hr
        have hskip : d.Reads (pre ++ [raw]) := h.skip (by simpa using hd) (by simpa using hr.2)
        rcases ih d _ hskip with h' | h' | h'
        · exact .inl h'
        · exact absurd (List.isEmpty_iff.mpr h') (by simp [hr.1])
        · exact .inr (.inr h')

/-- **The directives of a file stand above its classes**, if there are any. -/
theorem read_standsIn (text : Text) : ((read text).first = none ∧ (read text).last = none)
      ∨ ∃ a b, (read text).StandsIn text.lines a b := by
  have h : Reads { source := text } [] := ⟨rfl, by simp, by simp, by simp⟩
  rcases readLines_standsIn text.lines _ _ h with h' | h' | h'
  · exact .inl h'
  · exact absurd h' (lines_ne_nil text)
  · exact .inr h'

/-- The first line of the block, once known, is not given up. -/
theorem first_readLines (ls : List Text) (d : Directives) (n : Nat) (previous : Option Text)
    (hd : d.first.isSome) : (d.readLines n previous ls).first = d.first := by
  induction ls generalizing d n previous with
  | nil => rfl
  | cons raw rest ih =>
    obtain ⟨a, ha⟩ := Option.isSome_iff_exists.mp hd
    have hadd : ∀ m l, (d.add m l).first = d.first := fun m l => by simp [add, ha]
    unfold readLines
    dsimp only
    split
    · split
      · exact hadd n raw.trim
      · exact (ih _ _ _ (by rw [hadd, hd])).trans (hadd n raw.trim)
    · split
      · rw [endBefore_eq]
      · exact ih _ _ _ hd

/-- A block without a place has no directives. -/
theorem readLines_eq_nil (ls : List Text) (d : Directives) (n : Nat) (previous : Option Text)
    (h : (d.readLines n previous ls).first = none) :
    headDirectives (!d.values.isEmpty) ls = [] := by
  induction ls generalizing d n previous with
  | nil => rfl
  | cons raw rest ih =>
    unfold readLines at h
    unfold headDirectives
    dsimp only at h
    split at h
    · have hadd : ∀ m l, (d.add m l).first.isSome := fun m l => rfl
      split at h
      · simp [add] at h
      · rw [first_readLines _ _ _ _ (hadd _ _)] at h
        simp [add] at h
    · next hd =>
      rw [if_neg hd, ← d.mayStand_trim]
      split at h
      · next hr =>
        rw [Bool.or_eq_true, List.isEmpty_iff, Bool.not_eq_true'] at hr
        rcases hr with rfl | hr
        · split <;> rfl
        · rw [hr]
          rfl
      · next hr =>
        split
        · exact ih d _ _ h
        · rfl

theorem read_values_of_first {text : Text} (h : (read text).first = none) :
    (read text).values = [] := by
  rw [(read_eq text).2.1]
  exact readLines_eq_nil text.lines { source := text } 1 none h

/-- The directives of a block, blanks around them apart. -/
def blockDirectives (block : List Text) : List Text :=
  (block.filter fun l => isDirective l.trim).map trim

/-- Lines that belong to the block are passed over. -/
theorem headDirectives_passed {ls : List Text}
    (h : ∀ l ∈ ls, isDirective l.trim ∨ standsAtHead true l) (rest : List Text) :
    headDirectives true (ls ++ rest) = blockDirectives ls ++ headDirectives true rest := by
  induction ls with
  | nil => rfl
  | cons l ls ih =>
    have hrest := ih fun x hx => h x (mem_cons_of_mem _ hx)
    cases hd : isDirective l.trim with
    | true =>
      rw [cons_append, headDirectives_directive hd, hrest]
      simp [blockDirectives, hd]
    | false =>
      have hs : standsAtHead true l := by
        rcases h l mem_cons_self with hl | hl
        · simp [hd] at hl
        · exact hl
      rw [cons_append, headDirectives, hd, hs]
      simpa [blockDirectives, hd] using hrest

/-- The lines above the block stand at the head of the file. -/
theorem above_stands {above block : List Text} (hno : ∀ l ∈ above, isDirective l.trim = false)
    (hhead : ∀ l ∈ above ++ block, isHeadward l) :
    ∀ l ∈ above, isDirective l.trim = false ∧ standsAtHead false l := by
  intro l hl
  have hs := hhead l (mem_append_left _ hl)
  rw [isHeadward, hno l hl, Bool.false_or] at hs
  exact ⟨hno l hl, hs⟩

/-- **The directives that are read are those of the block.** -/
theorem IsBlock.headDirectives_eq {above block below : List Text} (h : IsBlock above block below) :
    headDirectives false (above ++ (block ++ below)) = blockDirectives block := by
  have habove := above_stands h.no_directive h.headward
  obtain ⟨l, mid, rfl, hl⟩ := h.begins
  have hmid := headDirectives_passed (fun x hx => h.passed x (mem_cons_of_mem _ hx)) below
  rw [headDirectives_append habove, cons_append, headDirectives_directive hl, hmid,
    h.nothing_below]
  simp [blockDirectives, hl]

/-! ## §5. Adding. -/

@[simp] theorem require_first (d : Directives) (uri : Text) (alternatives : List Text) :
    (d.require uri alternatives).first = d.first := by
  unfold require
  split <;> rfl

@[simp] theorem require_last (d : Directives) (uri : Text) (alternatives : List Text) :
    (d.require uri alternatives).last = d.last := by
  unfold require
  split <;> rfl

end Directives

end DartData
