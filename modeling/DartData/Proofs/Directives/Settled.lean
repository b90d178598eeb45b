import DartData.Proofs.Directives.Rewrite

/-!
# Directives that were written over those of a file

The directives that are needed are sorted in with those at the head of a file, and the block is
written over the one that was found, or put at the top if there was none.  Whatever else stands at
the head of the file, what is read back are the same directives in order.  So nothing more is to be
done, if no more is needed than before (`Directives.TurnsHead.edit?_eq_none`).
-/

namespace DartData

open List Text

/-! ## §1. Reading a block that was written. -/

/-- Directives between blank lines are all found. -/
theorem headDirectives_lines {ls : List Text} (hls : ∀ l ∈ ls, IsHeadLine l) (begun : Bool)
    (rest : List Text) :
    headDirectives begun (ls ++ rest) = ls.filter (fun l => !l.allBlank)
        ++ headDirectives (begun || ls.any fun l => !l.allBlank) rest := by
  induction ls generalizing begun rest with
  | nil => simp
  | cons l ls ih =>
    have hrest := ih fun x hx => hls x (mem_cons_of_mem _ hx)
    rcases hls l mem_cons_self with hl | ⟨hl, ht⟩
    · have hd : isDirective l.trim = false := by
        cases hd : isDirective l.trim with
        | false => rfl
        | true => simp [Directives.not_allBlank_of_isDirective hd] at hl
      rw [cons_append, headDirectives, hd, standsAtHead_of_blank hl,
        filter_cons_of_neg (by simp [hl]), any_cons, hl]
      exact hrest begun rest
    · have hblank : l.allBlank = false := Directives.not_allBlank_of_isDirective (ht.symm ▸ hl)
      rw [cons_append, headDirectives_directive (ht.symm ▸ hl), ht,
        filter_cons_of_pos (by simp [hblank]), any_cons, hblank, hrest]
      simp

/-- A directive without blanks around it, on one line. -/
structure IsDirectiveLine (v : Text) : Prop where
  isDirective : isDirective v = true
  trim_eq : v.trim = v
  not_mem : '\n' ∉ v

theorem IsDirectiveLine.not_blank {v : Text} (h : IsDirectiveLine v) : v.allBlank = false :=
  Directives.not_allBlank_of_isDirective (h.trim_eq.symm ▸ h.isDirective)

/-- What is found at the head are directives on one line. -/
theorem isDirectiveLine_of_mem {ls : List Text} {v : Text} (hls : ∀ l ∈ ls, '\n' ∉ l)
    (begun : Bool) (hv : v ∈ headDirectives begun ls) : IsDirectiveLine v := by
  induction ls generalizing begun with
  | nil => exact absurd hv not_mem_nil
  | cons l ls ih =>
    have hrest := ih fun x hx => hls x (mem_cons_of_mem _ hx)
    rw [headDirectives] at hv
    split at hv
    · next hd =>
      rcases mem_cons.mp hv with rfl | hv
      · exact ⟨hd, l.trim_trim, fun hmem => hls l mem_cons_self (l.trim_sublist.subset hmem)⟩
      · exact hrest true hv
    · split at hv
      · exact hrest begun hv
      · exact absurd hv not_mem_nil

variable {package : Option Text} {vs : List Text}

theorem isHeadLine_block (hvs : ∀ v ∈ vs, IsDirectiveLine v) :
    ∀ l ∈ blockLines (sortedGroups package vs), IsHeadLine l := by
  intro l hl
  rcases mem_blockLines hl with rfl | hl
  · exact .inl rfl
  · have hv := hvs l (mem_flatten_sortedGroups.mp hl)
    exact .inr ⟨hv.isDirective, hv.trim_eq⟩

/-- **The block is read back in the order of the groups.** -/
theorem headDirectives_block (hvs : ∀ v ∈ vs, IsDirectiveLine v) (hne : vs ≠ []) (begun : Bool)
    (rest : List Text) :
    headDirectives begun (blockLines (sortedGroups package vs) ++ rest)
      = (sortedGroups package vs).flatten ++ headDirectives true rest := by
  have hfilter : (blockLines (sortedGroups package vs)).filter (fun l => !l.allBlank)
      = (sortedGroups package vs).flatten :=
    filter_blockLines fun l hl => (hvs l (mem_flatten_sortedGroups.mp hl)).not_blank
  have hany : (blockLines (sortedGroups package vs)).any (fun l => !l.allBlank) := by
    obtain ⟨l, ls, hl, hmem⟩ := Directives.block_cons package hne
    rw [hl, any_cons, (hvs l hmem).not_blank]
    rfl
  rw [headDirectives_lines (isHeadLine_block hvs), hfilter, hany, Bool.or_true]

namespace Directives

variable {text out : Text} {r : Request} {d : Directives}

/-- What is read stands on lines of its own, and what is added does if all that is asked for
    does. -/
theorem isDirectiveLine_of_wanted (text : Text) {is : List RequiredImport}
    (his : ∀ i ∈ is, IsDirectiveLine (wanted i)) :
    ∀ v ∈ ((read text).requireAll is).values, IsDirectiveLine v := by
  have hadds := (read text).adds is
  intro v hv
  rw [hadds.values_eq] at hv
  rcases mem_append.mp hv with hv | hv
  · rw [(read_eq text).2.1] at hv
    exact isDirectiveLine_of_mem (fun l => not_mem_of_mem_lines) false hv
  · obtain ⟨i, hi, rfl⟩ := hadds.are_wanted v hv
    exact his i hi

theorem isDirectiveLine_values (hname : r.HasLineName) :
    ∀ v ∈ ((read text).requireAll (r.needsIn text)).values, IsDirectiveLine v := by
  refine isDirectiveLine_of_wanted text fun i hi => ?_
  obtain ⟨c, hc⟩ := Request.needs_of_mem_needsIn hi
  exact ⟨isDirective_wanted i, trim_wanted hc, not_mem_wanted hc hname⟩

variable {e : DirectiveEdit} {above below block new rest : List Text}

/-- The head of the file with the block in its place, read again. -/
theorem Splices.headDirectives_eq (h : Splices text d package e above block below new)
    (hvs : ∀ v ∈ d.values, IsDirectiveLine v) (hne : d.values ≠ [])
    (hrest : headDirectives true rest = []) :
    headDirectives false (above ++ (new ++ rest)) = (sortedGroups package d.values).flatten := by
  have habove := above_stands h.no_directive h.headward
  have hblank : headDirectives true ([[]] ++ rest) = [] := by
    rw [headDirectives_append (by decide), hrest]
  have hformat := lines_format package (fun v hv => (hvs v hv).not_mem) hne
  rw [headDirectives_append habove]
  rcases h.new_eq with ⟨-, rfl⟩ | ⟨-, -, rfl⟩
  · rw [hformat, headDirectives_block hvs hne, hrest, append_nil]
  · rw [hformat, append_assoc, headDirectives_block hvs hne, hblank, append_nil]

/-- Below the block nothing is read, and nothing below the top if there was no block. -/
theorem Splices.headDirectives_below (h : Splices text d package e above block below new) :
    headDirectives true below = [] := by
  rcases h.new_eq with ⟨hne, -⟩ | ⟨rfl, rfl, -⟩
  · exact h.nothing_below hne
  · have hlines : text.lines = below := h.lines_eq
    have hvalues := h.values_eq
    rw [(read_eq text).2.1, hlines] at hvalues
    exact headDirectives_begun hvalues

/-! ## §2. The head of a file turned into another. -/

/-- The lines end the head of the file, if there are any. -/
def StopsHead (rest : List Text) : Prop := ∀ l, rest.head? = some l → EndsHead l

theorem headDirectives_stops (h : StopsHead rest) (begun : Bool) (as : List Text) :
    headDirectives begun (as ++ rest) = headDirectives begun as := by
  cases rest with
  | nil => rw [append_nil]
  | cons l ls => exact headDirectives_end (h l rfl) as begun ls

/-- The edit of the directives turns the lines `top` of a text, above its lines `body`, into the
    lines `top'`. -/
inductive TurnsHead (text : Text) (d : Directives) (package : Option Text) (body : List Text) :
    (top top' : List Text) → Prop
  | unchanged {top : List Text} (edit : d.edit? package = none)
      (lines_eq : text.lines = top ++ body) : TurnsHead text d package body top top
  | written {e : DirectiveEdit} {above block below new : List Text}
      (edit : d.edit? package = some e)
      (splices : Splices text d package e above block (below ++ body) new) :
      TurnsHead text d package body (above ++ (block ++ below)) (above ++ (new ++ below))

/-- **Nothing more is to be done to directives that were written**, if no more is needed. -/
theorem TurnsHead.edit?_eq_none {body body' top top' : List Text} {is : List RequiredImport}
    (h : TurnsHead text ((read text).requireAll (r.needsIn text)) package body top top')
    (hname : r.HasLineName) (hbody : StopsHead body) (hbody' : StopsHead body')
    (hout : out.lines = top' ++ body') (his : ∀ i ∈ is, i ∈ r.needsIn text ∧ i.alternatives = []) :
    ((read out).requireAll is).edit? package = none := by
  have hadds := (read text).adds (r.needsIn text)
  -- it is enough that the values are there and in order
  suffices hread : (∀ v ∈ ((read text).requireAll (r.needsIn text)).values, v ∈ (read out).values)
      ∧ (read out).edit? package = none by
    obtain ⟨hvalues, hedit⟩ := hread
    rw [requireAll_of_includes is fun i hi => ?_, hedit]
    obtain ⟨hmem, halternatives⟩ := his i hi
    rcases hadds.satisfied i hmem with hin | hin
    · exact includes_of_subset hvalues hin
    · rw [halternatives] at hin
      exact absurd hin (by simp [importsOneOf])
  have hfound : (read out).found = endLines (read out).values := by
    rw [(read_eq out).2.2, ← (read_eq out).2.1]
  cases h with
  | unchanged hedit hlines =>
    have hadded := added_eq_nil hedit
    have hvalues : (read out).values = ((read text).requireAll (r.needsIn text)).values := by
      rw [hadds.values_eq, hadded, append_nil, (read_eq out).2.1, hout,
        headDirectives_stops hbody', (read_eq text).2.1, hlines, headDirectives_stops hbody]
    refine ⟨fun v hv => hvalues ▸ hv, ?_⟩
    have hsame : (read out).isChanged package
        = ((read text).requireAll (r.needsIn text)).isChanged package := by
      rw [isChanged, isChanged, format_eq_blockLines, format_eq_blockLines, found_requireAll,
        hfound, hvalues, hadds.values_eq, hadded, append_nil]
    unfold edit? at hedit ⊢
    rw [hsame]
    split at hedit
    · simp at hedit
    · next hno => rw [if_neg hno]
  | @written e above block below new hedit hs =>
    have hne := values_ne_nil hedit
    have hbelow : headDirectives true (below ++ body') = [] := by
      rw [headDirectives_stops hbody', ← headDirectives_stops hbody]
      exact hs.headDirectives_below
    have hvalues : (read out).values
        = (sortedGroups package ((read text).requireAll (r.needsIn text)).values).flatten := by
      rw [(read_eq out).2.1, hout, append_assoc, append_assoc]
      exact hs.headDirectives_eq (isDirectiveLine_values hname) hne hbelow
    refine ⟨fun v hv => ?_, edit?_of_sorted hvalues (hvalues ▸ hfound)⟩
    rw [hvalues]
    exact mem_flatten_sortedGroups.mpr hv

end Directives

end DartData
