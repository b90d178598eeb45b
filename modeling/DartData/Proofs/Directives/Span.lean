import DartData.Proofs.Directives.Block

/-!
# The lines of the block

The directives of a file stand on the lines from `first` to `last`, and these lines hold nothing
else but blank lines and the name of the library:

    1 ≤ first ≤ last ≤ number of lines
    values = the trimmed lines from first to last that are directives

Above the block there are no directives, and below it none that the reader could have come to.
Every class of the file begins below the block, so an edit of the block does not touch a class.
-/

namespace DartData

open List hiding span
open Text

/-! ## §1. Lines that are passed over. -/

theorem standsAtHead_true_iff {l : Text} :
    standsAtHead true l ↔ l.allBlank ∨ l.trim.startsWith "library" := by
  rw [standsAtHead, allBlank_trim, Bool.not_true, Bool.and_false, Bool.or_false, Bool.or_eq_true]

theorem standsAtHead_false_iff {l : Text} : standsAtHead false l
      ↔ l.allBlank ∨ l.trim.startsWith "library" ∨ l.trim.startsWith "//" := by
  rw [standsAtHead, allBlank_trim, Bool.not_false, Bool.and_true, Bool.or_eq_true, Bool.or_eq_true,
    or_assoc]

/-- A line that ends the block: it is filled, and neither a directive nor the name of the
    library. -/
def endsBlock (l : Text) : Bool :=
  !(l.allBlank || l.trim.startsWith "library" || isDirective l.trim)

theorem endsBlock_iff {l : Text} :
    endsBlock l ↔ standsAtHead true l = false ∧ isDirective l.trim = false := by
  rw [endsBlock, standsAtHead, allBlank_trim, Bool.not_true, Bool.and_false, Bool.or_false,
    Bool.not_eq_true', Bool.or_eq_false_iff]

/-- A directive that is not read stands below a line that ends the block. -/
theorem exists_endsBlock {below : List Text} (h : headDirectives true below = [])
    {before after : List Text} {l : Text} (heq : below = before ++ l :: after)
    (hl : isDirective l.trim) : ∃ x ∈ before, endsBlock x := by
  induction below generalizing before after l with
  | nil => simp at heq
  | cons x below ih =>
    have hx : isDirective x.trim = false := by
      cases hx : isDirective x.trim with
      | false => rfl
      | true =>
        rw [headDirectives_directive hx] at h
        exact absurd h (cons_ne_nil _ _)
    cases before with
    | nil =>
      obtain ⟨rfl, -⟩ := List.cons.inj heq
      simp [hx] at hl
    | cons y before =>
      obtain ⟨rfl, hbelow⟩ := List.cons.inj heq
      cases hs : standsAtHead true x with
      | false => exact ⟨x, mem_cons_self, endsBlock_iff.mpr ⟨hs, hx⟩⟩
      | true =>
        -- the reader passes over `x`, so the line that stops it is further down
        rw [headDirectives, hx, hs] at h
        obtain ⟨z, hz, hend⟩ := ih h hbelow hl
        exact ⟨z, mem_cons_of_mem x hz, hend⟩

/-! ## §2. The place of the block. -/

namespace Directives

/-- The directives `d` of a file with the lines `ls` stand on the lines `a` to `b`, counted from
    one, and fill them but for blank lines and the name of the library. -/
structure Fills (d : Directives) (ls : List Text) (a b : Nat) : Prop where
  first_eq : d.first = some a
  last_eq : d.last = some b
  one_le : 1 ≤ a
  le : a ≤ b
  le_length : b ≤ ls.length
  values_eq : d.values = ((span ls a b).map trim).filter isDirective
  others : ∀ l ∈ span ls a b, isDirective l.trim = false →
    l.allBlank = true ∨ l.trim.startsWith "library" = true
  begins : ∃ l, ls[a - 1]? = some l ∧ isDirective l.trim = true
  above : ∀ l ∈ ls.take (a - 1),
    l.allBlank = true ∨ l.trim.startsWith "library" = true ∨ l.trim.startsWith "//" = true
  below : ∀ before l after, ls.drop b = before ++ l :: after → isDirective l.trim = true →
    ∃ x ∈ before, endsBlock x = true
  class_below : ∀ i l, ls[i]? = some l → isClassLine l = true → b < i + 1

theorem span_block (above block below : List Text) :
    span (above ++ (block ++ below)) (above.length + 1 : Nat) (above.length + block.length : Nat)
      = block := by
  have hdrop : ((above.length + 1 : Nat) - 1 : Int).toNat = above.length := by omega
  rw [span, hdrop, Int.toNat_natCast, ← append_assoc, ← length_append, take_left,
    drop_left]

/-- **The lines of the block are filled with its directives.** -/
theorem StandsIn.fills {text : Text} {a b : Nat} (h : (read text).StandsIn text.lines a b) :
    (read text).Fills text.lines a b := by
  obtain ⟨above, block, below, hlines, hblock, ha, hb⟩ := h.cut
  have hspan : span text.lines a b = block := by rw [hlines, ha, hb, span_block]
  have htake : text.lines.take (a - 1) = above := by
    rw [hlines, ha, Nat.add_sub_cancel, take_left]
  have hdrop : text.lines.drop b = below := by
    rw [hlines, hb, ← append_assoc, ← length_append, drop_left]
  exact {
    first_eq := h.first_eq
    last_eq := h.last_eq
    one_le := h.one_le
    le := h.le
    le_length := h.le_length
    values_eq := by
      rw [(read_eq text).2.1, hspan, hlines, hblock.headDirectives_eq, blockDirectives,
        filter_map]
      rfl
    others := by
      intro l hl hd
      rw [hspan] at hl
      rcases hblock.passed l hl with hl | hl
      · simp [hd] at hl
      · exact standsAtHead_true_iff.mp hl
    begins := by
      obtain ⟨l, mid, rfl, hl⟩ := hblock.begins
      exact ⟨l, by rw [hlines, ha]; simp, hl⟩
    above := by
      intro l hl
      rw [htake] at hl
      have hs := hblock.headward l (mem_append_left block hl)
      rw [isHeadward, hblock.no_directive l hl, Bool.false_or] at hs
      exact standsAtHead_false_iff.mp hs
    below := by
      intro before l after heq hl
      exact exists_endsBlock hblock.nothing_below (hdrop ▸ heq) hl
    -- no line down to the end of the block begins a class
    class_below := by
      intro i l hi hclass
      rcases Nat.lt_or_ge i b with hlt | hge
      · have hmem : l ∈ text.lines.take b := by
          refine mem_of_getElem? (i := i) ?_
          rw [getElem?_take_of_lt hlt, hi]
        simp [h.no_class_line l hmem] at hclass
      · omega }

/-- A block that begins on a line has the directive of this line. -/
theorem Fills.values_ne_nil {d : Directives} {ls : List Text} {a b : Nat} (h : d.Fills ls a b) :
    d.values ≠ [] := by
  obtain ⟨l, hl, hd⟩ := h.begins
  have hone := h.one_le
  have hle := h.le
  have hmem : l ∈ span ls a b := by
    have hdrop : ((a : Int) - 1).toNat = a - 1 := by omega
    rw [span, hdrop, Int.toNat_natCast]
    refine mem_of_getElem? (i := 0) ?_
    rw [getElem?_drop, Nat.add_zero, getElem?_take_of_lt (by omega), hl]
  rw [h.values_eq]
  exact ne_nil_of_mem (mem_filter.mpr ⟨mem_map_of_mem hmem, hd⟩)

/-- **The block has a place if there are directives, and its place is exact**: its lines are the
    directives that were read, with nothing but blank lines and the name of the library between
    them, and all classes are below. -/
theorem read_fills (text : Text) :
    ((read text).hasPlace = true ↔ (read text).values ≠ [])
      ∧ ((read text).values ≠ [] → ∃ a b, (read text).Fills text.lines a b) := by
  rcases read_standsIn text with ⟨hfirst, hlast⟩ | ⟨a, b, h⟩
  · -- without a place nothing was read
    have hvalues := read_values_of_first hfirst
    exact ⟨by simp [hasPlace, hfirst, hvalues], fun hne => absurd hvalues hne⟩
  · have hplace : (read text).hasPlace = true := by simp [hasPlace, h.first_eq, h.last_eq]
    exact ⟨iff_of_true hplace h.fills.values_ne_nil, fun _ => ⟨a, b, h.fills⟩⟩

/-- A block with the name of the library inside. -/
theorem read_fills_between_comments :
    ∃ text : Text, (read text).values ≠ [] ∧ (read text).Fills text.lines 4 7
      ∧ text.lines.length = 10 := by
  let text : Text := ("// c\nlibrary m;\n\nimport 'b.dart';\n\n library n;\n"
    ++ "export 'a.dart';\n\n// d\nclass A \x7b\x7d").toList
  have hne : (read text).values ≠ [] := by decide +kernel
  obtain ⟨a, b, h⟩ := (read_fills text).2 hne
  obtain rfl : 4 = a := Option.some.inj (Eq.trans (by decide +kernel) h.first_eq)
  obtain rfl : 7 = b := Option.some.inj (Eq.trans (by decide +kernel) h.last_eq)
  exact ⟨text, hne, h, by decide +kernel⟩

end Directives

end DartData
