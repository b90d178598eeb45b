import DartData.Proofs.Scan.Blocks

/-!
# Depth along a class

The lines of a class, read one after another from its declaration on, come down to depth zero with
the last of them (`scan_depth`).  Lines are counted from zero here: the line `k` of a class that
begins on the line `s` of its file is the line `s + k` of the file.
-/

namespace DartData

open List Text

/-! ## §1. Lines one after another. -/

/-- The depths after some lines. -/
def Brackets.feedAll (b : Brackets) (ls : List Text) : Brackets := ls.foldl feed b

/-- The line `k`, which is empty beyond the last one. -/
def lineAt (ls : List Text) (k : Nat) : Text := ls.getD k []

/-- The depth of curly brackets in front of the line `k`. -/
def depthBefore (ls : List Text) (k : Nat) : Int := (Brackets.feedAll {} (ls.take k)).curly

/-- The code of the line `k`. -/
def codeAt (ls : List Text) (k : Nat) : Text :=
  ((Brackets.feedAll {} (ls.take k)).lexer.feed (lineAt ls k)).1

section

variable {ls rest : List Text} {line : Text} {k : Nat}

section

variable (h : ls.drop k = line :: rest)
include h

theorem lt_length_of_drop : k < ls.length := by
  rcases Nat.lt_or_ge k ls.length with hlt | hge
  · exact hlt
  · rw [drop_eq_nil_of_le hge] at h
    cases h

theorem lineAt_of_drop : lineAt ls k = line := by
  have hget : ls[k]? = some line := by rw [← head?_drop, h]; rfl
  rw [lineAt, getD_eq_getElem?_getD, hget]
  rfl

theorem drop_succ_of_drop : ls.drop (k + 1) = rest := by
  rw [← drop_drop, h]
  rfl

theorem take_succ_of_drop : ls.take (k + 1) = ls.take k ++ [line] := by
  have hget : ls[k]? = some line := by rw [← head?_drop, h]; rfl
  rw [take_add_one, hget]
  rfl

theorem feedAll_take_succ :
    Brackets.feedAll {} (ls.take (k + 1)) = (Brackets.feedAll {} (ls.take k)).feed line := by
  rw [take_succ_of_drop h, Brackets.feedAll, Brackets.feedAll, foldl_append]
  rfl

theorem depthBefore_succ :
    depthBefore ls (k + 1) = ((Brackets.feedAll {} (ls.take k)).feed line).curly := by
  rw [depthBefore, feedAll_take_succ h]

end

end

/-! ## §2. The lines of a class. -/

variable {c : SourceClass} {n : Int} {ls : List Text}

theorem Completes.closed {previous : Option Text} {o : OpenClass}
    (h : Completes c n previous o ls) :
    (o.brackets.feedAll ls).closed := by
  induction h with
  | close _ h => exact OpenClass.closed_of_read h
  | @keep n previous o o' line ls _ h _ ih =>
    rw [(OpenClass.read_some h).2.1] at ih
    exact ih

theorem FoundOn.closed {line : Text} (h : FoundOn c n line ls) :
    (Brackets.feedAll {} (line :: ls)).closed := by
  obtain ⟨-, o, hs, hread⟩ := h
  have hfresh : o.brackets = {} := by
    obtain ⟨d, -, hd⟩ := bind_eq_ok.mp hs
    injection hd with hd
    rw [← hd]
  rcases hread with ⟨rfl, hread⟩ | ⟨o', hread, hrest⟩
  · have := OpenClass.closed_of_read hread
    rwa [hfresh] at this
  · have := hrest.closed
    rwa [(OpenClass.read_some hread).2.1, hfresh] at this

/-- **The depth along a class.**  A complete class stands on the lines of its content, and its last
    line brings the depth down to zero. -/
theorem scan_depth {text : Text} {cs : List SourceClass} (h : scan text = .ok cs) (hc : c ∈ cs)
    {e : Int} (he : c.last = some e) :
    ∃ s : Int, c.first = some s ∧ c.content.lines = span text.lines s e
      ∧ 1 ≤ s ∧ s ≤ e ∧ e ≤ text.lines.length ∧ (c.content.lines.length : Int) = e - s + 1
      ∧ depthBefore c.content.lines c.content.lines.length = 0 := by
  obtain ⟨s, -, hrep⟩ := (scan_laid h).2 c hc
  obtain ⟨hl, -, hst⟩ := hrep.stands e he
  have hse : (s : Int) ≤ e := Int.le_trans hst.first_le hst.headLast_le
  have hlen := length_span hst.one_le_first hse hst.last_le
  have hlines : c.content.lines = span text.lines s e := by
    rw [hst.content_eq, lines_unlines]
    · intro hnil
      rw [hnil, length_nil] at hlen
      omega
    · exact fun l hl => not_mem_of_mem_lines (mem_of_mem_span hl)
  refine ⟨s, hrep.first_eq, hlines, hst.one_le_first, hse, hst.last_le, hlines ▸ hlen, ?_⟩
  -- a class is complete with the line that closes its brackets
  rcases scanLines_completes (by simp [he]) text.lines 1 none none cs (by simp) h hc with
    ⟨o, mine, hno, -⟩ | ⟨above, line, mine, hpre, hfound⟩
  · cases hno
  · have hcontent : c.content.lines = line :: mine := by
      rw [hfound.content_eq.1]
      refine lines_unlines (cons_ne_nil _ _) fun l hl => ?_
      exact not_mem_of_mem_lines (hpre.subset (mem_append_right above hl))
    have hclosed := hfound.closed
    rw [Brackets.closed, Bool.and_eq_true, beq_iff_eq] at hclosed
    rw [depthBefore, take_length, hcontent]
    exact hclosed.2

end DartData
