import DartData.Proofs.Outcome
import DartData.Proofs.Text.Lines

/-!
# What assembling a class keeps

A class is put together again line by line from its closing brace upwards.  A line below the
declaration that belongs neither to a constructor nor to a member that is written anew comes
through as it is, and such lines keep their order (`assemble_keeps`).  Nothing can fail on the way
if the class has as many lines as its line numbers say.
-/

namespace DartData

open List Text

/-! ## §1. Texts that end with their line. -/

/-- The text is empty or ends with a line feed, so that what follows it begins a line. -/
def Text.EndsLine (t : Text) : Prop := t = [] ∨ ∃ u, t = u ++ ['\n']

namespace Text

variable {l t u : Text}

theorem EndsLine.append (ht : t.EndsLine) (hu : u.EndsLine) : (t ++ u).EndsLine := by
  rcases hu with rfl | ⟨v, rfl⟩
  · simpa using ht
  · exact .inr ⟨t ++ v, by simp⟩

theorem endsLine_endLines (ls : List Text) : (endLines ls).EndsLine := by
  by_cases h : ls = []
  · exact .inl (by simp [h])
  · exact .inr ⟨_, endLines_eq_unlines h⟩

theorem endsLine_indent (t : Text) : t.indent.EndsLine := by
  rw [indent_eq_endLines]
  exact endsLine_endLines _

theorem endsLine_line (l : Text) : (l ++ ['\n']).EndsLine := .inr ⟨l, rfl⟩

/-- In front of a text, a text that ends with its line only adds lines. -/
theorem EndsLine.lines_append (h : t.EndsLine) :
    ∃ ls, ∀ u : Text, (t ++ u).lines = ls ++ u.lines := by
  rcases h with rfl | ⟨v, rfl⟩
  · exact ⟨[], fun u => rfl⟩
  · exact ⟨v.lines, fun u => by rw [append_assoc]; exact split_append_sep v u '\n'⟩

theorem lines_line_append (h : '\n' ∉ l) (u : Text) : (l ++ '\n' :: u).lines = l :: u.lines := by
  rw [lines, split_append_sep, split_eq_singleton h]
  rfl

theorem indent_line_append {line : Text} (hfeed : '\n' ∉ line) (hne : line ≠ []) (rest : Text) :
    indent (line ++ '\n' :: rest)
      = "  " ++ (line ++ '\n' :: endLines (rest.lines.map indentLine)) := by
  have hempty : line.isEmpty = false := by simpa using hne
  rw [indent_eq_endLines, lines_line_append hfeed, map_cons, endLines_cons, indentLine, hempty]
  simp

theorem EndsLine.sublist_lines (h : t.EndsLine) : u.lines.Sublist (t ++ u).lines := by
  obtain ⟨ls, hls⟩ := h.lines_append
  rw [hls]
  exact sublist_append_right ls u.lines

/-- A line between texts that end with their lines is a line of the whole. -/
theorem EndsLine.cons_sublist_lines {v : Text} (ht : t.EndsLine) (hv : v.EndsLine) (hl : '\n' ∉ l) :
    (l :: u.lines).Sublist (t ++ (l ++ '\n' :: (v ++ u))).lines := by
  obtain ⟨ls, hls⟩ := ht.lines_append
  rw [hls, lines_line_append hl]
  exact (hv.sublist_lines.cons_cons l).trans (sublist_append_right ls _)

end Text

/-! ## §2. Lines that are not touched. -/

namespace SourceClass

/-- Whether the line `n` of the class comes through unchanged: it stands below the declaration, and
    neither in a constructor nor in a member that is written anew. -/
def untouched (c : SourceClass) (n : Int) : Bool :=
  c.headLast.any (· < n) && !c.inOldConstructor n && !c.replaced.any (·.covers n)

/-- The lines among `ls` that come through unchanged, if the first of `ls` has the number `n`. -/
def untouchedLines (c : SourceClass) (n : Int) : List Text → List Text
  | [] => []
  | l :: ls =>
    if c.untouched n then l :: c.untouchedLines (n + 1) ls else c.untouchedLines (n + 1) ls

/-- One more line below. -/
theorem untouchedLines_concat (c : SourceClass) (ls : List Text) (l : Text) :
    ∀ n, c.untouchedLines n (ls ++ [l])
      = c.untouchedLines n ls ++ if c.untouched (n + ls.length) then [l] else [] := by
  induction ls with
  | nil =>
    intro n
    simp [untouchedLines]
  | cons l' ls ih =>
    intro n
    have hn : n + 1 + (ls.length : Int) = n + ((l' :: ls).length : Int) := by
      rw [length_cons]
      omega
    rw [cons_append, untouchedLines, untouchedLines, ih, hn]
    split <;> rfl

/-- The class has the lines that its line numbers say, and what is to be put into it ends with its
    line. -/
structure Assembles (c : SourceClass) (ls : List Text) (s h e : Int) : Prop where
  first_eq : c.first = some s
  headLast_eq : c.headLast = some h
  last_eq : c.last = some e
  one_le : 1 ≤ s
  first_le : s ≤ h
  headLast_le : h ≤ e
  lines_eq : c.content.lines = ls
  length_eq : (ls.length : Int) = e - s + 1
  insertion_ends : c.insertion.EndsLine
  constructor_ends : ∀ t, c.constructorText = some t → c.hasConstructor = false → t.EndsLine

variable {c : SourceClass} {e h s : Int} {after line x : Text} {ls : List Text}

theorem headOffset_eq (hh : c.headLast = some h) (h1 : 1 ≤ h) (s : Int) :
    c.headOffset s = h - s := by
  have hne : (h == 0) = false := by simp; omega
  simp [headOffset, hh, hne]

/-! ## §3. One line. -/

/-- The text `t` is made of `line`, if it is kept, in front of `after`. -/
def Puts (keeps : Bool) (line after t : Text) : Prop :=
  t.EndsLine ∧ ((if keeps then [line] else []) ++ after.lines).Sublist t.lines

theorem puts_front (hx : x.EndsLine) (ha : after.EndsLine) (line : Text) :
    Puts false line after (x ++ after) :=
  ⟨hx.append ha, by simpa using hx.sublist_lines⟩

theorem puts_line {y : Text} (hx : x.EndsLine) (hy : y.EndsLine) (ha : after.EndsLine)
    (hn : '\n' ∉ line) (keeps : Bool) :
    Puts keeps line after (x ++ (line ++ '\n' :: (y ++ after))) := by
  have hline : (line ++ '\n' :: (y ++ after)).EndsLine := by
    have := (endsLine_line line).append (hy.append ha)
    simpa using this
  have hsub : (line :: after.lines).Sublist (x ++ (line ++ '\n' :: (y ++ after))).lines :=
    hx.cons_sublist_lines hy hn
  refine ⟨hx.append hline, ?_⟩
  cases keeps with
  | true => exact hsub
  | false => exact (sublist_cons_self line after.lines).trans hsub

/-- What stands for one line, in front of what follows it. -/
theorem assembleLine_puts (hc : c.Assembles ls s h e) {k : Nat} (hk : ls[k]? = some line)
    (ha : after.EndsLine) :
    ∃ t, c.assembleLine ls s e k after = .ok t ∧ Puts (c.untouched (s + k)) line after t := by
  have hn : '\n' ∉ line := by
    have hm : line ∈ ls := mem_of_getElem? hk
    rw [← hc.lines_eq] at hm
    exact not_mem_of_mem_lines hm
  have hoff : c.headOffset s = h - s :=
    headOffset_eq hc.headLast_eq (Int.le_trans hc.one_le hc.first_le) s
  have hu : c.untouched (s + k) = (decide (h < s + k) && !c.inOldConstructor (s + k)
      && !c.replaced.any (·.covers (s + k))) := by
    simp [untouched, hc.headLast_eq]
  have hnil : EndsLine [] := .inl rfl
  unfold assembleLine
  rw [hk, hoff]
  dsimp only
  split
  next hhead =>
    -- a line of the declaration, which becomes one line
    rw [hu, decide_eq_false (by omega), Bool.false_and, Bool.false_and]
    split
    next hk0 =>
      have hlt : (h - s).toNat < ls.length := by
        have h₁ := hc.first_le
        have h₂ := hc.headLast_le
        have h₃ := hc.length_eq
        omega
      rw [getElem?_eq_getElem hlt]
      refine ⟨_, rfl, ?_⟩
      have := puts_front (endsLine_line (c.declarationLine
        ++ if ls[(h - s).toNat].has "\x7b" then " \x7b".toList else [])) ha line
      simpa [of] using this
    next => exact ⟨after, rfl, puts_front hnil ha line⟩
  next hhead =>
    split
    next hlast =>
      -- the new constructor follows the last field
      simp only [Bool.and_eq_true, Bool.not_eq_true', Option.isSome_iff_exists] at hlast
      obtain ⟨⟨-, t, ht⟩, hno⟩ := hlast
      have hends : EndsLine (['\n'] ++ t) :=
        (endsLine_line []).append (hc.constructor_ends t ht hno)
      refine ⟨_, rfl, ?_⟩
      have := puts_line hnil hends ha hn (c.untouched (s + k))
      simpa [of, ht] using this
    next =>
      split
      next =>
        refine ⟨_, rfl, ?_⟩
        have := puts_line hc.insertion_ends hnil ha hn (c.untouched (s + k))
        simpa [of] using this
      next =>
        split
        next hold =>
          -- a line of the old constructor
          rw [hu, hold, Bool.not_true, Bool.and_false, Bool.false_and]
          split
          · refine ⟨_, rfl, ?_⟩
            have := puts_front (endsLine_line ((c.constructorText.getD []).removeEnd "\n")) ha line
            simpa [of] using this
          · exact ⟨after, rfl, puts_front hnil ha line⟩
        next =>
          split
          next =>
            refine ⟨_, rfl, ?_⟩
            have := puts_line hnil hnil ha hn (c.untouched (s + k))
            simpa [of] using this
          next t hrep =>
            -- a line of a member that is replaced
            have hcov : c.replaced.any (·.covers (s + k)) := by
              rw [replacementAt, Option.bind_eq_some_iff] at hrep
              obtain ⟨m, hm, -⟩ := hrep
              have hm' := find?_some hm
              exact any_eq_true.mpr ⟨m, mem_of_find?_eq_some hm, hm'⟩
            rw [hu, hcov, Bool.not_true, Bool.and_false]
            refine ⟨_, rfl, ?_⟩
            split
            · exact puts_front hnil ha line
            · have := puts_front (endsLine_line t) ha line
              simpa [of] using this

/-! ## §4. The class. -/

/-- Line by line, what is not touched is kept in order. -/
theorem assembleLines_keeps (hc : c.Assembles ls s h e) :
    ∀ (k : Nat), k ≤ ls.length → ∀ (after : Text), after.EndsLine →
      ∃ t, c.assembleLines ls s e k after = .ok t ∧ t.EndsLine
        ∧ (c.untouchedLines s (ls.take k) ++ after.lines).Sublist t.lines := by
  intro k
  induction k with
  | zero => intro _ after ha; exact ⟨after, rfl, ha, by simp [untouchedLines]⟩
  | succ k ih =>
    intro hk after ha
    have hline : ls[k]? = some ls[k] := getElem?_eq_getElem (by omega)
    obtain ⟨u, hu, hue, hus⟩ := assembleLine_puts hc hline ha
    obtain ⟨t, ht, hte, hts⟩ := ih (by omega) u hue
    refine ⟨t, ?_, hte, ?_⟩
    · rw [assembleLines, hu]
      exact ht
    · have htake : ls.take (k + 1) = ls.take k ++ [ls[k]] := by
        rw [take_succ_eq_append_getElem]
      have hlen : (ls.take k).length = k := by
        rw [length_take]
        omega
      rw [htake, untouchedLines_concat, hlen, append_assoc]
      exact (hus.append_left _).trans hts

/-- **Assembling a class keeps its untouched lines**, and does not fail. -/
theorem assemble_keeps (hc : c.Assembles ls s h e) :
    ∃ t, c.assemble = .ok t ∧ (c.untouchedLines s ls).Sublist t.lines := by
  have hlen : (e - s + 1).toNat = ls.length := by
    have := hc.length_eq
    omega
  obtain ⟨t, ht, hte, hts⟩ := assembleLines_keeps hc ls.length (Nat.le_refl _) [] (.inl rfl)
  refine ⟨t.removeEnd "\n", ?_, ?_⟩
  · rw [assemble, hc.first_eq, hc.last_eq]
    dsimp only
    rw [hc.lines_eq, hlen, ht]
    rfl
  · rw [take_length] at hts
    rcases hte with rfl | ⟨u, rfl⟩
    · exact (sublist_append_left _ _).trans hts
    · -- the last line feed is taken off, and with it the empty line after it
      have hu : (u ++ ['\n']).removeEnd "\n" = u := removeEnd_append u ['\n']
      have hl : (u ++ ['\n']).lines = u.lines ++ [[]] := split_append_sep u [] '\n'
      rw [hl] at hts
      rw [hu]
      exact append_sublist_append_right _ |>.mp hts

end SourceClass

end DartData
