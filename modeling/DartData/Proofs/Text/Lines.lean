import DartData.Text.Blank
import DartData.Proofs.Text.Search

/-!
# Lines of a text

Cutting a text into lines and putting lines together again are inverse to each other, as long as
there is a line and no line holds a line feed.  The scanner and the assembler collect lines with a
line feed after each; `endLines` is that form, and it differs from `unlines` by the last line feed
alone.
-/

namespace DartData.Text

open List

/-! ## §1. Splitting at a character. -/

theorem split_nil (sep : Char) : split [] sep = [[]] := rfl

theorem split_ne_nil (t : Text) (sep : Char) : t.split sep ≠ [] := by
  cases t with
  | nil => simp [split_nil]
  | cons c r =>
    unfold split
    split
    · simp
    · split <;> simp

@[simp] theorem split_cons_sep (sep : Char) (t : Text) :
    split (sep :: t) sep = [] :: t.split sep := if_pos rfl

variable {c d sep : Char} {l p t w x : Text} {bs ls ts ws : List Text} {a b : Int}

theorem split_cons_of_ne (h : c ≠ sep) (ht : t.split sep = w :: ws) :
    split (c :: t) sep = (c :: w) :: ws := by
  rw [split, if_neg h, ht]

theorem split_eq_singleton (h : sep ∉ t) : t.split sep = [t] := by
  induction t with
  | nil => rfl
  | cons c r ih =>
    have hc : c ≠ sep := fun e => h (e ▸ mem_cons_self)
    exact split_cons_of_ne hc (ih fun hr => h (mem_cons_of_mem _ hr))

theorem split_append_left (hx : sep ∉ x) (ht : t.split sep = w :: ws) :
    (x ++ t).split sep = (x ++ w) :: ws := by
  induction x with
  | nil => exact ht
  | cons c x ih =>
    rw [mem_cons, not_or] at hx
    exact split_cons_of_ne (Ne.symm hx.1) (ih hx.2)

/-- A separator splits. -/
theorem split_append_sep (a b : Text) (sep : Char) :
    split (a ++ sep :: b) sep = a.split sep ++ b.split sep := by
  induction a with
  | nil => simp [split_nil]
  | cons c r ih =>
    by_cases hc : c = sep
    · subst hc
      simp [ih]
    · obtain ⟨w, ws, hr⟩ := exists_cons_of_ne_nil (split_ne_nil r sep)
      have hrb : split (r ++ sep :: b) sep = w :: (ws ++ b.split sep) := by
        rw [ih, hr]
        rfl
      rw [cons_append, split_cons_of_ne hc hrb, split_cons_of_ne hc hr]
      rfl

/-- Splitting adds nothing. -/
theorem mem_of_mem_split : ∀ w ∈ t.split sep, ∀ c ∈ w, c ∈ t := by
  induction t with
  | nil => simp [split_nil]
  | cons d r ih =>
    by_cases hd : d = sep
    · subst hd
      intro w hw c hc
      rw [split_cons_sep, mem_cons] at hw
      rcases hw with rfl | hw
      · simp at hc
      · exact mem_cons_of_mem _ (ih w hw c hc)
    · cases hs : split r sep with
      | nil => exact absurd hs (split_ne_nil r sep)
      | cons v vs =>
        intro w hw c hc
        rw [split_cons_of_ne hd hs, mem_cons] at hw
        rcases hw with rfl | hw
        · rcases mem_cons.mp hc with rfl | hc
          · exact mem_cons_self
          · exact mem_cons_of_mem _ (ih v (by simp [hs]) c hc)
        · exact mem_cons_of_mem _ (ih w (by simp [hs, hw]) c hc)

/-- The first piece begins as the text does. -/
theorem head_split {p : Char → Bool} (h : t.split sep = w :: ws) (ht : t.head?.any p = false) :
    w.head?.any p = false := by
  cases t with
  | nil =>
    obtain rfl : [] = w := (List.cons.inj h).1
    rfl
  | cons c r =>
    by_cases hc : c = sep
    · rw [hc, split_cons_sep] at h
      obtain rfl : [] = w := (List.cons.inj h).1
      rfl
    · obtain ⟨v, vs, hv⟩ := exists_cons_of_ne_nil (split_ne_nil r sep)
      rw [split_cons_of_ne hc hv] at h
      obtain rfl : c :: v = w := (List.cons.inj h).1
      exact ht

/-- No piece has the separator. -/
theorem not_mem_of_mem_split (h : w ∈ t.split sep) : sep ∉ w := by
  induction t generalizing w with
  | nil =>
    simp only [split_nil, mem_singleton] at h
    simp [h]
  | cons c r ih =>
    by_cases hc : c = sep
    · subst hc
      rw [split_cons_sep, mem_cons] at h
      rcases h with h | h
      · simp [h]
      · exact ih h
    · obtain ⟨v, vs, hr⟩ := exists_cons_of_ne_nil (split_ne_nil r sep)
      rw [split_cons_of_ne hc hr, mem_cons] at h
      rcases h with h | h
      · have hv : sep ∉ v := ih (hr ▸ mem_cons_self)
        simp [h, hv, Ne.symm hc]
      · exact ih (hr ▸ mem_cons_of_mem _ h)

/-! ## §2. Joining. -/

@[simp] theorem join_nil (sep : Text) : join sep [] = [] := by simp [join, intercalate]

@[simp] theorem join_singleton (sep t : Text) : join sep [t] = t := by
  simp [join, intercalate]

theorem join_cons_cons (sep t u : Text) (ts : List Text) :
    join sep (t :: u :: ts) = t ++ sep ++ join sep (u :: ts) := by
  simp [join, intercalate]

theorem join_cons {sep : Text} (h : ts ≠ []) : join sep (t :: ts) = t ++ sep ++ join sep ts := by
  obtain ⟨u, us, rfl⟩ := exists_cons_of_ne_nil h
  exact join_cons_cons sep t u us

theorem join_concat {sep : Text} (h : ts ≠ []) (t : Text) :
    join sep (ts ++ [t]) = join sep ts ++ sep ++ t := by
  induction ts with
  | nil => exact absurd rfl h
  | cons u us ih =>
    cases us with
    | nil => simp [join_cons_cons]
    | cons v vs =>
      rw [cons_append, join_cons (by simp), ih (by simp), join_cons_cons]
      simp

theorem mem_join {sep : Text} (h : c ∈ join sep ts) : c ∈ sep ∨ ∃ t ∈ ts, c ∈ t := by
  induction ts with
  | nil => simp at h
  | cons t ts ih =>
    cases ts with
    | nil => exact .inr ⟨t, by simp, by simpa using h⟩
    | cons u us =>
      rw [join_cons_cons, mem_append, mem_append] at h
      rcases h with (h | h) | h
      · exact .inr ⟨t, by simp, h⟩
      · exact .inl h
      · rcases ih h with h | ⟨x, hx, h⟩
        · exact .inl h
        · exact .inr ⟨x, mem_cons_of_mem _ hx, h⟩

/-- Joining undoes splitting. -/
theorem join_split (t : Text) (sep : Char) : join [sep] (t.split sep) = t := by
  induction t with
  | nil => simp [split_nil]
  | cons c r ih =>
    by_cases hc : c = sep
    · subst hc
      rw [split_cons_sep, join_cons (split_ne_nil r c), ih]
      rfl
    · obtain ⟨w, ws, hr⟩ := exists_cons_of_ne_nil (split_ne_nil r sep)
      rw [split_cons_of_ne hc hr]
      rw [hr] at ih
      cases ws with
      | nil => simpa using ih
      | cons v vs =>
        rw [join_cons_cons] at ih ⊢
        rw [cons_append, cons_append, ih]

theorem split_join (hne : ls ≠ []) (h : ∀ l ∈ ls, sep ∉ l) : (join [sep] ls).split sep = ls := by
  induction ls with
  | nil => exact absurd rfl hne
  | cons l ls ih =>
    have hl : l.split sep = [l] := split_eq_singleton (h l mem_cons_self)
    by_cases hls : ls = []
    · subst hls
      simpa using hl
    · rw [join_cons hls, append_assoc, singleton_append, split_append_sep, hl,
        ih hls fun l' h' => h l' (mem_cons_of_mem _ h')]
      rfl

/-! ## §3. Lines. -/

theorem lines_ne_nil (t : Text) : t.lines ≠ [] := split_ne_nil t '\n'

theorem length_lines_pos (t : Text) : 0 < t.lines.length :=
  length_pos_iff.mpr (lines_ne_nil t)

theorem not_mem_of_mem_lines (h : l ∈ t.lines) : '\n' ∉ l := not_mem_of_mem_split h

@[simp] theorem unlines_lines (t : Text) : unlines t.lines = t := join_split t '\n'

theorem lines_unlines (hne : ls ≠ []) (h : ∀ l ∈ ls, '\n' ∉ l) : (unlines ls).lines = ls :=
  split_join hne h

theorem sublist_lines_unlines (h : ∀ l ∈ ls, '\n' ∉ l) : ls.Sublist (unlines ls).lines := by
  by_cases hne : ls = []
  · rw [hne]
    exact nil_sublist _
  · exact (lines_unlines hne h).symm ▸ List.Sublist.refl ls

theorem lines_of_not_mem (h : '\n' ∉ l) : l.lines = [l] := split_eq_singleton h

/-! ## §4. Lines with a line feed after each. -/

/-- The lines one after another, each with a line feed at its end. -/
def endLines (ls : List Text) : Text := (ls.map (· ++ ['\n'])).flatten

@[simp] theorem endLines_nil : endLines [] = [] := rfl

@[simp] theorem endLines_cons (l : Text) (ls : List Text) :
    endLines (l :: ls) = l ++ '\n' :: endLines ls := by
  simp [endLines]

@[simp] theorem endLines_append (ls ms : List Text) :
    endLines (ls ++ ms) = endLines ls ++ endLines ms := by
  simp [endLines]

theorem not_mem_endLines (hd : d ≠ '\n') (h : ∀ l ∈ ls, d ∉ l) : d ∉ endLines ls := by
  intro hmem
  obtain ⟨l, hl, hdl⟩ := mem_flatten.mp hmem
  obtain ⟨m, hm, rfl⟩ := mem_map.mp hl
  rcases mem_append.mp hdl with hdl | hdl
  · exact h m hm hdl
  · exact hd (mem_singleton.mp hdl)

theorem endLines_eq_unlines (h : ls ≠ []) : endLines ls = unlines ls ++ ['\n'] := by
  induction ls with
  | nil => exact absurd rfl h
  | cons l ls ih =>
    by_cases hls : ls = []
    · simp [hls, unlines]
    · rw [endLines_cons, ih hls, unlines, unlines, join_cons hls]
      simp

/-- Taking the last line feed off is what makes a text of the lines. -/
theorem endLines_append_eq_unlines (ls : List Text) (l : Text) :
    endLines ls ++ l = unlines (ls ++ [l]) := by
  have h : endLines (ls ++ [l]) = _ := endLines_eq_unlines (by simp)
  rw [endLines_append, endLines_cons, endLines_nil] at h
  exact append_cancel_right (by simpa using h)

theorem unlines_append {as : List Text} (ha : as ≠ []) (hb : bs ≠ []) :
    unlines (as ++ bs) = unlines as ++ '\n' :: unlines bs := by
  have heq : unlines (as ++ bs) ++ ['\n'] = (unlines as ++ '\n' :: unlines bs) ++ ['\n'] := by
    rw [← endLines_eq_unlines (append_ne_nil_of_right_ne_nil _ hb), endLines_append,
      endLines_eq_unlines ha, endLines_eq_unlines hb]
    simp
  exact append_cancel_right heq

theorem unlines_insert (as : List Text) (cs : List Text) (h : bs ≠ []) :
    unlines (as ++ unlines bs :: cs) = unlines (as ++ (bs ++ cs)) := by
  have heq : endLines (as ++ unlines bs :: cs) = endLines (as ++ (bs ++ cs)) := by
    simp [endLines_eq_unlines h]
  rw [endLines_eq_unlines (by simp), endLines_eq_unlines (by simp [h])] at heq
  exact append_cancel_right heq

/-- Some lines among others. -/
theorem has_unlines (as : List Text) (cs : List Text) (hb : bs ≠ []) :
    (unlines (as ++ (bs ++ cs))).has (unlines bs) := by
  have hinner : (unlines (bs ++ cs)).has (unlines bs) := by
    by_cases hc : cs = []
    · rw [hc, append_nil]
      exact has_iff.mpr infix_rfl
    · rw [unlines_append hb hc]
      exact has_iff.mpr (prefix_append ..).isInfix
  by_cases ha : as = []
  · rw [ha]
    exact hinner
  · rw [unlines_append ha (by simp [hb])]
    exact has_trans (has_iff.mpr ⟨unlines as ++ ['\n'], [], by simp⟩) hinner

theorem removeEnd_append (t e : Text) : (t ++ e).removeEnd e = t := by
  have h : (t ++ e).endsWith e := by simp [endsWith]
  rw [removeEnd, if_pos h]
  simp

theorem removeEnd_sublist (t e : Text) : (t.removeEnd e).Sublist t := by
  unfold removeEnd
  split
  · exact take_sublist _ _
  · exact List.Sublist.refl t

theorem removeEnd_eq_self_iff {e : Text} (he : e ≠ []) :
    t.removeEnd e = t ↔ t.endsWith e = false := by
  unfold removeEnd
  split
  next h =>
    have hle := (endsWith_iff.mp h).length_le
    have hpos := length_pos_iff.mpr he
    refine iff_of_false (fun heq => ?_) (by simp [h])
    have hlen := congrArg length heq
    rw [length_take] at hlen
    omega
  next h => simpa using h

theorem mem_removeEnd {e : Char} (hne : d ≠ e) (ht : d ∈ t) : d ∈ t.removeEnd [e] := by
  by_cases hend : t.endsWith [e]
  · obtain ⟨u, rfl⟩ := endsWith_iff.mp hend
    rw [removeEnd_append]
    rcases mem_append.mp ht with h | h
    · exact h
    · exact absurd (mem_singleton.mp h) hne
  · rw [removeEnd, if_neg hend]
    exact ht

/-- All but the last line feed is kept, so what has something after it stays. -/
theorem has_removeEnd_feed {y : Text} (hy : y ≠ []) : ((x ++ (p ++ y)).removeEnd "\n").has p := by
  by_cases hend : (x ++ (p ++ y)).endsWith "\n"
  · rcases eq_nil_or_concat y with rfl | ⟨z, d, rfl⟩
    · exact absurd rfl hy
    · obtain ⟨u, hu⟩ := endsWith_iff.mp hend
      have hu : u ++ ['\n'] = (x ++ (p ++ z)) ++ [d] := by simpa using hu
      obtain rfl : '\n' = d := by simpa using (append_inj' hu rfl).2
      have happ : x ++ (p ++ z.concat '\n') = (x ++ (p ++ z)) ++ "\n" := by simp
      rw [happ, removeEnd_append]
      exact has_iff.mpr ⟨x, z, by simp⟩
  · rw [removeEnd, if_neg hend]
    exact has_iff.mpr ⟨x, y, by simp⟩

/-- A piece that ends with something else stays as well. -/
theorem has_removeEnd_concat {q : Text} (hd : d ≠ '\n') (h : t.has (q ++ [d])) :
    (t.removeEnd "\n").has (q ++ [d]) := by
  obtain ⟨x, y, rfl⟩ := has_iff.mp h
  rw [append_assoc]
  by_cases hy : y = []
  · have hend : endsWith (x ++ (q ++ [d])) "\n" = false := by
      rw [Bool.eq_false_iff]
      intro hend
      obtain ⟨u, hu⟩ := endsWith_iff.mp hend
      rw [← append_assoc] at hu
      exact hd (List.cons.inj (append_inj' hu rfl).2).1.symm
    rw [hy, append_nil, removeEnd, hend]
    exact has_iff.mpr ⟨x, [], by simp⟩
  · exact has_removeEnd_feed hy

theorem removeEnd_endLines (h : ls ≠ []) : (endLines ls).removeEnd ['\n'] = unlines ls := by
  rw [endLines_eq_unlines h, removeEnd_append]

/-- A line moved to the right by two blanks, unless it is empty. -/
def indentLine (l : Text) : Text := if l.isEmpty then l else "  " ++ l

theorem indent_eq_endLines (t : Text) : t.indent = endLines (t.lines.map indentLine) := by
  simp [indent, indentBy, endLines, Function.comp_def, indentLine]

/-! ## §5. Chains over several lines. -/

/-- Pieces on lines of their own: `sep` ends each line but the last one, which `close` ends, and
    `margin` begins each line but the first one. -/
def chainLines (sep margin close t : Text) : List Text → List Text
  | [] => [t ++ close]
  | u :: us => (t ++ sep) :: chainLines sep margin close (margin ++ u) us

theorem join_cons_append (sep m t : Text) (ts : List Text) :
    join sep ((m ++ t) :: ts) = m ++ join sep (t :: ts) := by
  cases ts with
  | nil => simp
  | cons u us => simp [join_cons_cons]

theorem unlines_chainLines (sep margin close : Text) (us : List Text) :
    ∀ t, unlines (chainLines sep margin close t us)
      = join (sep ++ '\n' :: margin) (t :: us) ++ close := by
  induction us with
  | nil => intro t; simp [chainLines, unlines]
  | cons u us ih =>
    intro t
    have hne : chainLines sep margin close (margin ++ u) us ≠ [] := by
      cases us <;> simp [chainLines]
    rw [chainLines, unlines, join_cons hne, show join ['\n'] _ = _ from ih (margin ++ u),
      join_cons_append, join_cons_cons]
    simp

theorem mem_chainLines {sep margin close : Text} (us : List Text) :
    ∀ {t}, l ∈ chainLines sep margin close t us → (l = t ++ sep ∨ l = t ++ close)
        ∨ ∃ u ∈ us, l = margin ++ u ++ sep ∨ l = margin ++ u ++ close := by
  induction us with
  | nil => intro t h; exact .inl (.inr (by simpa [chainLines] using h))
  | cons u us ih =>
    intro t h
    rw [chainLines, mem_cons] at h
    rcases h with h | h
    · exact .inl (.inl h)
    · rcases ih h with h | ⟨v, hv, h⟩
      · exact .inr ⟨u, mem_cons_self, h⟩
      · exact .inr ⟨v, mem_cons_of_mem _ hv, h⟩

/-! ## §6. White space. -/

theorem squeeze_append (a b : Text) : squeeze (a ++ b) = a.squeeze ++ b.squeeze :=
  filter_append a b

theorem not_mem_squeeze (h : d ∉ t) : d ∉ t.squeeze :=
  fun hmem => h (mem_filter.mp hmem).1

theorem squeeze_indentLine (l : Text) : l.indentLine.squeeze = l.squeeze := by
  unfold indentLine
  split
  · rfl
  · rw [squeeze_append]
    rfl

theorem squeeze_endLines (ls : List Text) : (endLines ls).squeeze = (ls.map squeeze).flatten := by
  induction ls with
  | nil => rfl
  | cons l ls ih =>
    have hfeed : squeeze ('\n' :: endLines ls) = (endLines ls).squeeze := rfl
    rw [endLines_cons, squeeze_append, hfeed, ih]
    rfl

theorem squeeze_unlines (ls : List Text) : (unlines ls).squeeze = (ls.map squeeze).flatten := by
  cases ls with
  | nil => rfl
  | cons l ls =>
    rw [← squeeze_endLines, endLines_eq_unlines (cons_ne_nil l ls), squeeze_append]
    simp [squeeze, isBlank]

/-- Lines that are moved to the right differ in white space only. -/
theorem sameUpToBlanks_indentLine (ls : List Text) :
    sameUpToBlanks (unlines (ls.map indentLine)) (unlines ls) := by
  rw [sameUpToBlanks, squeeze_unlines, squeeze_unlines, map_map]
  simp [Function.comp_def, squeeze_indentLine]

theorem squeeze_join (sep : Text) (ts : List Text) :
    (join sep ts).squeeze = join sep.squeeze (ts.map squeeze) := by
  induction ts with
  | nil => rfl
  | cons t ts ih =>
    cases ts with
    | nil => simp
    | cons u us =>
      rw [join_cons_cons, squeeze_append, squeeze_append, ih]
      exact (join_cons_cons sep.squeeze t.squeeze u.squeeze (us.map squeeze)).symm

theorem squeeze_indent (t : Text) : t.indent.squeeze = t.squeeze := by
  rw [indent_eq_endLines, squeeze_endLines, map_map]
  conv => rhs; rw [← unlines_lines t, squeeze_unlines]
  exact congrArg flatten (map_congr_left fun l _ => squeeze_indentLine l)

theorem squeeze_removeEnd_feed (t : Text) : (t.removeEnd "\n").squeeze = t.squeeze := by
  by_cases hend : t.endsWith "\n"
  · obtain ⟨u, rfl⟩ := endsWith_iff.mp hend
    rw [removeEnd_append, squeeze_append]
    exact (append_nil _).symm
  · rw [removeEnd, if_neg hend]

/-! ## §7. Spans of lines. -/

/-- The lines from number `a` to number `b`, both included and counted from one. -/
def span (ls : List Text) (a b : Int) : List Text := (ls.take b.toNat).drop (a - 1).toNat

theorem span_append_left (h : b ≤ ls.length) (ms : List Text) (a : Int) :
    span (ls ++ ms) a b = span ls a b := by
  rw [span, span, take_append_of_le_length (by omega)]

theorem span_to_length (ls : List Text) (a : Nat) : span ls a ls.length = ls.drop (a - 1) := by
  have ha : ((a : Int) - 1).toNat = a - 1 := by omega
  rw [span, ha, Int.toNat_natCast, take_length]

theorem drop_concat {k : Nat} (h : k ≤ ls.length) (l : Text) :
    (ls ++ [l]).drop k = ls.drop k ++ [l] := drop_append_of_le_length h

theorem length_span (ha : 1 ≤ a) (hab : a ≤ b) (hb : b ≤ ls.length) :
    ((span ls a b).length : Int) = b - a + 1 := by
  rw [span, length_drop, length_take]
  omega

theorem span_span {s e : Int} {a b : Nat} (hs : 1 ≤ s) (hb : s + b ≤ e) :
    ((span ls s e).take (b + 1)).drop a = span ls (s + a) (s + b) := by
  have ha : (s + a - 1).toNat = (s - 1).toNat + a := by omega
  have hb : min ((s - 1).toNat + (b + 1)) e.toNat = (s + b).toNat := by omega
  rw [span, span, take_drop, take_take, drop_drop, hb, ha]

theorem mem_of_mem_span (h : l ∈ span ls a b) : l ∈ ls :=
  mem_of_mem_take (mem_of_mem_drop h)

/-- What has no line feed in it, and stands in none of the lines, does not stand in the text. -/
theorem has_unlines_eq_false (hne : p ≠ []) (hp : '\n' ∉ p) (h : ∀ l ∈ ls, l.has p = false) :
    (unlines ls).has p = false := by
  induction ls with
  | nil =>
    obtain ⟨a, q, rfl⟩ := exists_cons_of_ne_nil hne
    rfl
  | cons l ls ih =>
    have hl := h l mem_cons_self
    have hls := ih fun x hx => h x (mem_cons_of_mem _ hx)
    cases ls with
    | nil => rwa [unlines, join_singleton]
    | cons m ls =>
      have hjoin : unlines (l :: m :: ls) = l ++ '\n' :: unlines (m :: ls) := by
        rw [unlines, join_cons_cons, append_assoc]
        rfl
      rw [hjoin]
      exact has_append_cons hp hl hls

end DartData.Text
