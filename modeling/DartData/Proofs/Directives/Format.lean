import Mathlib.Data.Char
import Mathlib.Data.List.Sort
import DartData.Proofs.Directives.Block

/-!
# Writing directives and reading them back

Directives are written in groups, each of them sorted.  Written in this order and read back they are
the same directives in the order of the groups, and that order does not change any more.
-/

namespace DartData

open List Text

/-! ## §1. Sorting. -/

namespace Text

/-- The order of texts is total. -/
theorem le_or_le (s : Text) (t : Text) : s.le t ∨ t.le s := by
  induction s generalizing t with
  | nil => exact .inl rfl
  | cons a s ih =>
    cases t with
    | nil => exact .inr rfl
    | cons b t =>
      by_cases hab : a = b
      · subst hab
        simpa [le] using ih t
      · rcases lt_trichotomy a b with h | h | h
        · exact .inl (by simp [le, hab, h])
        · exact absurd h hab
        · exact .inr (by simp [le, Ne.symm hab, h])

/-- The order of texts is transitive. -/
theorem le_of_le_of_le (s : Text) (t u : Text) (hst : s.le t) (htu : t.le u) : s.le u := by
  induction s generalizing t u with
  | nil => rfl
  | cons a s ih =>
    cases t with
    | nil => simp [le] at hst
    | cons b t =>
      cases u with
      | nil => simp [le] at htu
      | cons c u =>
        simp only [le] at hst htu ⊢
        by_cases hab : a = b
        · subst hab
          by_cases hac : a = c
          · subst hac
            simp only [if_true] at hst htu ⊢
            exact ih t u hst htu
          · simpa [hac] using htu
        · have hlt : a < b := by simpa [hab] using hst
          by_cases hbc : b = c
          · subst hbc
            simp [hab, hlt]
          · have hlt' : b < c := by simpa [hbc] using htu
            have hac : a < c := lt_trans hlt hlt'
            simp [hac.ne, hac]

/-- The order of texts is antisymmetric. -/
theorem eq_of_le_of_le (s : Text) (t : Text) (hst : s.le t) (hts : t.le s) : s = t := by
  induction s generalizing t with
  | nil =>
    cases t with
    | nil => rfl
    | cons b t => simp [le] at hts
  | cons a s ih =>
    cases t with
    | nil => simp [le] at hst
    | cons b t =>
      simp only [le] at hst hts
      by_cases hab : a = b
      · subst hab
        rw [if_pos rfl] at hst hts
        rw [ih t hst hts]
      · rw [if_neg hab, decide_eq_true_eq] at hst
        rw [if_neg (Ne.symm hab), decide_eq_true_eq] at hts
        exact absurd hst (lt_asymm hts)

/-- Sorting is insertion by the order of texts. -/
theorem sort_eq_insertionSort (ts : List Text) :
    sort ts = ts.insertionSort (fun s t => s.le t) := by
  have hinsert : ∀ (t : Text) (us : List Text),
      insertOrdered t us = us.orderedInsert (fun s t => s.le t) t := by
    intro t us
    induction us with
    | nil => rfl
    | cons u us ih => rw [insertOrdered, orderedInsert_cons, ih]
  induction ts with
  | nil => rfl
  | cons t ts ih =>
    rw [insertionSort_cons, ← ih, ← hinsert]
    rfl

theorem sort_perm (ts : List Text) : (sort ts).Perm ts := by
  rw [sort_eq_insertionSort]
  exact perm_insertionSort _ _

theorem mem_sort {t : Text} {ts : List Text} : t ∈ sort ts ↔ t ∈ ts := (sort_perm ts).mem_iff

theorem pairwise_sort (ts : List Text) : (sort ts).Pairwise (fun s t => s.le t) := by
  have : Std.Total (fun s t : Text => s.le t) := ⟨le_or_le⟩
  have : IsTrans Text (fun s t : Text => s.le t) := ⟨le_of_le_of_le⟩
  rw [sort_eq_insertionSort]
  exact pairwise_insertionSort _ _

theorem sort_congr {ts us : List Text} (h : ts.Perm us) : sort ts = sort us := by
  have : Std.Antisymm (fun s t : Text => s.le t) := ⟨eq_of_le_of_le⟩
  have hperm : (sort ts).Perm (sort us) := (sort_perm ts).trans (h.trans (sort_perm us).symm)
  exact hperm.eq_of_pairwise' (pairwise_sort ts) (pairwise_sort us)

end Text

/-! ## §2. Groups. -/

/-- The directives of a group, sorted. -/
def sortedGroup (package : Option Text) (vs : List Text) (g : DirectiveGroup) : List Text :=
  sort (vs.filter fun v => DirectiveGroup.of package v == g)

/-- The groups that are not empty. -/
def sortedGroups (package : Option Text) (vs : List Text) : List (List Text) :=
  (DirectiveGroup.all.map (sortedGroup package vs)).filter fun g => !g.isEmpty

theorem Directives.format_eq (d : Directives) (package : Option Text) :
    d.format package = join "\n\n" ((sortedGroups package d.values).map unlines) := rfl

variable {package : Option Text} {vs : List Text}

variable {v : Text} {gs : List (List Text)}

theorem mem_sortedGroup {g : DirectiveGroup} :
    v ∈ sortedGroup package vs g ↔ v ∈ vs ∧ DirectiveGroup.of package v = g := by
  rw [sortedGroup, mem_sort, mem_filter, beq_iff_eq]

theorem flatten_sortedGroups :
    (sortedGroups package vs).flatten = DirectiveGroup.all.flatMap (sortedGroup package vs) := by
  rw [sortedGroups, flatten_filter_not_isEmpty, flatMap_def]

theorem mem_flatten_sortedGroups : v ∈ (sortedGroups package vs).flatten ↔ v ∈ vs := by
  rw [flatten_sortedGroups, mem_flatMap]
  constructor
  · rintro ⟨g, -, hv⟩
    exact (mem_sortedGroup.mp hv).1
  · intro hv
    refine ⟨DirectiveGroup.of package v, ?_, mem_sortedGroup.mpr ⟨hv, rfl⟩⟩
    cases DirectiveGroup.of package v <;> decide

/-- Among the sorted directives those of a group stand together and in order. -/
theorem filter_flatten_sortedGroups (g : DirectiveGroup) :
    ((sortedGroups package vs).flatten.filter fun v => DirectiveGroup.of package v == g)
      = sortedGroup package vs g := by
  have hgroup : ∀ g', (sortedGroup package vs g').filter (fun v => DirectiveGroup.of package v == g)
      = if g' = g then sortedGroup package vs g else [] := by
    intro g'
    split
    · next he =>
      subst he
      refine filter_eq_self.mpr fun v hv => ?_
      rw [(mem_sortedGroup.mp hv).2, beq_self_eq_true]
    · next hne =>
      refine filter_eq_nil_iff.mpr fun v hv => ?_
      rw [(mem_sortedGroup.mp hv).2, beq_iff_eq]
      exact hne
  rw [flatten_sortedGroups, filter_flatMap]
  simp only [hgroup, DirectiveGroup.all]
  cases g <;> simp

/-- Sorting into groups loses nothing and adds nothing. -/
theorem perm_flatten_sortedGroups (package : Option Text) (vs : List Text) :
    (sortedGroups package vs).flatten.Perm vs := by
  rw [perm_iff_count]
  intro v
  -- only the group of `v` counts
  have hgroup : ∀ ws : List Text, ws.count v
      = (ws.filter fun w => DirectiveGroup.of package w == DirectiveGroup.of package v).count v :=
    fun ws => (count_filter (p := fun w => DirectiveGroup.of package w
      == DirectiveGroup.of package v) (beq_self_eq_true (DirectiveGroup.of package v))).symm
  rw [hgroup, filter_flatten_sortedGroups, sortedGroup, (sort_perm _).count_eq, ← hgroup]

/-- The groups depend on which directives there are, not on their order. -/
theorem sortedGroups_congr {ws : List Text} (h : vs.Perm ws) :
    sortedGroups package vs = sortedGroups package ws := by
  have hsame : sortedGroup package vs = sortedGroup package ws := by
    funext g
    exact sort_congr (h.filter _)
  rw [sortedGroups, hsame, sortedGroups]

/-- **The order of the groups does not change any more.** -/
theorem sortedGroups_flatten :
    sortedGroups package (sortedGroups package vs).flatten = sortedGroups package vs :=
  sortedGroups_congr (perm_flatten_sortedGroups package vs)

/-! ## §3. The lines that are written. -/

/-- Groups of lines one after another, with an empty line between them. -/
def blockLines : List (List Text) → List Text
  | [] => []
  | [g] => g
  | g :: h :: gs => g ++ [] :: blockLines (h :: gs)

/-- The first line is one of the first group. -/
theorem blockLines_cons (hne : gs ≠ []) (h : ∀ g ∈ gs, g ≠ []) :
    ∃ l ls, blockLines gs = l :: ls ∧ l ∈ gs.flatten := by
  cases gs with
  | nil => exact absurd rfl hne
  | cons g gs =>
    obtain ⟨l, g', rfl⟩ := exists_cons_of_ne_nil (h g mem_cons_self)
    cases gs with
    | nil => exact ⟨l, g', rfl, by simp⟩
    | cons g gs => exact ⟨l, g' ++ [] :: blockLines (g :: gs), rfl, by simp⟩

theorem blockLines_ne_nil (hne : gs ≠ []) (h : ∀ g ∈ gs, g ≠ []) : blockLines gs ≠ [] := by
  obtain ⟨l, ls, hl, -⟩ := blockLines_cons hne h
  rw [hl]
  exact cons_ne_nil l ls

/-- Groups have a blank line between them. -/
theorem join_map_unlines (h : ∀ g ∈ gs, g ≠ []) :
    join "\n\n" (gs.map unlines) = unlines (blockLines gs) := by
  induction gs with
  | nil => rfl
  | cons g gs ih =>
    have hgs := ih fun g' hg' => h g' (mem_cons_of_mem _ hg')
    cases gs with
    | nil => simp [blockLines]
    | cons g' gs =>
      have hrest := blockLines_ne_nil (cons_ne_nil g' gs) fun x hx =>
        h x (mem_cons_of_mem _ hx)
      have hblank : unlines ([] :: blockLines (g' :: gs))
          = '\n' :: unlines (blockLines (g' :: gs)) := join_cons hrest
      rw [map_cons, map_cons, join_cons_cons, ← map_cons, hgs, blockLines,
        unlines_append (h g mem_cons_self) (cons_ne_nil _ _), hblank]
      simp

theorem mem_blockLines {l : Text} (h : l ∈ blockLines gs) : l = [] ∨ l ∈ gs.flatten := by
  induction gs with
  | nil => simp [blockLines] at h
  | cons g gs ih =>
    cases gs with
    | nil => exact .inr (by simpa [blockLines] using h)
    | cons g' gs =>
      rw [blockLines, mem_append, mem_cons] at h
      rcases h with h | h | h
      · exact .inr (mem_append_left _ h)
      · exact .inl h
      · exact (ih h).imp_right fun h => mem_append_right _ h

/-- The lines that are not blank are those of the groups. -/
theorem filter_blockLines (h : ∀ l ∈ gs.flatten, l.allBlank = false) :
    (blockLines gs).filter (fun l => !l.allBlank) = gs.flatten := by
  induction gs with
  | nil => rfl
  | cons g gs ih =>
    have hg : g.filter (fun l => !allBlank l) = g := by
      refine filter_eq_self.mpr fun l hl => ?_
      rw [h l (mem_append_left _ hl)]
      rfl
    have hgs := ih fun l hl => h l (mem_append_right _ hl)
    cases gs with
    | nil => rw [blockLines, hg, flatten_cons, flatten_nil, append_nil]
    | cons g' gs =>
      rw [blockLines, filter_append, hg, flatten_cons, ← hgs]
      rfl

theorem squeeze_blockLines (gs : List (List Text)) :
    (unlines (blockLines gs)).squeeze = (gs.flatten.map squeeze).flatten := by
  rw [squeeze_unlines]
  induction gs with
  | nil => rfl
  | cons g gs ih =>
    cases gs with
    | nil => rw [blockLines, flatten_cons, flatten_nil, append_nil]
    | cons g' gs =>
      rw [blockLines, flatten_cons, map_append, map_append, flatten_append,
        flatten_append, ← ih]
      rfl

/-! ## §4. Reading them back. -/

/-- A line at the head of a file: blank, or a directive without blanks around it. -/
def IsHeadLine (l : Text) : Prop := l.allBlank = true ∨ (isDirective l = true ∧ l.trim = l)

namespace Directives

variable {line raw text : Text} {ls more rest : List Text}

/-- A blank line is passed over. -/
theorem readLines_blank (h : raw.allBlank) (d : Directives) (n : Nat)
    (previous : Option Text) (hr : rest ≠ []) :
    d.readLines n previous (raw :: rest) = d.readLines (n + 1) (some raw) rest := by
  have hempty : rest.isEmpty = false := isEmpty_eq_false_iff.mpr hr
  have htrim := trim_eq_nil_iff.mpr h
  have hstand : d.mayStand [] := rfl
  rw [readLines, htrim]
  dsimp only
  rw [show isDirective [] = false from rfl, hempty, hstand]
  rfl

theorem readLines_class_line (h : isClassLine line) (d : Directives) (n : Nat)
    (previous : Option Text) (more : List Text) :
    d.readLines n previous (line :: more) = d.endBefore n previous := by
  rw [readLines, isDirective_of_isClassLine h, d.mayStand_of_isClassLine h]
  simp

/-- Above the first class there are blank lines only. -/
theorem read_of_blank (htext : text.lines = ls ++ line :: more) (hls : ∀ l ∈ ls, l.allBlank)
    (hline : isClassLine line) : read text = { source := text } := by
  have hskip : ∀ (ls : List Text) (d : Directives) (n : Nat) (previous : Option Text),
      (∀ l ∈ ls, l.allBlank) → ∃ p, d.readLines n previous (ls ++ line :: more)
        = d.readLines (n + ls.length) p (line :: more) := by
    intro ls
    induction ls with
    | nil => intro d n previous _; exact ⟨previous, rfl⟩
    | cons l ls ih =>
      intro d n previous hls
      obtain ⟨p, hp⟩ := ih d (n + 1) (some l) fun x hx => hls x (mem_cons_of_mem _ hx)
      refine ⟨p, ?_⟩
      rw [cons_append, readLines_blank (hls l mem_cons_self) d n previous (by simp), hp,
        length_cons, show n + 1 + ls.length = n + (ls.length + 1) by omega]
  obtain ⟨p, hp⟩ := hskip ls { source := text } 1 none hls
  rw [read, htext, hp, readLines_class_line hline]
  rfl

theorem readLines_directive (h : isDirective raw) (ht : raw.trim = raw) (d : Directives)
    (n : Nat) (previous : Option Text) (hr : rest ≠ []) :
    d.readLines n previous (raw :: rest) = (d.add n raw).readLines (n + 1) (some raw) rest := by
  have hempty : rest.isEmpty = false := isEmpty_eq_false_iff.mpr hr
  rw [readLines, ht]
  dsimp only
  rw [h, hempty]
  rfl

/-- The lines at the head of a file. -/
theorem readLines_head (ls : List Text) (d : Directives) (n : Nat) (previous : Option Text)
    (rest : List Text) (hls : ∀ l ∈ ls, IsHeadLine l) (hr : rest ≠ []) :
    ∃ (d' : Directives) (p : Option Text),
      d.readLines n previous (ls ++ rest) = d'.readLines (n + ls.length) p rest
      ∧ d'.source = d.source ∧ d'.values = d.values ++ ls.filter (fun l => !l.allBlank)
      ∧ d'.found = d.found ++ endLines (ls.filter fun l => !l.allBlank)
      ∧ (d.first.isSome → d'.first = d.first) ∧ p = ls.getLast?.or previous := by
  induction ls generalizing d n previous rest with
  | nil =>
    exact ⟨d, previous, rfl, rfl, by simp, by simp, fun _ => rfl, rfl⟩
  | cons l ls ih =>
    have hne : ls ++ rest ≠ [] := append_ne_nil_of_right_ne_nil _ hr
    have hrest := fun x hx => hls x (mem_cons_of_mem l hx)
    have hlast : ∀ l : Text, ls.getLast?.or (some l) = (l :: ls).getLast?.or previous := by
      intro l
      rw [getLast?_cons]
      cases ls.getLast? <;> rfl
    rcases hls l mem_cons_self with hl | ⟨hl, ht⟩
    · obtain ⟨d', p, heq, hs, hv, hf, hfirst, hp⟩ := ih d (n + 1) (some l) rest hrest hr
      refine ⟨d', p, ?_, hs, ?_, ?_, hfirst, hp.trans (hlast l)⟩
      · rw [cons_append, readLines_blank hl d n previous hne, heq, length_cons,
          show n + 1 + ls.length = n + (ls.length + 1) by omega]
      · rw [hv, filter_cons_of_neg (by simp [hl])]
      · rw [hf, filter_cons_of_neg (by simp [hl])]
    · obtain ⟨d', p, heq, hs, hv, hf, hfirst, hp⟩ := ih (d.add n l) (n + 1) (some l) rest hrest hr
      -- once the block has begun, a directive does not move its first line
      have hadd : d.first.isSome → (d.add n l).first = d.first := by
        intro h
        obtain ⟨a, ha⟩ := Option.isSome_iff_exists.mp h
        simp [add, ha]
      have hblank : l.allBlank = false := not_allBlank_of_isDirective (ht.symm ▸ hl)
      refine ⟨d', p, ?_, hs, ?_, ?_, fun h => (hfirst rfl).trans (hadd h), hp.trans (hlast l)⟩
      · rw [cons_append, readLines_directive hl ht d n previous hne, heq, length_cons,
          show n + 1 + ls.length = n + (ls.length + 1) by omega]
      · rw [hv, filter_cons_of_pos (by simp [hblank])]
        simp [add]
      · rw [hf, filter_cons_of_pos (by simp [hblank])]
        simp [add]

/-- **The directives of a text that begins with directives and blank lines, and goes on with a
    class.** -/
theorem read_head (htext : text.lines = ls ++ line :: more) (hls : ∀ l ∈ ls, IsHeadLine l)
    (hline : isClassLine line) :
    (read text).source = text ∧ (read text).values = ls.filter (fun l => !l.allBlank)
      ∧ (read text).found = endLines (ls.filter fun l => !l.allBlank) := by
  obtain ⟨d', p, heq, hs, hv, hf, -, -⟩ := readLines_head ls { source := text } 1 none
    (line :: more) hls (cons_ne_nil _ _)
  have hkeep : ∀ (d : Directives) n p, (d.endBefore n p).source = d.source
      ∧ (d.endBefore n p).values = d.values ∧ (d.endBefore n p).found = d.found := by
    intro d n p
    unfold endBefore
    split <;> exact ⟨rfl, rfl, rfl⟩
  obtain ⟨hs', hv', hf'⟩ := hkeep d' (1 + ls.length) p
  rw [read, htext, heq, readLines_class_line hline, hs', hv', hf', hs, hv, hf]
  exact ⟨rfl, rfl, rfl⟩

/-- Where the block stands that begins on the first line and ends above an empty line. -/
theorem read_place {l : Text} (htext : text.lines = (l :: ls) ++ ([] :: line :: more))
    (hl : isDirective l) (ht : l.trim = l) (hls : ∀ x ∈ ls, IsHeadLine x)
    (hline : isClassLine line) :
    (read text).first = some 1 ∧ (read text).last = some (ls.length + 1) := by
  have hhead : ∀ x ∈ ls ++ [[]], IsHeadLine x := by
    intro x hx
    rcases mem_append.mp hx with hx | hx
    · exact hls x hx
    · exact .inl (mem_singleton.mp hx ▸ rfl)
  obtain ⟨d', p, heq, -, -, -, hfirst, hp⟩ := readLines_head (ls ++ [[]])
    (add { source := text } 1 l) 2 (some l) (line :: more) hhead (cons_ne_nil _ _)
  have hfirst : d'.first = some 1 := hfirst rfl
  have hp : p = some [] := by simpa using hp
  have hread : read text = d'.endBefore (2 + (ls ++ [[]]).length) p := by
    rw [read, htext, cons_append, readLines_directive hl ht _ _ _ (by simp),
      show ls ++ [] :: line :: more = (ls ++ [[]]) ++ line :: more by simp, heq,
      readLines_class_line hline]
  rw [hread, hp, endBefore, hfirst]
  refine ⟨rfl, ?_⟩
  show some (2 + (ls ++ [[]]).length - 2) = _
  simp

end Directives

end DartData
