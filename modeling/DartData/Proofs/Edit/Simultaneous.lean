import Mathlib.Data.List.Sort
import DartData.Proofs.Edit.Splice

/-!
# Edits as one simultaneous replacement

Edits may come in any order.  Where their spans lie in the text and share no line, working them in
from the bottom upwards gives every line of the text what stands for it, each line on its own and
counted in the text as it was (`Edits.spliced`); in all other cases it fails.

    apply text = ok (unlines (spliced text.lines))   iff   every span lies in the text, none overlap

The order of the edits decides nothing: `bottomUp` sorts them, and for spans that share no line the
line-by-line description looks at one edit at a time.
-/

namespace DartData

open List

/-! ## §1. What stands for a line. -/

namespace Edit

/-- The line number `k` lies in the span of the edit. -/
def covers (e : Edit) (k : Int) : Bool := e.first ≤ k && k ≤ e.last

variable {e f : Edit} {k : Int} {es fs : List Edit}

theorem covers_iff : e.covers k ↔ e.first ≤ k ∧ k ≤ e.last := by
  simp [covers]

theorem covers_eq_false_iff : e.covers k = false ↔ k < e.first ∨ e.last < k := by
  rw [Bool.eq_false_iff, ne_eq, covers_iff]
  omega

/-- The spans of the two edits share no line. -/
def Apart (e f : Edit) : Prop := ∀ k, ¬ (e.covers k = true ∧ f.covers k = true)

theorem Apart.symm (h : e.Apart f) : f.Apart e := fun k hk => h k ⟨hk.2, hk.1⟩

theorem Above.apart (h : e.Above f) : e.Apart f := by
  intro k hk
  have h : e.last < f.first := h
  rw [covers_iff, covers_iff] at hk
  omega

/-- What stands for the line number `k` when all edits are worked in: the new lines where a span
    begins, nothing further inside of it, and the line itself outside of all spans. -/
def standsFor (es : List Edit) (k : Nat) (line : Text) : List Text :=
  match es.find? (·.covers k) with
  | some e => if e.first = k then e.lines else []
  | none => [line]

/-- The lines from the number `k` on, with what stands for each. -/
def replaceEach (es : List Edit) (k : Nat) : List Text → List Text
  | [] => []
  | l :: ls => standsFor es k l ++ replaceEach es (k + 1) ls

theorem standsFor_of_covers {k : Nat} (h : e.covers k) (es : List Edit) (line : Text) :
    standsFor (e :: es) k line = if e.first = k then e.lines else [] := by
  simp [standsFor, h]

theorem replaceEach_append (es : List Edit) (ls ms : List Text) :
    ∀ k, replaceEach es k (ls ++ ms)
      = replaceEach es k ls ++ replaceEach es (k + ls.length) ms := by
  induction ls with
  | nil => intro k; rfl
  | cons l ls ih =>
    intro k
    rw [cons_append, replaceEach, replaceEach, ih, length_cons, append_assoc,
      show k + 1 + ls.length = k + (ls.length + 1) by omega]

/-- Only the edit that covers a line counts for it. -/
theorem replaceEach_congr (ls : List Text) (k : Nat)
    (h : ∀ j : Nat, k ≤ j → j < k + ls.length → es.find? (·.covers j) = fs.find? (·.covers j)) :
    replaceEach es k ls = replaceEach fs k ls := by
  induction ls generalizing k with
  | nil => rfl
  | cons l ls ih =>
    rw [length_cons] at h
    rw [replaceEach, replaceEach, standsFor, standsFor, h k (Nat.le_refl k) (by omega),
      ih (k + 1) fun j h₁ h₂ => h j (by omega) (by omega)]

theorem replaceEach_nil (ls : List Text) (k : Nat) : replaceEach [] k ls = ls := by
  induction ls generalizing k with
  | nil => rfl
  | cons l ls ih =>
    rw [replaceEach, ih]
    rfl

/-- Above the first span nothing changes. -/
theorem replaceEach_above {ls : List Text} {k : Nat}
    (h : ∀ e ∈ es, (k + ls.length : Int) ≤ e.first) :
    replaceEach es k ls = ls := by
  have hfind : ∀ j : Nat, k ≤ j → j < k + ls.length →
      es.find? (·.covers j) = ([] : List Edit).find? (·.covers j) := by
    intro j _ hj
    rw [find?_nil, find?_eq_none]
    intro e he hc
    have := h e he
    rw [covers_iff] at hc
    omega
  rw [replaceEach_congr ls k hfind, replaceEach_nil]

/-- Further down in a span there is nothing. -/
theorem replaceEach_inside (ls : List Text) (k : Nat) (h₁ : e.first < k)
    (h₂ : (k + ls.length : Int) ≤ e.last + 1) : replaceEach (e :: es) k ls = [] := by
  induction ls generalizing k with
  | nil => rfl
  | cons l ls ih =>
    rw [length_cons] at h₂
    have hc : e.covers k := by
      rw [covers_iff]
      omega
    have hne : e.first ≠ k := by omega
    rw [replaceEach, standsFor_of_covers hc, if_neg hne, ih (k + 1) (by omega) (by omega)]
    rfl

/-- **Replacing spans from the top down gives every line what stands for it.**  The lines split into
    those above the first span, the span, and those below it. -/
theorem replaceFrom_eq_replaceEach : ∀ (es : List Edit) (k : Nat) (ls : List Text),
      (∀ e ∈ es, (k : Int) < e.first ∧ e.first ≤ e.last ∧ e.last ≤ k + ls.length) →
      es.Pairwise Above → replaceFrom k ls es = replaceEach es (k + 1) ls := by
  intro es
  induction es with
  | nil => intro k ls _ _; exact (replaceEach_nil ls (k + 1)).symm
  | cons e es ih =>
    intro k ls hes hp
    obtain ⟨hk, he, hlen⟩ := hes e mem_cons_self
    obtain ⟨hup, hp⟩ := pairwise_cons.mp hp
    have hfirst : ∀ f ∈ e :: es, e.first ≤ f.first := by
      intro f hf
      rcases mem_cons.mp hf with rfl | hf
      · exact Int.le_refl _
      · have : e.last < f.first := hup f hf
        omega
    -- `above`, the line on which the span begins, the rest of it, and `below`
    obtain ⟨above, l, inner, below, rfl, habove, hinner⟩ : ∃ above l inner below,
        ls = above ++ l :: (inner ++ below) ∧ (k + 1 + above.length : Int) = e.first
          ∧ (inner.length : Int) = e.last - e.first := by
      have hlt : (e.first - 1).toNat - k < ls.length := by omega
      refine ⟨ls.take ((e.first - 1).toNat - k), ls.get ⟨_, hlt⟩,
        (ls.drop ((e.first - 1).toNat - k + 1)).take (e.last - e.first).toNat,
        (ls.drop ((e.first - 1).toNat - k + 1)).drop (e.last - e.first).toNat, ?_, ?_, ?_⟩
      · rw [take_append_drop]
        simp
      · rw [length_take]
        omega
      · rw [length_take, length_drop]
        omega
    have hbelow : ∀ f ∈ es, (e.last.toNat : Int) < f.first ∧ f.first ≤ f.last
        ∧ f.last ≤ e.last.toNat + below.length := by
      intro f hf
      obtain ⟨-, hff, hfl⟩ := hes f (mem_cons_of_mem _ hf)
      have hef : e.last < f.first := hup f hf
      simp only [length_append, length_cons] at hfl
      omega
    have hcut : above ++ l :: (inner ++ below) = (above ++ l :: inner) ++ below := by simp
    have htake : (above ++ l :: (inner ++ below)).take ((e.first - 1).toNat - k) = above := by
      rw [show (e.first - 1).toNat - k = above.length by omega, take_left']
      rfl
    have hdrop : (above ++ l :: (inner ++ below)).drop (e.last.toNat - k) = below := by
      rw [hcut, show e.last.toNat - k = (above ++ l :: inner).length by
        simp only [length_append, length_cons]; omega, drop_left']
      rfl
    have hcover : e.covers ((k + 1 + above.length : Nat) : Int) := by
      rw [covers_iff]
      omega
    have hkeep : replaceEach (e :: es) (k + 1) above = above := by
      refine replaceEach_above fun f hf => ?_
      have := hfirst f hf
      omega
    -- below the span the edit covers no line any more
    have hskip : replaceEach (e :: es) (e.last.toNat + 1) below
        = replaceEach es (e.last.toNat + 1) below := by
      refine replaceEach_congr below _ fun j hj _ => find?_cons_of_neg ?_
      rw [Bool.not_eq_true, covers_eq_false_iff]
      omega
    rw [replaceFrom, htake, hdrop, ih _ _ hbelow hp, replaceEach_append, replaceEach,
      replaceEach_append, hkeep, replaceEach_inside inner _ (by omega) (by omega),
      nil_append, show k + 1 + above.length + 1 + inner.length = e.last.toNat + 1 by omega,
      hskip, standsFor_of_covers hcover, if_pos (by omega), append_assoc]

/-! ## §2. The order does not matter. -/

/-- Of elements two of which never pass together, the one that passes is found in any order. -/
theorem find?_congr_of_perm {p : Edit → Bool} (h : es.Perm fs)
    (hp : es.Pairwise fun e f => ¬ (p e ∧ p f)) : es.find? p = fs.find? p := by
  induction h with
  | nil => rfl
  | cons e _ ih =>
    rw [find?_cons, find?_cons, ih (pairwise_cons.mp hp).2]
  | swap e f l =>
    have hef : ¬ (p f ∧ p e) := (pairwise_cons.mp hp).1 e mem_cons_self
    rw [find?_cons, find?_cons, find?_cons, find?_cons]
    cases he : p e with
    | false => rfl
    | true =>
      cases hf : p f with
      | false => rfl
      | true => exact absurd ⟨hf, he⟩ hef
  | trans h₁ _ ih₁ ih₂ =>
    have hp' := hp.perm h₁ fun h' hk => h' ⟨hk.2, hk.1⟩
    rw [ih₁ hp, ih₂ hp']

theorem replaceEach_perm (h : es.Perm fs) (hp : es.Pairwise Apart) (k : Nat) (ls : List Text) :
    replaceEach es k ls = replaceEach fs k ls :=
  replaceEach_congr ls k fun j _ _ => find?_congr_of_perm h (hp.imp fun ha => ha j)

theorem precedes_iff : e.precedes f ↔ f.first < e.first ∨ f.first = e.first ∧ f.last ≤ e.last := by
  simp [precedes]

theorem insertOrdered_eq_orderedInsert (e : Edit) (fs : List Edit) :
    insertOrdered e fs = fs.orderedInsert (fun a b => a.precedes b) e := by
  induction fs with
  | nil => rfl
  | cons f fs ih => rw [insertOrdered, orderedInsert_cons, ih]

theorem bottomUp_eq_insertionSort (es : List Edit) :
    bottomUp es = es.insertionSort fun a b => a.precedes b := by
  induction es with
  | nil => rfl
  | cons e es ih =>
    rw [insertionSort_cons, ← ih, ← insertOrdered_eq_orderedInsert]
    rfl

theorem bottomUp_perm (es : List Edit) : (bottomUp es).Perm es := by
  rw [bottomUp_eq_insertionSort]
  exact perm_insertionSort _ _

theorem bottomUp_sorted (es : List Edit) : (bottomUp es).Pairwise fun a b => a.precedes b := by
  have : Std.Total (fun a b : Edit => a.precedes b) := ⟨fun a b => by
    rw [precedes_iff, precedes_iff]
    omega⟩
  have : IsTrans Edit (fun a b => a.precedes b) := ⟨fun a b c hab hbc => by
    rw [precedes_iff] at hab hbc ⊢
    omega⟩
  rw [bottomUp_eq_insertionSort]
  exact pairwise_insertionSort _ _

/-- An edit that all others precede stays last. -/
theorem bottomUp_concat {d : Edit} (h : ∀ e ∈ es, e.precedes d) :
    bottomUp (es ++ [d]) = bottomUp es ++ [d] := by
  have hinsert : ∀ (e : Edit) (fs : List Edit), e.precedes d →
      insertOrdered e (fs ++ [d]) = insertOrdered e fs ++ [d] := by
    intro e fs he
    induction fs with
    | nil => simp [insertOrdered, he]
    | cons f fs ih =>
      rw [cons_append, insertOrdered, insertOrdered, ih]
      split <;> rfl
  induction es with
  | nil => rfl
  | cons e es ih =>
    show insertOrdered e (bottomUp (es ++ [d])) = insertOrdered e (bottomUp es) ++ [d]
    rw [ih (forall_mem_cons.mp h).2, hinsert _ _ (h e mem_cons_self)]

/-! ## §3. When edits can be worked in. -/

/-- Of two edits that share no line, the one worked in first stands below the other: otherwise its
    first line would belong to both. -/
theorem above_of_precedes (he : e.first ≤ e.last) (ha : e.Apart f) (hp : e.precedes f) :
    f.Above e := by
  show f.last < e.first
  have hshare := ha e.first
  rw [covers_iff, covers_iff] at hshare
  rw [precedes_iff] at hp
  omega

/-- **Edits that were worked in lie in the text, each above the one before it.**  Every edit ends
    above the first line of its predecessor, so what has been replaced is below it and the text is
    still long enough. -/
theorem of_applyAll_eq_ok (ds : List Edit) (ls out : List Text) (previous : Option Int)
    (hds : ∀ e ∈ ds, e.first ≤ e.last + 1) (hp : ds.Pairwise (fun a b => a.precedes b))
    (h : applyAll ls previous ds = .ok out) :
    (∀ e ∈ ds, 1 ≤ e.first ∧ e.last ≤ ls.length ∧ ∀ q ∈ previous, e.last < q)
      ∧ ds.Pairwise fun f e => e.Above f := by
  induction ds generalizing ls out previous with
  | nil => exact ⟨by simp, List.Pairwise.nil⟩
  | cons e ds ih =>
    obtain ⟨hup, hp⟩ := pairwise_cons.mp hp
    have he := hds e mem_cons_self
    rw [applyAll] at h
    split at h
    next => cases h
    next hout =>
      split at h
      next => cases h
      next hover =>
        simp only [Bool.or_eq_true, decide_eq_true_eq, not_or, Int.not_lt] at hout
        have hlast : ∀ q ∈ previous, e.last < q := by
          intro q hq
          by_contra hle
          rw [Option.mem_def] at hq
          exact hover (by simpa [hq] using hle)
        -- by induction the others lie in the text with `e` worked in, above the first line of `e`
        obtain ⟨hin, habove⟩ := ih _ _ _ (forall_mem_cons.mp hds).2 hp h
        refine ⟨fun f hf => ?_, pairwise_cons.mpr ⟨fun f hf => ?_, habove⟩⟩
        · rcases mem_cons.mp hf with rfl | hf
          · exact ⟨hout.1, by omega, hlast⟩
          · obtain ⟨hone, -, hq⟩ := hin f hf
            have hfe : f.last < e.first := hq e.first rfl
            refine ⟨hone, by omega, fun q hq' => ?_⟩
            have hle := precedes_iff.mp (hup f hf)
            have hqe := hlast q hq'
            omega
        · exact (hin f hf).2.2 e.first rfl

end Edit

/-- The fault is a broken promise between parts of the program. -/
def Fault.breaksPromise : Fault → Bool
  | .noConstructorText _ | .noLineSpan _ | .noStartLine _ | .noFileName => true
  | .editOutside _ _ _ | .editsOverlap _ => true
  | _ => false

/-- Edits fail by a broken promise only. -/
theorem Edit.breaksPromise_of_applyAll (ds : List Edit) (ls : List Text) (previous : Option Int)
    (f : Fault) (h : applyAll ls previous ds = .error f) : f.breaksPromise := by
  induction ds generalizing ls previous f with
  | nil => cases h
  | cons e ds ih =>
    rw [applyAll] at h
    split at h
    next =>
      cases h
      rfl
    next =>
      split at h
      next =>
        cases h
        rfl
      next => exact ih _ _ _ h

/-! ## §4. The edits of a file. -/

/-- The edit of the directives has a span of lines to replace. -/
def DirectiveEdit.isPlaced (d : DirectiveEdit) : Bool := d.first.isSome && d.last.isSome

theorem DirectiveEdit.toEdit_of_isPlaced {d : DirectiveEdit} (h : d.isPlaced) :
    ∃ a b, d.first = some a ∧ d.last = some b
      ∧ d.toEdit = { first := a, last := b, lines := d.text.lines } := by
  obtain ⟨first, last, text⟩ := d
  cases first with
  | none => simp [isPlaced] at h
  | some a =>
    cases last with
    | none => simp [isPlaced] at h
    | some b => exact ⟨a, b, rfl, rfl, rfl⟩

theorem DirectiveEdit.toEdit_of_not_isPlaced {d : DirectiveEdit} (h : d.isPlaced = false) :
    d.toEdit = { first := 1, last := 0, lines := d.text.lines ++ [[]] } := by
  obtain ⟨first, last, text⟩ := d
  cases first with
  | none => rfl
  | some a =>
    cases last with
    | none => rfl
    | some b => simp [isPlaced] at h

namespace Edits

/-- No span ends before it begins: the edits of classes have their spans, and that of the directives
    has one, is put at the top, or is not there. -/
structure Ordered (es : Edits) : Prop where
  classes : ∀ e ∈ es.classes, ∃ a b, e.first = some a ∧ e.last = some b ∧ a ≤ b
  directives : ∀ d ∈ es.directives, ∀ a b, d.first = some a → d.last = some b → a ≤ b

/-- The edits that replace lines. -/
def spans (es : Edits) : List Edit :=
  es.classes.map ClassEdit.placed
    ++ ((es.directives.filter DirectiveEdit.isPlaced).map DirectiveEdit.toEdit).toList

/-- The lines that are put above the first line: directives without a span, and an empty line. -/
def topLines (es : Edits) : List Text :=
  match es.directives with
  | some d => if d.isPlaced then [] else d.text.lines ++ [[]]
  | none => []

/-- **All edits at once**: what is put at the top, and every line with what stands for it. -/
def spliced (es : Edits) (ls : List Text) : List Text :=
  es.topLines ++ Edit.replaceEach es.spans 1 ls

/-- Every span lies in a text of `n` lines, and no two share a line. -/
structure Fits (es : Edits) (n : Nat) : Prop where
  inside : ∀ e ∈ es.spans, 1 ≤ e.first ∧ e.last ≤ n
  apart : es.spans.Pairwise Edit.Apart

/-- All edits, with their places. -/
def placed (es : Edits) : List Edit :=
  es.classes.map ClassEdit.placed ++ (es.directives.map DirectiveEdit.toEdit).toList

variable {es : Edits}

theorem apply_eq_applyAll (h : es.Ordered) (text : Text) :
    es.apply text = (Edit.applyAll text.lines none (Edit.bottomUp es.placed)).map Text.unlines := by
  rw [apply, toList, mapM_toEdit h.classes]
  show Edit.applyAll text.lines none (Edit.bottomUp es.placed) >>= _ = _
  cases Edit.applyAll text.lines none (Edit.bottomUp es.placed) <;> rfl

/-- The edits are those with a span, and perhaps one at the top. -/
theorem placed_cases (es : Edits) : (es.topLines = [] ∧ es.placed = es.spans)
      ∨ ∃ top : Edit, top.first = 1 ∧ top.last = 0 ∧ top.lines = es.topLines
        ∧ es.placed = es.spans ++ [top] := by
  cases hd : es.directives with
  | none => exact .inl ⟨by simp [topLines, hd], by simp [placed, spans, hd]⟩
  | some d =>
    cases hp : d.isPlaced with
    | true => exact .inl ⟨by simp [topLines, hd, hp],
        by simp [placed, spans, hd, Option.filter, hp]⟩
    | false =>
      refine .inr ⟨d.toEdit, ?_⟩
      rw [DirectiveEdit.toEdit_of_not_isPlaced hp]
      refine ⟨rfl, rfl, by simp [topLines, hd, hp], ?_⟩
      simp [placed, spans, hd, Option.filter, hp, DirectiveEdit.toEdit_of_not_isPlaced hp]

theorem Ordered.first_le_last (h : es.Ordered) {e : Edit} (he : e ∈ es.spans) :
    e.first ≤ e.last := by
  rcases mem_append.mp he with he | he
  · obtain ⟨c, hc, rfl⟩ := mem_map.mp he
    obtain ⟨a, b, ha, hb, hab⟩ := h.classes c hc
    simpa [ClassEdit.placed, ha, hb] using hab
  · obtain ⟨d, hd, rfl⟩ := Option.map_eq_some_iff.mp (Option.mem_toList.mp he)
    obtain ⟨hd, hp⟩ := Option.filter_eq_some_iff.mp hd
    obtain ⟨a, b, ha, hb, heq⟩ := DirectiveEdit.toEdit_of_isPlaced hp
    rw [heq]
    exact h.directives d hd a b ha hb

variable {n : Nat} {ls : List Text}

/-- Edits with spans that share no line come out of the sorting from the bottom upwards. -/
theorem Fits.above (h : es.Ordered) (hf : es.Fits n) :
    (Edit.bottomUp es.spans).Pairwise fun f e => e.Above f := by
  have hperm := Edit.bottomUp_perm es.spans
  have hapart := hf.apart.perm hperm.symm Edit.Apart.symm
  refine ((Edit.bottomUp_sorted es.spans).and hapart).imp_of_mem fun he _ hr => ?_
  exact Edit.above_of_precedes (h.first_le_last (hperm.mem_iff.mp he)) hr.2 hr.1

/-- The spans alone, replaced from the top down. -/
theorem replaceFrom_spans (h : es.Ordered) (hf : es.Fits ls.length) :
    Edit.replaceFrom 0 ls (Edit.bottomUp es.spans).reverse = Edit.replaceEach es.spans 1 ls := by
  have hperm : (Edit.bottomUp es.spans).reverse.Perm es.spans :=
    (reverse_perm _).trans (Edit.bottomUp_perm _)
  rw [Edit.replaceFrom_eq_replaceEach _ 0 ls ?_ (pairwise_reverse.mpr (hf.above h)),
    Edit.replaceEach_perm hperm (hf.apart.perm hperm.symm Edit.Apart.symm)]
  intro e he
  have hmem := hperm.mem_iff.mp he
  obtain ⟨h₁, h₂⟩ := hf.inside e hmem
  exact ⟨by omega, h.first_le_last hmem, by omega⟩

/-- **Edits that fit are worked in all at once.** -/
theorem applyAll_of_fits (h : es.Ordered) (hf : es.Fits ls.length) :
    Edit.applyAll ls none (Edit.bottomUp es.placed) = .ok (es.spliced ls) := by
  have hperm := Edit.bottomUp_perm es.spans
  have hinside : ∀ e ∈ Edit.bottomUp es.spans, e.Inside ls.length := by
    intro e he
    have hmem := hperm.mem_iff.mp he
    obtain ⟨h₁, h₂⟩ := hf.inside e hmem
    have := h.first_le_last hmem
    exact ⟨h₁, by omega, h₂⟩
  rcases es.placed_cases with ⟨htop, hp⟩ | ⟨top, h₁, h₀, hlines, hp⟩
  · rw [hp, Edit.applyAll_eq_replaceFrom _ ls none hinside (hf.above h) (by simp),
      replaceFrom_spans h hf, spliced, htop]
    rfl
  · -- what is put at the top comes last, and above it there is nothing
    have hlast : ∀ e ∈ es.spans, e.precedes top := by
      intro e he
      have := hf.inside e he
      have := h.first_le_last he
      rw [Edit.precedes_iff]
      omega
    have htop : top.Inside ls.length := ⟨by omega, by omega, by omega⟩
    have habove : (Edit.bottomUp es.spans ++ [top]).Pairwise fun f e => e.Above f := by
      refine pairwise_append.mpr ⟨hf.above h, pairwise_singleton _ _, ?_⟩
      intro e he f hf'
      rw [mem_singleton.mp hf']
      have := (hinside e he).1
      show top.last < e.first
      omega
    rw [hp, Edit.bottomUp_concat hlast, Edit.applyAll_eq_replaceFrom _ ls none ?_ habove (by simp),
      reverse_concat, Edit.replaceFrom, h₁, h₀, hlines]
    · show Except.ok (ls.take 0 ++ es.topLines
        ++ Edit.replaceFrom 0 (ls.drop 0) (Edit.bottomUp es.spans).reverse) = _
      rw [take_zero, drop_zero, replaceFrom_spans h hf]
      rfl
    · intro e he
      rcases mem_append.mp he with he | he
      · exact hinside e he
      · exact mem_singleton.mp he ▸ htop

/-- Edits that were worked in did fit. -/
theorem fits_of_applyAll (h : es.Ordered) {out : List Text}
    (hok : Edit.applyAll ls none (Edit.bottomUp es.placed) = .ok out) : es.Fits ls.length := by
  have hperm := Edit.bottomUp_perm es.placed
  have hsub : es.spans.Sublist es.placed := by
    rcases es.placed_cases with ⟨-, hp⟩ | ⟨top, -, -, -, hp⟩
    · rw [hp]
    · rw [hp]
      exact sublist_append_left _ _
  have hspans : ∀ e ∈ es.placed, e.first ≤ e.last + 1 := by
    intro e he
    rcases es.placed_cases with ⟨-, hp⟩ | ⟨top, h₁, h₀, -, hp⟩
    · have := h.first_le_last (hp ▸ he)
      omega
    · rw [hp] at he
      rcases mem_append.mp he with he | he
      · have := h.first_le_last he
        omega
      · rw [mem_singleton.mp he]
        omega
  -- each edit ended above the one before it, so no two share a line
  obtain ⟨hin, habove⟩ := Edit.of_applyAll_eq_ok _ ls out none
    (fun e he => hspans e (hperm.mem_iff.mp he)) (Edit.bottomUp_sorted _) hok
  have hapart : (Edit.bottomUp es.placed).Pairwise Edit.Apart :=
    habove.imp fun ha => (Edit.Above.apart ha).symm
  refine ⟨fun e he => ?_, (hapart.perm hperm Edit.Apart.symm).sublist hsub⟩
  have := hin e (hperm.mem_iff.mpr (hsub.subset he))
  exact ⟨this.1, this.2.1⟩

theorem Fits.perm (hf : es.Fits n) {cs : List ClassEdit} (hc : cs.Perm es.classes) :
    ({ es with classes := cs } : Edits).Fits n
      ∧ ({ es with classes := cs } : Edits).spans.Perm es.spans := by
  have hperm : ({ es with classes := cs } : Edits).spans.Perm es.spans :=
    (hc.map ClassEdit.placed).append_right _
  exact ⟨⟨fun e he => hf.inside e (hperm.mem_iff.mp he),
    hf.apart.perm hperm.symm Edit.Apart.symm⟩, hperm⟩

/-- Edits in order can be applied exactly if they fit. -/
theorem apply_eq_ok_iff (h : es.Ordered) {text out : Text} : es.apply text = .ok out
      ↔ es.Fits text.lines.length ∧ out = Text.unlines (es.spliced text.lines) := by
  rw [apply_eq_applyAll h]
  constructor
  · intro hok
    obtain ⟨ls, hls, rfl⟩ := map_eq_ok.mp hok
    have hf := fits_of_applyAll h hls
    rw [applyAll_of_fits h hf] at hls
    cases hls
    exact ⟨hf, rfl⟩
  · rintro ⟨hf, rfl⟩
    rw [applyAll_of_fits h hf]
    rfl

/-- **Working edits in is one simultaneous replacement.**  It fails, on a broken promise, exactly if
    a span leaves the text or two spans share a line.  Otherwise every line of the text gets what
    stands for it, and the order of the edits does not matter. -/
theorem apply_simultaneous (h : es.Ordered) (text : Text) :
    ((∃ f, es.apply text = .error f ∧ f.breaksPromise = true)
        ↔ (∃ e ∈ es.spans, e.first < 1 ∨ text.lines.length < e.last)
          ∨ ¬ es.spans.Pairwise Edit.Apart)
      ∧ (¬ ((∃ e ∈ es.spans, e.first < 1 ∨ text.lines.length < e.last)
          ∨ ¬ es.spans.Pairwise Edit.Apart) →
        es.apply text = .ok (Text.unlines (es.spliced text.lines)))
      ∧ ∀ cs : List ClassEdit, cs.Perm es.classes →
        (({ es with classes := cs } : Edits).apply text).toOption = (es.apply text).toOption := by
  have hfits : es.Fits text.lines.length
      ↔ ¬ ((∃ e ∈ es.spans, e.first < 1 ∨ text.lines.length < e.last)
        ∨ ¬ es.spans.Pairwise Edit.Apart) := by
    constructor
    · rintro hf (⟨e, he, hbad⟩ | hno)
      · have := hf.inside e he
        omega
      · exact hno hf.apart
    · intro hno
      rw [not_or, not_not] at hno
      refine ⟨fun e he => ?_, hno.2⟩
      by_contra hbad
      exact hno.1 ⟨e, he, by omega⟩
  refine ⟨⟨?_, fun hbad => ?_⟩, fun hok => (apply_eq_ok_iff h).mpr ⟨hfits.mpr hok, rfl⟩, ?_⟩
  · rintro ⟨f, hf, -⟩
    by_contra hok
    rw [(apply_eq_ok_iff h).mpr ⟨hfits.mpr hok, rfl⟩] at hf
    cases hf
  · cases happly : es.apply text with
    | ok out => exact absurd hbad (hfits.mp ((apply_eq_ok_iff h).mp happly).1)
    | error f =>
        refine ⟨f, rfl, ?_⟩
        rw [apply_eq_applyAll h] at happly
        cases hall : Edit.applyAll text.lines none (Edit.bottomUp es.placed) with
        | ok ls => simp [hall, Except.map] at happly
        | error g =>
            simp only [hall, Except.map, Except.error.injEq] at happly
            exact happly ▸ Edit.breaksPromise_of_applyAll _ _ _ _ hall
  · intro cs hc
    -- both succeed with one text, or neither does
    have hcs : ({ es with classes := cs } : Edits).Ordered :=
      ⟨fun e he => h.classes e (hc.mem_iff.mp he), h.directives⟩
    refine Option.ext fun out => ?_
    rw [toOption_eq_some, toOption_eq_some, apply_eq_ok_iff hcs, apply_eq_ok_iff h]
    have hspliced : es.Fits text.lines.length →
        ({ es with classes := cs } : Edits).spliced text.lines = es.spliced text.lines := by
      intro hf
      obtain ⟨hf', hperm⟩ := hf.perm hc
      show es.topLines ++ _ = es.topLines ++ _
      rw [Edit.replaceEach_perm hperm hf'.apart]
    constructor
    · rintro ⟨hf, rfl⟩
      have hf' : es.Fits text.lines.length := (hf.perm hc.symm).1
      exact ⟨hf', by rw [hspliced hf']⟩
    · rintro ⟨hf, rfl⟩
      exact ⟨(hf.perm hc).1, by rw [hspliced hf]⟩

/-- Two classes, the lower one of which grows, and directives put at the top. -/
theorem apply_simultaneous_two_classes :
    Edits.apply ⟨[⟨none, some 1, some 1, "x".toList⟩, ⟨none, some 3, some 4, "y\nz\n".toList⟩],
        some ⟨none, none, "d".toList⟩⟩ "a\nb\nc\nd".toList
      = .ok "d\n\nx\nb\ny\nz\n".toList := by
  have hordered : Edits.Ordered ⟨[⟨none, some 1, some 1, "x"⟩,
      ⟨none, some 3, some 4, "y\nz\n"⟩], some ⟨none, none, "d"⟩⟩ := by
    refine ⟨fun e he => ?_, fun d hd a b ha _ => ?_⟩
    · simp only [mem_cons, not_mem_nil, or_false] at he
      rcases he with rfl | rfl
      · exact ⟨1, 1, rfl, rfl, by decide⟩
      · exact ⟨3, 4, rfl, rfl, by decide⟩
    · cases hd
      cases ha
  refine ((apply_simultaneous hordered "a\nb\nc\nd").2.1 ?_).trans (by decide)
  rintro (⟨e, he, hbad⟩ | hno)
  · have hspans : e = ⟨1, 1, ["x"]⟩ ∨ e = ⟨3, 4, ["y", "z", []]⟩ := by
      simpa [spans, ClassEdit.placed, DirectiveEdit.isPlaced, Text.lines, Text.split] using he
    have hlen : (Text.lines "a\nb\nc\nd").length = 4 := by decide
    rw [hlen] at hbad
    rcases hspans with rfl | rfl <;> simp at hbad
  · refine hno (pairwise_cons.mpr ⟨fun f hf => ?_, pairwise_singleton _ _⟩)
    obtain rfl := mem_singleton.mp hf
    exact Edit.Above.apart (show (1 : Int) < 3 by decide)

end Edits

end DartData
