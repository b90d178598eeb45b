import DartData.Proofs.Outcome
import DartData.Proofs.Text.Lines

/-!
# Edits replace their spans

Edits are worked in one after another from the bottom of the text, and the text changes its length
on the way.  If their spans do not overlap, this comes to the same as replacing all spans at once,
each counted in the text as it was:

    apply (classes + directives) text = unlines (replaceFrom 0 text.lines (directives ++ classes))

`replaceFrom` is that replacement, from the top down.
-/

namespace DartData

open List

namespace Edit

/-! ## §1. Replacing all spans at once. -/

/-- The lines `ls` after the line number `k`, with the spans of the edits replaced by their lines.
    The edits come from the top down. -/
def replaceFrom (k : Nat) (ls : List Text) : List Edit → List Text
  | [] => ls
  | e :: es =>
    ls.take ((e.first - 1).toNat - k) ++ e.lines
      ++ replaceFrom e.last.toNat (ls.drop (e.last.toNat - k)) es

/-- The edit has a span inside of a text of `n` lines; the span may be empty. -/
def Inside (e : Edit) (n : Nat) : Prop := 1 ≤ e.first ∧ e.first ≤ e.last + 1 ∧ e.last ≤ n

/-- The edit `e` ends above the edit `f`. -/
def Above (e f : Edit) : Prop := e.last < f.first

variable {e : Edit} {ds es : List Edit}

/-- In the spans above it, the text is the same with the last edit worked in. -/
theorem replaceFrom_concat : ∀ (es : List Edit) (k : Nat) (ls : List Text),
      (∀ f ∈ es, f.first ≤ f.last + 1 ∧ f.Above e ∧ (k : Int) < f.first) →
      es.Pairwise Above → (k : Int) < e.first → (e.first - 1).toNat - k ≤ ls.length →
      e.first ≤ e.last + 1 →
      replaceFrom k (ls.take ((e.first - 1).toNat - k) ++ e.lines ++ ls.drop (e.last.toNat - k)) es
        = replaceFrom k ls (es ++ [e]) := by
  intro es
  induction es with
  | nil => intro k ls _ _ _ _ _; rfl
  | cons f es ih =>
    intro k ls hes hp hk hlen he
    obtain ⟨hff, hfe, hkf⟩ := hes f mem_cons_self
    have hfe : f.last < e.first := hfe
    obtain ⟨hf, hp⟩ := pairwise_cons.mp hp
    have htake : (f.first - 1).toNat - k ≤ (ls.take ((e.first - 1).toNat - k)).length := by
      rw [length_take]
      omega
    have hdrop : f.last.toNat - k ≤ (ls.take ((e.first - 1).toNat - k)).length := by
      rw [length_take]
      omega
    -- the span of `f` lies in front of that of `e`, and is cut out of the same lines
    rw [cons_append, replaceFrom, replaceFrom, append_assoc (ls.take _),
      take_append_of_le_length htake, drop_append_of_le_length hdrop,
      take_take, Nat.min_eq_left (by omega), drop_take]
    congr 1
    have h₁ : (e.first - 1).toNat - k - (f.last.toNat - k)
        = (e.first - 1).toNat - f.last.toNat := by omega
    have h₂ : ls.drop (e.last.toNat - k)
        = (ls.drop (f.last.toNat - k)).drop (e.last.toNat - f.last.toNat) := by
      rw [drop_drop]
      congr 1
      omega
    rw [h₁, h₂, ← append_assoc]
    refine ih f.last.toNat (ls.drop (f.last.toNat - k)) (fun g hg => ?_) hp (by omega) ?_ he
    · obtain ⟨hgg, hge, -⟩ := hes g (mem_cons_of_mem _ hg)
      have hfg : f.last < g.first := hf g hg
      exact ⟨hgg, hge, by omega⟩
    · rw [length_drop]
      omega

/-- Edits that end above some lines leave them alone. -/
theorem replaceFrom_append (ms : List Text) : ∀ (es : List Edit) (k : Nat) (ls : List Text),
      (∀ e ∈ es, (k : Int) < e.first ∧ e.first ≤ e.last + 1 ∧ e.last ≤ k + ls.length) →
      es.Pairwise Above → replaceFrom k (ls ++ ms) es = replaceFrom k ls es ++ ms := by
  intro es
  induction es with
  | nil => intro k ls _ _; rfl
  | cons e es ih =>
    intro k ls hes hp
    obtain ⟨hk, he, hlen⟩ := hes e mem_cons_self
    obtain ⟨hup, hp⟩ := pairwise_cons.mp hp
    have hbelow : ∀ f ∈ es, (e.last.toNat : Int) < f.first ∧ f.first ≤ f.last + 1
        ∧ f.last ≤ e.last.toNat + (ls.drop (e.last.toNat - k)).length := by
      intro f hf
      obtain ⟨-, hff, hfl⟩ := hes f (mem_cons_of_mem _ hf)
      have hef : e.last < f.first := hup f hf
      rw [length_drop]
      omega
    rw [replaceFrom, replaceFrom, take_append_of_le_length (by omega),
      drop_append_of_le_length (by omega), ih _ _ hbelow hp]
    simp only [append_assoc]

/-! ## §2. Working edits in from the bottom. -/

theorem splice_eq {ls : List Text} (h : e.Inside ls.length) :
    e.splice ls = ls.take (e.first - 1).toNat ++ e.lines ++ ls.drop e.last.toNat := by
  obtain ⟨h₁, h₂, h₃⟩ := h
  have hs : spanEnd e.last ls.length = e.last.toNat := by
    unfold spanEnd
    rw [if_neg (by omega)]
  rw [splice, hs, Nat.max_eq_right (by omega)]

/-- **Edits from the bottom upwards replace their spans**, as long as each ends above the one
    worked in before it. -/
theorem applyAll_eq_replaceFrom (ds : List Edit) (ls : List Text) (previous : Option Int)
    (hin : ∀ e ∈ ds, e.Inside ls.length) (hp : ds.Pairwise (fun f e => e.Above f))
    (hprev : ∀ q ∈ previous, ∀ e ∈ ds, e.last < q) :
    applyAll ls previous ds = .ok (replaceFrom 0 ls ds.reverse) := by
  induction ds generalizing ls previous with
  | nil => rfl
  | cons e ds ih =>
    have he : e.Inside ls.length := hin e mem_cons_self
    have ⟨h₁, h₂, h₃⟩ := he
    obtain ⟨hup, hp⟩ := pairwise_cons.mp hp
    have hok : ¬ (e.first < 1 || e.last > ls.length) := by
      simp only [Bool.or_eq_true, decide_eq_true_eq]
      omega
    have hno : ¬ previous.any (· ≤ e.last) := by
      rw [Option.any_eq_true]
      rintro ⟨q, hq, hle⟩
      have := hprev q hq e mem_cons_self
      simp only [decide_eq_true_eq] at hle
      omega
    have hlen : (e.first - 1).toNat ≤ (e.splice ls).length := by
      rw [splice_eq he, length_append, length_append, length_take]
      omega
    -- the edit worked in first is the last one from the top, hence `replaceFrom_concat`
    rw [applyAll, if_neg hok, if_neg hno, ih (e.splice ls) (some e.first) ?_ hp ?_]
    · rw [reverse_cons, splice_eq he]
      have hc := replaceFrom_concat (e := e) ds.reverse 0 ls ?_ ?_ (by omega) (by omega) h₂
      · rw [Nat.sub_zero, Nat.sub_zero] at hc
        rw [hc]
      · intro f hf
        rw [mem_reverse] at hf
        obtain ⟨h₄, h₅, -⟩ := hin f (mem_cons_of_mem _ hf)
        exact ⟨h₅, hup f hf, by omega⟩
      · exact pairwise_reverse.mpr hp
    · intro f hf
      obtain ⟨h₄, h₅, -⟩ := hin f (mem_cons_of_mem _ hf)
      have hfe : f.last < e.first := hup f hf
      exact ⟨h₄, h₅, by omega⟩
    · intro q hq f hf
      have hfe : f.last < e.first := hup f hf
      rw [Option.mem_some_iff] at hq
      omega

/-! ## §3. Order. -/

/-- Where an edit is sorted in. -/
theorem insertOrdered_eq {fs : List Edit} (hf : ∀ f ∈ fs, e.precedes f = false)
    (hd : ∀ d ∈ ds, e.precedes d) : insertOrdered e (fs ++ ds) = fs ++ e :: ds := by
  induction fs with
  | nil =>
    cases ds with
    | nil => rfl
    | cons d ds =>
      rw [nil_append, insertOrdered, if_pos (hd d mem_cons_self)]
      rfl
  | cons f fs ih =>
    have hne : ¬ e.precedes f := by simp [hf f mem_cons_self]
    rw [cons_append, insertOrdered, if_neg hne, ih (forall_mem_cons.mp hf).2]
    rfl

/-- Edits that come from the top down are turned round, and those that come after them stay
    last. -/
theorem bottomUp_eq (hes : ∀ e ∈ es, e.first ≤ e.last) (hp : es.Pairwise Above)
    (hds : bottomUp ds = ds) (hd : ∀ d ∈ ds, d.first ≤ d.last + 1 ∧ ∀ e ∈ es, d.Above e) :
    bottomUp (es ++ ds) = es.reverse ++ ds := by
  induction es with
  | nil => exact hds
  | cons e es ih =>
    obtain ⟨he, hp⟩ := pairwise_cons.mp hp
    have hle := hes e mem_cons_self
    show insertOrdered e (bottomUp (es ++ ds)) = _
    rw [ih (forall_mem_cons.mp hes).2 hp
        fun d h => ⟨(hd d h).1, fun f hf => (hd d h).2 f (mem_cons_of_mem _ hf)⟩,
      insertOrdered_eq, reverse_cons, append_assoc]
    · rfl
    · intro f hf
      have hef : e.last < f.first := he f (mem_reverse.mp hf)
      simp only [precedes, Bool.or_eq_false_iff, decide_eq_false_iff_not, Bool.and_eq_false_iff,
        beq_eq_false_iff_ne]
      omega
    · intro d h
      obtain ⟨hdd, hde⟩ := hd d h
      have hde : d.last < e.first := hde e mem_cons_self
      simp only [precedes, Bool.or_eq_true, decide_eq_true_eq, Bool.and_eq_true, beq_iff_eq]
      omega

/-! ## §4. Lines outside of all spans. -/

theorem mem_replaceFrom (es : List Edit) (k : Nat) (ls : List Text) {l : Text}
    (hl : l ∈ replaceFrom k ls es) : l ∈ ls ∨ ∃ e ∈ es, l ∈ e.lines := by
  induction es generalizing k ls l with
  | nil => exact .inl hl
  | cons e es ih =>
    rw [replaceFrom, mem_append, mem_append] at hl
    rcases hl with (hl | hl) | hl
    · exact .inl (mem_of_mem_take hl)
    · exact .inr ⟨e, mem_cons_self, hl⟩
    · rcases ih _ _ hl with hl | ⟨f, hf, hl⟩
      · exact .inl (mem_of_mem_drop hl)
      · exact .inr ⟨f, mem_cons_of_mem _ hf, hl⟩

/-- The lines after the line number `k` that no edit replaces, in order. -/
def outside (es : List Edit) (k : Nat) : List Text → List Text
  | [] => []
  | l :: ls =>
    if es.any fun e => e.first ≤ (k + 1 : Nat) && (k + 1 : Nat) ≤ e.last then outside es (k + 1) ls
    else l :: outside es (k + 1) ls

theorem outside_append (es : List Edit) (ls ms : List Text) :
    ∀ k, outside es k (ls ++ ms) = outside es k ls ++ outside es (k + ls.length) ms := by
  induction ls with
  | nil => intro k; rfl
  | cons l ls ih =>
    intro k
    rw [cons_append, outside, outside, ih, length_cons]
    rw [show k + 1 + ls.length = k + (ls.length + 1) by omega]
    split <;> rfl

theorem outside_map (es : List Edit) (f : Text → Text) (ls : List Text) :
    ∀ k, outside es k (ls.map f) = (outside es k ls).map f := by
  induction ls with
  | nil => intro k; rfl
  | cons l ls ih =>
    intro k
    rw [map_cons, outside, outside, ih]
    split <;> simp

theorem outside_sublist (es : List Edit) (ls : List Text) : ∀ k, (outside es k ls).Sublist ls := by
  induction ls with
  | nil => intro k; exact List.Sublist.refl _
  | cons l ls ih =>
    intro k
    rw [outside]
    split
    · exact (ih (k + 1)).cons l
    · exact (ih (k + 1)).cons_cons l

/-- Inside of a span nothing is left. -/
theorem outside_of_covered (he : e ∈ es) (ls : List Text) (k : Nat) (h₁ : e.first ≤ k + 1)
    (h₂ : k + ls.length ≤ e.last) : outside es k ls = [] := by
  induction ls generalizing k with
  | nil => rfl
  | cons l ls ih =>
    rw [length_cons] at h₂
    have hc : (es.any fun e => e.first ≤ (k + 1 : Nat) && (k + 1 : Nat) ≤ e.last) := by
      refine any_eq_true.mpr ⟨e, he, ?_⟩
      simp only [Bool.and_eq_true, decide_eq_true_eq]
      omega
    rw [outside, if_pos hc]
    exact ih (k + 1) (by omega) (by omega)

/-- **Lines outside of all spans stay, in their order.** -/
theorem outside_sublist_replaceFrom {all : List Edit} :
    ∀ (es : List Edit) (k : Nat) (ls : List Text),
      (∀ e ∈ es, e ∈ all ∧ (k : Int) < e.first ∧ e.first ≤ e.last + 1 ∧ e.last ≤ k + ls.length) →
      es.Pairwise Above → (outside all k ls).Sublist (replaceFrom k ls es) := by
  intro es
  induction es with
  | nil => intro k ls _ _; exact outside_sublist all ls k
  | cons e es ih =>
    intro k ls hes hp
    obtain ⟨hmem, hk, he, hlen⟩ := hes e mem_cons_self
    obtain ⟨hup, hp⟩ := pairwise_cons.mp hp
    -- the lines above the span, in the span and below it
    have hsplit : ls = ls.take ((e.first - 1).toNat - k)
        ++ ((ls.drop ((e.first - 1).toNat - k)).take (e.last.toNat - (e.first - 1).toNat)
          ++ ls.drop (e.last.toNat - k)) := by
      have hd : ls.drop (e.last.toNat - k) = (ls.drop ((e.first - 1).toNat - k)).drop
          (e.last.toNat - (e.first - 1).toNat) := by
        rw [drop_drop]
        congr 1
        omega
      rw [hd, take_append_drop, take_append_drop]
    have habove : (ls.take ((e.first - 1).toNat - k)).length = (e.first - 1).toNat - k := by
      rw [length_take]
      omega
    have hspan : ((ls.drop ((e.first - 1).toNat - k)).take
        (e.last.toNat - (e.first - 1).toNat)).length = e.last.toNat - (e.first - 1).toNat := by
      rw [length_take, length_drop]
      omega
    have hcov : outside all (k + (ls.take ((e.first - 1).toNat - k)).length)
        ((ls.drop ((e.first - 1).toNat - k)).take (e.last.toNat - (e.first - 1).toNat)) = [] :=
      outside_of_covered hmem _ _ (by omega) (by omega)
    have hbelow : k + (ls.take ((e.first - 1).toNat - k)).length
        + ((ls.drop ((e.first - 1).toNat - k)).take
          (e.last.toNat - (e.first - 1).toNat)).length = e.last.toNat := by omega
    rw [replaceFrom]
    conv => lhs; rw [hsplit]
    rw [outside_append, outside_append, hcov, nil_append, hbelow]
    refine List.Sublist.append ((outside_sublist all _ k).trans (sublist_append_left _ _)) ?_
    refine ih e.last.toNat (ls.drop (e.last.toNat - k)) (fun f hf => ?_) hp
    obtain ⟨hfm, -, hff, hfl⟩ := hes f (mem_cons_of_mem _ hf)
    have hef : e.last < f.first := hup f hf
    refine ⟨hfm, by omega, hff, ?_⟩
    rw [length_drop]
    omega

end Edit

/-! ## §5. The edits of a file. -/

/-- The place and the lines of an edit of a class that has a place. -/
def ClassEdit.placed (e : ClassEdit) : Edit :=
  { first := e.first.getD 0, last := e.last.getD 0, lines := e.text.lines }

theorem ClassEdit.toEdit_eq {e : ClassEdit} {a b : Int} (ha : e.first = some a)
    (hb : e.last = some b) : e.toEdit = .ok e.placed := by
  simp [toEdit, placed, ha, hb]

namespace Edits

/-- The edits from the top down: that of the directives, then those of the classes. -/
def topDown (es : Edits) : List Edit :=
  (es.directives.map DirectiveEdit.toEdit).toList ++ es.classes.map ClassEdit.placed

variable {es : Edits} {l text : Text}

/-- The lines of an edit have no line feed in them. -/
theorem not_mem_of_mem_topDown {e : Edit} (he : e ∈ es.topDown) (hl : l ∈ e.lines) : '\n' ∉ l := by
  rcases mem_append.mp he with he | he
  · obtain ⟨d, -, rfl⟩ := Option.map_eq_some_iff.mp (Option.mem_toList.mp he)
    unfold DirectiveEdit.toEdit at hl
    split at hl
    · exact Text.not_mem_of_mem_lines hl
    · rcases mem_append.mp hl with hl | hl
      · exact Text.not_mem_of_mem_lines hl
      · rw [mem_singleton.mp hl]
        simp
  · obtain ⟨c, -, rfl⟩ := mem_map.mp he
    exact Text.not_mem_of_mem_lines hl

theorem not_mem_of_mem_replaceFrom (hl : l ∈ Edit.replaceFrom 0 text.lines es.topDown) :
    '\n' ∉ l := by
  rcases Edit.mem_replaceFrom _ _ _ hl with hl | ⟨e, he, hl⟩
  · exact Text.not_mem_of_mem_lines hl
  · exact not_mem_of_mem_topDown he hl

/-- The edits of a text of `n` lines have spans that do not overlap.  Only that of the directives
    may be empty. -/
structure Disjoint (es : Edits) (n : Nat) : Prop where
  placed : ∀ e ∈ es.classes, ∃ a b, e.first = some a ∧ e.last = some b ∧ a ≤ b
  inside : ∀ e ∈ es.topDown, e.Inside n
  above : es.topDown.Pairwise Edit.Above

theorem mapM_toEdit {es : List ClassEdit}
    (h : ∀ e ∈ es, ∃ a b, e.first = some a ∧ e.last = some b ∧ a ≤ b) :
    es.mapM ClassEdit.toEdit = .ok (es.map ClassEdit.placed) := by
  induction es with
  | nil => rfl
  | cons e es ih =>
    obtain ⟨a, b, ha, hb, -⟩ := h e mem_cons_self
    rw [mapM_cons, ClassEdit.toEdit_eq ha hb, ih (forall_mem_cons.mp h).2]
    rfl

/-- **Edits that do not overlap can be worked in, and replace their spans.** -/
theorem apply_eq (h : es.Disjoint text.lines.length) :
    es.apply text = .ok (Text.unlines (Edit.replaceFrom 0 text.lines es.topDown)) := by
  obtain ⟨hpd, hpc, habove⟩ := pairwise_append.mp h.above
  have hlen : (es.directives.map DirectiveEdit.toEdit).toList.reverse
      = (es.directives.map DirectiveEdit.toEdit).toList := by
    cases es.directives <;> rfl
  have hbottom : Edit.bottomUp (es.directives.map DirectiveEdit.toEdit).toList
      = (es.directives.map DirectiveEdit.toEdit).toList := by
    cases es.directives <;> rfl
  -- sorted from the bottom, the block of directives comes last
  have horder : Edit.bottomUp (es.classes.map ClassEdit.placed
      ++ (es.directives.map DirectiveEdit.toEdit).toList) = es.topDown.reverse := by
    rw [Edit.bottomUp_eq ?_ hpc hbottom ?_, topDown, reverse_append, hlen]
    · intro e he
      obtain ⟨c, hc, rfl⟩ := mem_map.mp he
      obtain ⟨a, b, ha, hb, hab⟩ := h.placed c hc
      simpa [ClassEdit.placed, ha, hb] using hab
    · intro d hd
      exact ⟨(h.inside d (mem_append_left _ hd)).2.1, habove d hd⟩
  have happly : Edit.applyAll text.lines none es.topDown.reverse
      = .ok (Edit.replaceFrom 0 text.lines es.topDown) := by
    rw [Edit.applyAll_eq_replaceFrom, reverse_reverse]
    · exact fun e he => h.inside e (mem_reverse.mp he)
    · exact pairwise_reverse.mpr h.above
    · simp
  have hlist : es.toList = .ok (es.classes.map ClassEdit.placed
      ++ (es.directives.map DirectiveEdit.toEdit).toList) := by
    rw [toList, mapM_toEdit h.placed]
    rfl
  rw [apply, hlist]
  show (do return Text.unlines (← Edit.applyAll text.lines none (Edit.bottomUp _))) = _
  rw [horder, happly]
  rfl

end Edits

end DartData
