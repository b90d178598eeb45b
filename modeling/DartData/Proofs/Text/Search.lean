import DartData.Text.Basic

/-!
# Looking for a piece of text

When a piece stands in a text, and simple reasons why it does not: a character of it is missing, or
the first characters differ.
-/

namespace DartData.Text

open List

variable {a p s t u v : Text} {c d : Char}

/-! ## §0. Equations. -/

theorem has_nil (p : Text) : has [] p = p.isEmpty := rfl

theorem has_cons (c : Char) (r p : Text) :
    has (c :: r) p = (p.isPrefixOf (c :: r) || r.has p) := rfl

theorem cut?_nil (p : Text) : cut? [] p = if p.isEmpty then some ([], []) else none := rfl

theorem cut?_cons (c : Char) (r p : Text) :
    cut? (c :: r) p = if p.isPrefixOf (c :: r) then some ([], (c :: r).drop p.length)
      else (r.cut? p).map fun w => (c :: w.1, w.2) := rfl

theorem eraseAll_go_cons (p : Text) (c : Char) (r : Text) :
    eraseAll.go p 0 (c :: r) = if p.isPrefixOf (c :: r) && !p.isEmpty
      then eraseAll.go p (p.length - 1) r else c :: eraseAll.go p 0 r := rfl

/-! ## §1. Pieces that are there. -/

theorem forall_mem_of_all {P : Char → Prop} [DecidablePred P] (h : t.all (P ·)) : ∀ c ∈ t, P c := by
  simpa using h

/-- A text of characters of one class has no other. -/
theorem not_mem_of_all {P : Char → Bool} (h : t.all P) (hd : P d = false) : d ∉ t := by
  intro hmem
  simp [all_eq_true.mp h d hmem] at hd

theorem startsWith_iff : t.startsWith p ↔ p <+: t := List.isPrefixOf_iff_prefix

theorem startsWith_eq_false_iff : t.startsWith p = false ↔ ¬ p <+: t := by
  rw [Bool.eq_false_iff, ne_eq, startsWith_iff]

theorem endsWith_iff : t.endsWith s ↔ s <:+ t := isSuffixOf_iff_suffix

theorem has_iff : t.has p ↔ p <:+: t := by
  induction t with
  | nil => simp [has_nil]
  | cons c r ih =>
    rw [has_cons, Bool.or_eq_true, ih, List.isPrefixOf_iff_prefix, infix_cons_iff]

theorem has_singleton_iff : t.has [c] ↔ c ∈ t := by
  rw [has_iff]
  constructor
  · exact fun h => h.subset (mem_singleton_self c)
  · intro h
    obtain ⟨a, b, rfl⟩ := append_of_mem h
    exact ⟨a, b, by simp⟩

theorem has_trans (h : t.has u) (hp : u.has p) : t.has p :=
  has_iff.mpr ((has_iff.mp hp).trans (has_iff.mp h))

theorem eq_of_singleton_suffix {a b : Char} (h : [a] <:+ t ++ [b]) : a = b := by
  obtain ⟨u, hu⟩ := h
  simpa using (append_inj' hu rfl).2

/-! ## §2. Pieces that are not there. -/

theorem has_eq_false_of_not_mem (hp : c ∈ p) (ht : c ∉ t) : t.has p = false := by
  rw [Bool.eq_false_iff, ne_eq, has_iff]
  exact fun h => ht (h.subset hp)

theorem endsWith_eq_false_of_not_mem (hs : c ∈ s) (ht : c ∉ t) : t.endsWith s = false := by
  rw [Bool.eq_false_iff, ne_eq, endsWith_iff]
  exact fun h => ht (h.subset hs)

theorem startsWith_eq_false {r : Text} (ht : t.head? = some c) (hp : p = d :: r) (hne : c ≠ d) :
    t.startsWith p = false := by
  cases t with
  | nil => simp at ht
  | cons e t =>
    simp only [head?_cons, Option.some.injEq] at ht
    simp [startsWith, hp, isPrefixOf, ht, Ne.symm hne]

/-- A text begins with a piece that has no `c` only if what stands before the first `c` does. -/
theorem prefix_of_not_mem {name : Text} (hp : c ∉ p) (h : p <+: name ++ c :: t) : p <+: name := by
  rcases prefix_or_prefix_of_prefix h (prefix_append name (c :: t)) with h' | ⟨u, rfl⟩
  · exact h'
  · rw [prefix_append_right_inj] at h
    cases u with
    | nil => simp
    | cons d u =>
      obtain ⟨hd, -⟩ := cons_prefix_cons.mp h
      subst hd
      simp at hp

/-- A piece stands on one side of a character that it does not have. -/
theorem has_append_cons (hd : d ∉ p) (hu : u.has p = false) (hv : v.has p = false) :
    (u ++ d :: v).has p = false := by
  induction u with
  | nil =>
    cases p with
    | nil => simp [has_nil] at hu
    | cons c p =>
      have hne : c ≠ d := fun h => hd (h ▸ mem_cons_self)
      simp [has_cons, isPrefixOf, hne, hv]
  | cons c u ih =>
    rw [has_cons, Bool.or_eq_false_iff] at hu
    rw [cons_append, has_cons, ih hu.2, Bool.or_false, Bool.eq_false_iff, ne_eq,
      List.isPrefixOf_iff_prefix]
    intro h
    have hpre : p <+: c :: u := prefix_of_not_mem hd h
    rw [List.isPrefixOf_iff_prefix.mpr hpre] at hu
    exact absurd hu.1 (by decide)

/-- Where the last character of a piece stands only once, the rest of the piece stands in front of
    it. -/
theorem suffix_of_has {q : Text} (ha : d ∉ a) (hv : d ∉ v) (h : (a ++ d :: v).has (q ++ [d])) :
    q <:+ a := by
  obtain ⟨s, u, heq⟩ := has_iff.mp h
  have heq : (s ++ q) ++ d :: u = a ++ d :: v := by simpa using heq
  rcases append_eq_append_iff.mp heq with ⟨x, rfl, hx⟩ | ⟨x, hx, hd⟩
  · cases x with
    | nil => exact ⟨s, by simp⟩
    | cons e x =>
      rw [cons_append, List.cons.injEq] at hx
      exact absurd (by simp [hx.1]) ha
  · cases x with
    | nil => exact ⟨s, by simpa using hx⟩
    | cons e x =>
      rw [cons_append, List.cons.injEq] at hd
      exact absurd (by simp [hd.2]) hv

/-! ## §3. Erasing. -/

theorem eraseAll_of_not_mem (hp : c ∈ p) (ht : c ∉ t) : t.eraseAll p = t := by
  show eraseAll.go p 0 t = t
  induction t with
  | nil => rfl
  | cons d r ih =>
    have hno : p.isPrefixOf (d :: r) = false := by
      rw [Bool.eq_false_iff, ne_eq, List.isPrefixOf_iff_prefix]
      exact fun h => ht (h.subset hp)
    rw [eraseAll_go_cons, hno, ih fun h => ht (mem_cons_of_mem d h)]
    rfl

theorem eraseAll_go_append (p t : Text) (r : Text) :
    eraseAll.go p r.length (r ++ t) = eraseAll.go p 0 t := by
  induction r with
  | nil => rfl
  | cons c r ih => exact ih

theorem eraseAll_append (hp : p ≠ []) (t : Text) : (p ++ t).eraseAll p = t.eraseAll p := by
  cases p with
  | nil => exact absurd rfl hp
  | cons c r =>
    have hpre : (c :: r).isPrefixOf (c :: (r ++ t)) :=
      List.isPrefixOf_iff_prefix.mpr (prefix_append (c :: r) t)
    show eraseAll.go (c :: r) 0 (c :: (r ++ t)) = eraseAll.go (c :: r) 0 t
    rw [eraseAll_go_cons, hpre]
    exact eraseAll_go_append (c :: r) t r

/-- Erasing a piece before and after a character that it does not have. -/
theorem eraseAll_append_cons (hd : d ∉ p) (u v : Text) :
    (u ++ d :: v).eraseAll p = u.eraseAll p ++ d :: v.eraseAll p := by
  -- the `k` characters that are still to be dropped end before `d`
  have hgo : ∀ (u : Text) (k : Nat), k ≤ u.length →
      eraseAll.go p k (u ++ d :: v) = eraseAll.go p k u ++ d :: eraseAll.go p 0 v := by
    intro u
    induction u with
    | nil =>
      intro k hk
      obtain rfl : k = 0 := by simpa using hk
      have hpre : (p.isPrefixOf (d :: v) && !p.isEmpty) = false := by
        cases p with
        | nil => rfl
        | cons c q =>
          have hne : c ≠ d := fun h => hd (h ▸ mem_cons_self)
          simp [isPrefixOf, hne]
      show eraseAll.go p 0 (d :: v) = d :: eraseAll.go p 0 v
      rw [eraseAll_go_cons, hpre]
      rfl
    | cons c u ih =>
      intro k hk
      cases k with
      | succ k => exact ih k (by simpa using hk)
      | zero =>
        have hiff : p.isPrefixOf (c :: (u ++ d :: v)) = p.isPrefixOf (c :: u) := by
          rw [Bool.eq_iff_iff, List.isPrefixOf_iff_prefix, List.isPrefixOf_iff_prefix]
          refine ⟨fun h => ?_, fun h => h.trans (prefix_append (c :: u) (d :: v))⟩
          rw [← cons_append] at h
          exact prefix_of_not_mem hd h
        rw [cons_append, eraseAll_go_cons, eraseAll_go_cons, hiff]
        split
        next hp =>
          rw [Bool.and_eq_true] at hp
          have hlen := (List.isPrefixOf_iff_prefix.mp hp.1).length_le
          exact ih _ (by rw [length_cons] at hlen; omega)
        next => rw [ih 0 (Nat.zero_le _)]; rfl
  exact hgo u 0 (Nat.zero_le _)

/-! ## §4. Cutting. -/

/-- Something in front that lacks the first character of the piece. -/
theorem cut?_append_of_not_mem (hp : p.head? = some c) (ha : c ∉ a) (t : Text) :
    (a ++ t).cut? p = (t.cut? p).map fun (x, y) => (a ++ x, y) := by
  induction a with
  | nil =>
    rw [nil_append]
    cases t.cut? p <;> rfl
  | cons d a ih =>
    rw [mem_cons, not_or] at ha
    have hno : p.isPrefixOf (d :: (a ++ t)) = false := by
      cases p with
      | nil => simp at hp
      | cons e p =>
        simp only [head?_cons, Option.some.injEq] at hp
        simp [isPrefixOf, hp, ha.1]
    rw [cons_append, cut?_cons, hno, ih ha.2]
    cases t.cut? p <;> rfl

theorem cut?_append_self (hp : p ≠ []) (t : Text) : (p ++ t).cut? p = some ([], t) := by
  cases p with
  | nil => exact absurd rfl hp
  | cons c p =>
    have hpre : (c :: p).isPrefixOf (c :: (p ++ t)) :=
      List.isPrefixOf_iff_prefix.mpr (prefix_append (c :: p) t)
    rw [cons_append, cut?_cons, if_pos hpre]
    simp

theorem isSome_cut? (t p : Text) : (t.cut? p).isSome = t.has p := by
  induction t with
  | nil =>
    rw [has_nil, cut?_nil]
    cases p.isEmpty <;> rfl
  | cons c r ih =>
    rw [has_cons, cut?_cons]
    cases p.isPrefixOf (c :: r) with
    | true => rfl
    | false =>
      rw [Bool.false_or, ← ih]
      exact Option.isSome_map

/-- A cut gives the two sides of the piece. -/
theorem append_of_cut? (t : Text) {a b : Text} (h : t.cut? p = some (a, b)) :
    t = a ++ (p ++ b) := by
  induction t generalizing a b with
  | nil =>
    rw [cut?_nil] at h
    split at h
    next hp =>
      obtain ⟨rfl, rfl⟩ : [] = a ∧ [] = b := by simpa using h
      rw [List.isEmpty_iff.mp hp]
      rfl
    next => cases h
  | cons c r ih =>
    rw [cut?_cons] at h
    split at h
    next hp =>
      obtain ⟨rfl, rfl⟩ : [] = a ∧ (c :: r).drop p.length = b := by simpa using h
      obtain ⟨u, hu⟩ := List.isPrefixOf_iff_prefix.mp hp
      rw [← hu, drop_left]
      rfl
    next =>
      obtain ⟨⟨a', b'⟩, hcut, heq⟩ := Option.map_eq_some_iff.mp h
      obtain ⟨rfl, rfl⟩ : c :: a' = a ∧ b' = b := by simpa using heq
      rw [ih hcut]
      rfl

theorem cut?_eq_none (h : t.has p = false) : t.cut? p = none := by
  rw [← isSome_cut?] at h
  exact Option.isSome_eq_false_iff.mp h |> Option.isNone_iff_eq_none.mp

/-- A character after the text that the piece does not have. -/
theorem cut?_concat (hp : p ≠ []) (hd : d ∉ p) (t : Text) :
    (t ++ [d]).cut? p = (t.cut? p).map fun (x, y) => (x, y ++ [d]) := by
  induction t with
  | nil =>
    cases p with
    | nil => exact absurd rfl hp
    | cons c p =>
      have hne : c ≠ d := fun h => hd (h ▸ mem_cons_self)
      simp [cut?_nil, cut?_cons, isPrefixOf, hne]
  | cons c r ih =>
    by_cases hpre : p <+: c :: r
    · have hpre' : p <+: c :: (r ++ [d]) := hpre.trans (prefix_append (c :: r) [d])
      rw [cons_append, cut?_cons, cut?_cons, if_pos (List.isPrefixOf_iff_prefix.mpr hpre),
        if_pos (List.isPrefixOf_iff_prefix.mpr hpre'), Option.map_some, ← cons_append,
        drop_append_of_le_length hpre.length_le]
    · have hpre' : ¬ p <+: c :: (r ++ [d]) := fun h =>
        hpre (prefix_of_not_mem (t := []) hd (by simpa using h))
      rw [cons_append, cut?_cons, cut?_cons,
        if_neg (by rwa [List.isPrefixOf_iff_prefix]), if_neg (by rwa [List.isPrefixOf_iff_prefix]),
        ih]
      cases cut? r p <;> rfl

/-- The first occurrence of `p` is not in front of a character that `p` does not have, if `p` does
    not stand there. -/
theorem cut?_append_cons (hd : d ∉ p) (hu : u.has p = false) (v : Text) :
    (u ++ d :: v).cut? p = (v.cut? p).map fun (x, y) => (u ++ d :: x, y) := by
  have hne : p ≠ [] := by
    rintro rfl
    cases u <;> simp [has_nil, has_cons] at hu
  induction u with
  | nil =>
    have hpre : ¬ p <+: d :: v := fun h =>
      have hnil : p <+: [] := prefix_of_not_mem hd h
      hne (prefix_nil.mp hnil)
    rw [nil_append, cut?_cons, if_neg (by rwa [List.isPrefixOf_iff_prefix])]
    rfl
  | cons c u ih =>
    rw [has_cons, Bool.or_eq_false_iff] at hu
    have hpre : ¬ p <+: c :: (u ++ d :: v) := fun h => by
      have hcu : p <+: c :: u := prefix_of_not_mem hd h
      rw [List.isPrefixOf_iff_prefix.mpr hcu] at hu
      cases hu.1
    rw [cons_append, cut?_cons, if_neg (by rwa [List.isPrefixOf_iff_prefix]), ih hu.2]
    cases v.cut? p <;> rfl

theorem eraseFirst_append_cons (hd : d ∉ p) (hu : u.has p = false) (v : Text) :
    (u ++ d :: v).eraseFirst p = u ++ d :: v.eraseFirst p := by
  rw [eraseFirst, eraseFirst, cut?_append_cons hd hu]
  cases v.cut? p with
  | none => rfl
  | some x => simp

theorem eraseFirst_concat (hp : p ≠ []) (hd : d ∉ p) (t : Text) :
    (t ++ [d]).eraseFirst p = t.eraseFirst p ++ [d] := by
  rw [eraseFirst, eraseFirst, cut?_concat hp hd]
  cases t.cut? p with
  | none => rfl
  | some x => exact (append_assoc ..).symm

/-- The two sides of a cut are parts of the text, in order. -/
theorem cut?_sublist {b : Text} (h : t.cut? p = some (a, b)) : (a ++ b).Sublist t := by
  induction t generalizing a with
  | nil =>
    simp only [cut?_nil] at h
    split at h <;> simp_all
  | cons c r ih =>
    rw [cut?_cons] at h
    split at h
    · simp only [Option.some.injEq, Prod.mk.injEq] at h
      obtain ⟨rfl, rfl⟩ := h
      exact drop_sublist _ _
    · simp only [Option.map_eq_some_iff, Prod.mk.injEq, Prod.exists] at h
      obtain ⟨x, y, hxy, rfl, rfl⟩ := h
      exact (ih hxy).cons_cons c

theorem eraseFirst_sublist (t p : Text) : (t.eraseFirst p).Sublist t := by
  unfold eraseFirst
  split
  next h => exact cut?_sublist h
  next => exact List.Sublist.refl t

theorem before_eq_self (h : t.has p = false) : t.before p = t := by
  rw [before, cut?_eq_none h]
  rfl

theorem eraseFirst_eq_self (h : t.has p = false) : t.eraseFirst p = t := by
  rw [eraseFirst, cut?_eq_none h]

theorem mem_eraseFirst (hp : d ∉ p) (ht : d ∈ t) : d ∈ t.eraseFirst p := by
  unfold eraseFirst
  split
  next a b hcut =>
    rw [append_of_cut? t hcut, mem_append, mem_append] at ht
    rcases ht with h | h | h
    · exact mem_append_left b h
    · exact absurd h hp
    · exact mem_append_right a h
  next => exact ht

end DartData.Text
