import Mathlib.Data.List.Pairwise
import DartData.Proofs.Assembly.Head
import DartData.Proofs.Constructor.Tail
import DartData.Proofs.Edit.Simultaneous
import DartData.Proofs.Generation.Frame
import DartData.Proofs.Scan.Head

/-!
# Replaced members

Where members of a class are replaced, each span of lines should give way to the new text once.
Assembling goes by the text instead of the span: at each line of a member it looks whether the new
text occurs anywhere below, and writes it if it does not.  So a member is never written twice, but
it is left out where its new text occurs below by chance.

    assemble = the class with all spans replaced   iff   no new text occurs below its own span

`Edit.putEach` is what assembling does to the lines, and `Edit.replaceEach` what it should do; they
are compared span by span in `Edit.putEach_eq_iff`.
-/

namespace DartData

open List hiding span
open Text

/-! ## §1. Writing a text once. -/

/-- The text in front of what follows it, unless it occurs there. -/
def putOnce (t after : Text) : Text := if after.has t then after else t ++ '\n' :: after

theorem putOnce_of_has {t after : Text} (h : after.has t) : putOnce t after = after := if_pos h

theorem putOnce_of_not_has {t after : Text} (h : after.has t = false) :
    putOnce t after = t ++ '\n' :: after := if_neg (by simp [h])

theorem putOnce_putOnce (t after : Text) : putOnce t (putOnce t after) = putOnce t after := by
  cases h : after.has t with
  | true => rw [putOnce_of_has h, putOnce_of_has h]
  | false =>
    rw [putOnce_of_not_has h]
    exact putOnce_of_has (has_iff.mpr ⟨[], '\n' :: after, rfl⟩)

/-- A text that is written stands in front of what should follow it exactly if that follows it, and
    the text does not occur in it.  What follows may be cut short, but it is not too long. -/
theorem putOnce_eq_iff {t after wanted : Text} (hle : after.length ≤ wanted.length) :
    putOnce t after = t ++ '\n' :: wanted ↔ after = wanted ∧ wanted.has t = false := by
  cases h : after.has t with
  | true =>
    rw [putOnce_of_has h]
    constructor
    · intro heq
      have := congrArg length heq
      rw [length_append, length_cons] at this
      omega
    · rintro ⟨rfl, hno⟩
      simp [h] at hno
  | false =>
    rw [putOnce_of_not_has h, append_cancel_left_eq, List.cons.injEq]
    constructor
    · rintro ⟨-, rfl⟩
      exact ⟨rfl, h⟩
    · rintro ⟨rfl, -⟩
      exact ⟨rfl, rfl⟩

/-! ## §2. Lines and spans. -/

namespace Edit

/-- The lines from the number `k` on, where at each line of a span the new text is written unless
    it occurs below. -/
def putEach (es : List Edit) (k : Nat) : List Text → Text
  | [] => []
  | l :: ls =>
    match es.find? (·.covers k) with
    | some e => putOnce (unlines e.lines) (putEach es (k + 1) ls)
    | none => l ++ '\n' :: putEach es (k + 1) ls

/-- What should stand below the span of the edit, the lines from `k` on being `ls`. -/
def below (es : List Edit) (k : Nat) (ls : List Text) (e : Edit) : Text :=
  endLines (replaceEach es (e.last + 1).toNat (ls.drop (e.last + 1 - k).toNat))

/-- No span begins above the line `k` and goes on to it. -/
def CutAt (es : List Edit) (k : Nat) : Prop := ∀ e ∈ es, e.covers k = true → e.first = k

section

variable {es : List Edit} {e : Edit}

/-- Spans that share no line are equal or apart. -/
theorem eq_or_apart (hp : es.Pairwise Apart) {f : Edit} (he : e ∈ es) (hf : f ∈ es) :
    e = f ∨ e.Apart f := by
  have : Std.Symm Apart := ⟨fun _ _ h => h.symm⟩
  by_cases h : e = f
  · exact .inl h
  · exact .inr (hp.forall he hf h)

variable {k : Nat} {l : Text} {inner rest : List Text}

theorem find?_eq_some (hp : es.Pairwise Apart) (he : e ∈ es) (hk : e.covers k) :
    es.find? (·.covers k) = some e := by
  cases hf : es.find? (·.covers k) with
  | none => exact absurd hk (find?_eq_none.mp hf e he)
  | some f =>
    rcases eq_or_apart hp he (mem_of_find?_eq_some hf) with rfl | hapart
    · rfl
    · have hfk : f.covers k := find?_some (p := fun f : Edit => f.covers k) hf
      exact absurd ⟨hk, hfk⟩ (hapart k)

/-- The line below a span is no line inside of another one. -/
theorem cutAt_below (hp : es.Pairwise Apart) (he : e ∈ es) (ho : e.first ≤ e.last)
    (hk : (k : Int) = e.last + 1) : CutAt es k := by
  intro f hf hc
  rw [covers_iff] at hc
  rcases eq_or_apart hp he hf with rfl | hapart
  · omega
  · have hno := hapart e.last
    rw [covers_iff, covers_iff] at hno
    omega

/-- All lines of a span come to its new text, written once. -/
theorem putEach_span
    (hfind : ∀ j : Nat, k ≤ j → j ≤ k + inner.length → es.find? (·.covers j) = some e) :
    putEach es k (l :: inner ++ rest)
      = putOnce (unlines e.lines) (putEach es (k + inner.length + 1) rest) := by
  induction inner generalizing k l with
  | nil =>
    rw [singleton_append, putEach, hfind k (Nat.le_refl k) (by omega)]
    rfl
  | cons l' inner ih =>
    rw [length_cons] at hfind ⊢
    rw [cons_append, putEach, hfind k (Nat.le_refl k) (by omega)]
    show putOnce _ (putEach es (k + 1) (l' :: inner ++ rest)) = _
    rw [ih fun j h₁ h₂ => hfind j (by omega) (by omega), putOnce_putOnce,
      show k + 1 + inner.length + 1 = k + (inner.length + 1) + 1 by omega]

/-- The lines of a span are to give way to the new lines. -/
theorem replaceEach_span (hk : e.first = k)
    (hfind : ∀ j : Nat, k ≤ j → j ≤ k + inner.length → es.find? (·.covers j) = some e) :
    replaceEach es k (l :: inner ++ rest)
      = e.lines ++ replaceEach es (k + inner.length + 1) rest := by
  have hinner : ∀ (j : Nat) (ms : List Text), k < j → j + ms.length ≤ k + inner.length + 1 →
      replaceEach es j ms = [] := by
    intro j ms
    induction ms generalizing j with
    | nil => intro _ _; rfl
    | cons m ms ih =>
      intro h₁ h₂
      rw [length_cons] at h₂
      rw [replaceEach, ih (j + 1) (by omega) (by omega), standsFor, hfind j (by omega) (by omega)]
      dsimp only
      rw [if_neg (by omega)]
      rfl
  rw [cons_append, replaceEach, replaceEach_append, hinner (k + 1) inner (by omega) (by omega),
    standsFor, hfind k (Nat.le_refl k) (by omega)]
  dsimp only
  rw [if_pos hk, nil_append, show k + 1 + inner.length = k + inner.length + 1 by omega]

end

/-! ## §3. All lines. -/

/-- What is needed of the spans: they end above the line `n`, share no line, and each has new
    lines. -/
structure Spans (es : List Edit) (n : Nat) : Prop where
  ordered : ∀ e ∈ es, e.first ≤ e.last
  inside : ∀ e ∈ es, e.last < n
  lines_ne : ∀ e ∈ es, e.lines ≠ []
  apart : es.Pairwise Apart

/-- The lines from `k` on are not made too long, and they are what they should be exactly if no new
    text occurs in what should stand below it. -/
def Settles (es : List Edit) (k : Nat) (ls : List Text) : Prop :=
  (putEach es k ls).length ≤ (endLines (replaceEach es k ls)).length
    ∧ (putEach es k ls = endLines (replaceEach es k ls)
      ↔ ∀ e ∈ es, (k : Int) ≤ e.first → (below es k ls e).has (unlines e.lines) = false)

variable {es : List Edit} {e : Edit} {k n : Nat} {ls : List Text} {l : Text}

/-- What should stand below a span does not depend on the lines above it. -/
theorem below_append {pre : List Text} (h : (k + pre.length : Int) ≤ e.last + 1) :
    below es k (pre ++ ls) e = below es (k + pre.length) ls e := by
  have hdrop : (pre ++ ls).drop (e.last + 1 - k).toNat
      = ls.drop (e.last + 1 - (k + pre.length : Nat)).toNat := by
    rw [show (e.last + 1 - k).toNat = pre.length + (e.last + 1 - (k + pre.length : Nat)).toNat by
      omega, ← drop_drop, drop_left]
  rw [below, below, hdrop]

/-- A line outside of all spans. -/
theorem Settles.line (hes : Spans es n) (hno : es.find? (·.covers k) = none)
    (h : Settles es (k + 1) ls) :
    Settles es k (l :: ls) := by
  have hput : putEach es k (l :: ls) = l ++ '\n' :: putEach es (k + 1) ls := by
    rw [putEach, hno]
  have hwant : endLines (replaceEach es k (l :: ls))
      = l ++ '\n' :: endLines (replaceEach es (k + 1) ls) := by
    rw [replaceEach, standsFor, hno]
    simp
  unfold Settles
  rw [hput, hwant]
  refine ⟨by simpa using h.1, ?_⟩
  rw [append_cancel_left_eq, List.cons.injEq, eq_self, true_and, h.2]
  refine forall_congr' fun e => forall_congr' fun he => ?_
  have hord := hes.ordered e he
  have hk : e.covers k = false := by simpa using find?_eq_none.mp hno e he
  rw [covers_eq_false_iff] at hk
  by_cases hf : (k + 1 : Nat) ≤ e.first
  · rw [show l :: ls = [l] ++ ls from rfl, below_append (by simp; omega)]
    exact ⟨fun h _ => h hf, fun h _ => h (by omega)⟩
  · exact ⟨fun _ h => absurd h (by omega), fun _ h => absurd h hf⟩

/-- The lines of a span.  If anything is missing below it, all is too short from here on. -/
theorem Settles.span (hes : Spans es n) (he : e ∈ es) (hk : e.first = k) {inner rest : List Text}
    (hinner : (k + inner.length : Int) = e.last) (h : Settles es (k + inner.length + 1) rest) :
    Settles es k (l :: inner ++ rest) := by
  have hord := hes.ordered e he
  have hfind : ∀ j : Nat, k ≤ j → j ≤ k + inner.length → es.find? (·.covers j) = some e :=
    fun j h₁ h₂ => find?_eq_some hes.apart he (by rw [covers_iff]; omega)
  have hwant : endLines (replaceEach es k (l :: inner ++ rest))
      = unlines e.lines ++ '\n' :: endLines (replaceEach es (k + inner.length + 1) rest) := by
    rw [replaceEach_span hk hfind, endLines_append, endLines_eq_unlines (hes.lines_ne e he)]
    simp
  -- nothing of this span stands below an edit that ends further down
  have hbelow : ∀ f : Edit, e.last ≤ f.last →
      below es k (l :: inner ++ rest) f = below es (k + inner.length + 1) rest f := by
    intro f hf
    rw [below_append (by simp; omega)]
    rfl
  have hself : below es (k + inner.length + 1) rest e
      = endLines (replaceEach es (k + inner.length + 1) rest) := by
    rw [below, show (e.last + 1).toNat = k + inner.length + 1 by omega,
      show (e.last + 1 - (k + inner.length + 1 : Nat)).toNat = 0 by omega, drop_zero]
  unfold Settles
  rw [putEach_span hfind, hwant]
  refine ⟨?_, ?_⟩
  · have hle := h.1
    unfold putOnce
    split <;> simp only [length_append, length_cons] <;> omega
  · rw [putOnce_eq_iff h.1, h.2, ← hself]
    constructor
    -- an edit from here on is this one, or lies below it
    · rintro ⟨hrest, hown⟩ f hf hfirst
      rcases eq_or_apart hes.apart he hf with rfl | hapart
      · rw [hbelow e (Int.le_refl _)]
        exact hown
      · have hno := hapart f.first
        have hordf := hes.ordered f hf
        rw [covers_iff, covers_iff] at hno
        rw [hbelow f (by omega)]
        exact hrest f hf (by omega)
    · intro hall
      refine ⟨fun f hf hfirst => ?_, ?_⟩
      · have hordf := hes.ordered f hf
        rw [← hbelow f (by omega)]
        exact hall f hf (by omega)
      · rw [← hbelow e (Int.le_refl _)]
        exact hall e he (by omega)

/-- **Every new text is written in its place exactly if it does not occur in what should stand below
    it.**  The induction goes from the top down, a line or a whole span at a time. -/
theorem settles (hes : Spans es n) (ls : List Text) :
    ∀ k : Nat, k + ls.length = n → CutAt es k → Settles es k ls := by
  generalize hm : ls.length = m
  induction m using Nat.strongRecOn generalizing ls with
  | ind m ih =>
    intro k hk hcut
    cases ls with
    | nil =>
      refine ⟨Nat.le_refl _, fun _ e he hfirst => ?_, fun _ => rfl⟩
      have h₁ := hes.ordered e he
      have h₂ := hes.inside e he
      rw [length_nil] at hm
      omega
    | cons l ls =>
      rw [length_cons] at hm
      cases hfind : es.find? (·.covers k) with
      | none =>
        -- a span that covers the next line but not this one begins there
        refine Settles.line hes hfind (ih ls.length (by omega) ls rfl (k + 1) (by omega) ?_)
        intro e he hc
        have hno : e.covers k = false := by simpa using find?_eq_none.mp hfind e he
        rw [covers_eq_false_iff] at hno
        rw [covers_iff] at hc
        omega
      | some e =>
        -- by `CutAt` the span begins with this line, so all of it is still to come
        have he : e ∈ es := mem_of_find?_eq_some hfind
        have hek : e.first = k :=
          hcut e he (find?_some (p := fun f : Edit => f.covers k) hfind)
        have hord := hes.ordered e he
        have hin := hes.inside e he
        obtain ⟨inner, rest, rfl, hinner⟩ : ∃ inner rest, ls = inner ++ rest
            ∧ (k + inner.length : Int) = e.last := by
          refine ⟨ls.take (e.last - k).toNat, ls.drop (e.last - k).toNat,
            (take_append_drop _ ls).symm, ?_⟩
          rw [length_take]
          omega
        rw [length_append] at hm
        exact Settles.span hes he hek hinner (ih rest.length (by omega) rest rfl
          (k + inner.length + 1) (by omega) (cutAt_below hes.apart he hord (by omega)))

end Edit

/-! ## §4. Members. -/

/-- The replacement of a member as an edit of its lines. -/
def ExistingMember.toEdit (m : ExistingMember) : Edit :=
  { first := m.first.getD 1, last := m.last.getD 0, lines := (m.replacement.getD []).lines }

/-- The lines `a` to `b` of the text with each member replaced. -/
def replacedLines (text : Text) (ms : List ExistingMember) (a : Nat) (b : Int) : List Text :=
  Edit.replaceEach (ms.map ExistingMember.toEdit) a (span text.lines a b)

namespace SourceClass

/-- The members can be replaced together: each has its lines between the declaration and the last
    line of the class and a text to stand in their place, and no two share a line. -/
structure Replaceable (c : SourceClass) (ms : List ExistingMember) : Prop where
  placed : ∀ m ∈ ms, ∃ a b h e : Int, m.first = some a ∧ m.last = some b ∧ c.headLast = some h
    ∧ c.last = some e ∧ h < a ∧ a ≤ b ∧ b < e
  replacement_some : ∀ m ∈ ms, m.replacement.isSome = true
  apart : (ms.map ExistingMember.toEdit).Pairwise Edit.Apart

variable {c : SourceClass} {ms : List ExistingMember}

/-- What stands for a line of a member is the text of the edit that covers it. -/
theorem Replaceable.replacementAt_eq (h : c.Replaceable ms) (n : Int) :
    ({ c with replaced := ms } : SourceClass).replacementAt n
      = ((ms.map ExistingMember.toEdit).find? (·.covers n)).map fun e => unlines e.lines := by
  show (ms.find? (·.covers n)).bind ExistingMember.replacement = _
  obtain ⟨hplaced, hsome, -⟩ := h
  induction ms with
  | nil => rfl
  | cons m ms ih =>
    obtain ⟨a, b, -, -, ha, hb, -⟩ := hplaced m mem_cons_self
    obtain ⟨t, ht⟩ := Option.isSome_iff_exists.mp (hsome m mem_cons_self)
    have hcovers : m.toEdit.covers n = m.covers n := by
      simp [Edit.covers, ExistingMember.covers, ExistingMember.toEdit, ha, hb]
    rw [map_cons, find?_cons, find?_cons, hcovers]
    cases m.covers n with
    | true => simp [ht, ExistingMember.toEdit]
    | false =>
      exact ih (forall_mem_cons.mp hplaced).2 (forall_mem_cons.mp hsome).2

variable {e hl : Nat} {ls : List Text} {h : Int}

/-- The members stand apart, above the end of the class. -/
theorem Replaceable.spans (h : c.Replaceable ms) (he : c.last = some (e : Int)) :
    Edit.Spans (ms.map ExistingMember.toEdit) (e + 1) := by
  have hall : ∀ f ∈ ms.map ExistingMember.toEdit, f.first ≤ f.last ∧ f.last < e := by
    intro f hf
    obtain ⟨m, hm, rfl⟩ := mem_map.mp hf
    obtain ⟨a, b, -, e', ha, hb, -, he', -, hab, hlt⟩ := h.placed m hm
    rw [he, Option.some.injEq] at he'
    simp only [ExistingMember.toEdit, ha, hb, Option.getD_some]
    omega
  refine ⟨fun f hf => (hall f hf).1, fun f hf => ?_, fun f hf => ?_, h.apart⟩
  · have := (hall f hf).2
    omega
  · obtain ⟨m, -, rfl⟩ := mem_map.mp hf
    exact lines_ne_nil _

/-- No member reaches into the declaration. -/
theorem Replaceable.cutAt (h : c.Replaceable ms) (hh : c.headLast = some (hl : Int)) :
    Edit.CutAt (ms.map ExistingMember.toEdit) (hl + 1) := by
  intro f hf hcov
  obtain ⟨m, hm, rfl⟩ := mem_map.mp hf
  obtain ⟨a, b, h', -, ha, hb, hh', -, hlt, -⟩ := h.placed m hm
  rw [hh, Option.some.injEq] at hh'
  rw [Edit.covers_iff] at hcov
  simp only [ExistingMember.toEdit, ha, Option.getD_some] at hcov ⊢
  omega

/-- What should stand below a member, as lines of the text. -/
theorem Replaceable.below_toEdit (h : c.Replaceable ms) (hh : c.headLast = some (hl : Int))
    {m : ExistingMember} (hm : m ∈ ms) {b : Int} (hb : m.last = some b) (text : Text) (e : Int) :
    Edit.below (ms.map ExistingMember.toEdit) (hl + 1) (span text.lines (hl + 1 : Nat) e) m.toEdit
      = endLines (replacedLines text ms (b + 1).toNat e) := by
  obtain ⟨a, b', h', -, -, hb', hh', -, hlt, hab, -⟩ := h.placed m hm
  rw [hh, Option.some.injEq] at hh'
  rw [hb, Option.some.injEq] at hb'
  rw [Edit.below, replacedLines, span, span, drop_drop]
  simp only [ExistingMember.toEdit, hb, Option.getD_some]
  congr 3
  omega

/-- No member has the last line of the class. -/
theorem Replaceable.replacementAt_last (h : c.Replaceable ms) (he : c.last = some (e : Int)) :
    ({ c with replaced := ms } : SourceClass).replacementAt e = none := by
  rw [h.replacementAt_eq, Option.map_eq_none_iff, find?_eq_none]
  intro f hf hc
  obtain ⟨m, hm, rfl⟩ := mem_map.mp hf
  obtain ⟨a, b, -, e', ha, hb, -, he', -, hab, hlt⟩ := h.placed m hm
  rw [he, Option.some.injEq] at he'
  rw [Edit.covers_iff] at hc
  simp only [ExistingMember.toEdit, ha, hb, Option.getD_some] at hc
  omega

/-- If nothing is inserted and the constructor is kept, a line below the declaration stands for
    itself or gives way to the text of its member. -/
theorem Assembles.assembleLine_below {s e : Int} (hc : c.Assembles ls s h e)
    (hcon : c.hasConstructor) (hkept : c.constructorChanged = false)
    (hins : c.insertion = []) (hlast : c.replacementAt e = none) {k : Nat} {line : Text}
    (hk : ls[k]? = some line) (hbelow : h < s + k) (after : Text) :
    c.assembleLine ls s e k after
      = .ok ((c.replacementAt (s + k)).elim (line ++ '\n' :: after) (putOnce · after)) := by
  have hoff : c.headOffset s = h - s :=
    headOffset_eq hc.headLast_eq (Int.le_trans hc.one_le hc.first_le) s
  have hold : c.inOldConstructor (s + k) = false := by
    unfold inOldConstructor
    split <;> simp [hkept]
  rw [assembleLine, hk]
  dsimp only
  rw [if_neg (by rw [hoff]; omega), hcon, hold]
  simp only [Bool.not_true, Bool.and_false, Bool.false_eq_true, if_false]
  split
  -- the insertion that stands above the last line is empty
  next hend =>
    rw [Bool.and_eq_true, beq_iff_eq] at hend
    rw [hend.1, hlast]
    simp [of, hins]
  next =>
    cases c.replacementAt (s + k) with
    | none => simp [of]
    | some t => simp [putOnce, of]

/-- The lines below the declaration are put together one by one. -/
theorem Assembles.assembleFrom_below {s : Nat}
    (hc : ({ c with replaced := ms } : SourceClass).Assembles ls s h e) (hms : c.Replaceable ms)
    (hcon : c.hasConstructor) (hkept : c.constructorChanged = false)
    (hins : c.insertion = []) (rest : List Text) (k : Nat) (hk : ls.drop k = rest)
    (hbelow : h < s + k) :
    ({ c with replaced := ms } : SourceClass).assembleFrom ls s e k rest
      = .ok (Edit.putEach (ms.map ExistingMember.toEdit) (s + k) rest) := by
  induction rest generalizing k with
  | nil => rfl
  | cons line rest ih =>
    have hget : ls[k]? = some line := by rw [← head?_drop, hk]; rfl
    have hrest : ls.drop (k + 1) = rest := by rw [← drop_drop, hk]; rfl
    rw [assembleFrom, ih (k + 1) hrest (by omega)]
    show ({ c with replaced := ms } : SourceClass).assembleLine ls s e k _ = _
    rw [hc.assembleLine_below hcon hkept hins (hms.replacementAt_last hc.last_eq) hget hbelow,
      hms.replacementAt_eq, Edit.putEach, show s + (k + 1) = s + k + 1 by omega]
    congr 1
    rw [show ((s : Int) + k) = ((s + k : Nat) : Int) by omega]
    cases (ms.map ExistingMember.toEdit).find? (·.covers (s + k : Nat)) <;> rfl

end SourceClass

/-- The last line feed of texts that end with one does not matter. -/
theorem removeEnd_feed_inj {x t u : Text} (ht : t.EndsLine) (hu : u.EndsLine) :
    (x ++ '\n' :: t).removeEnd ['\n'] = (x ++ '\n' :: u).removeEnd ['\n'] ↔ t = u := by
  have hend : ∀ {t : Text}, t.EndsLine → ∃ v, '\n' :: t = v ++ ['\n'] := by
    rintro t (rfl | ⟨v, rfl⟩)
    · exact ⟨[], rfl⟩
    · exact ⟨'\n' :: v, rfl⟩
  obtain ⟨v, hv⟩ := hend ht
  obtain ⟨w, hw⟩ := hend hu
  have hcut : ∀ z : Text, (x ++ (z ++ ['\n'])).removeEnd ['\n'] = x ++ z := fun z => by
    rw [← append_assoc]
    exact removeEnd_append _ ['\n']
  rw [hv, hw, hcut, hcut, append_cancel_left_eq]
  constructor
  · rintro rfl
    exact (List.cons.inj (hv.trans hw.symm)).2
  · rintro rfl
    exact append_cancel_right (hv.symm.trans hw)

/-- **Members are replaced in place exactly if no new text occurs below its own lines.**  A complete
    class that keeps its constructor and gets no new members is its declaration line followed by the
    lines below it, where each member has given way to its replacement, if and only if no
    replacement occurs in what should stand below its member. -/
theorem SourceClass.assemble_replaced_iff {text : Text} {cs : List SourceClass}
    (h : scan text = .ok cs) {c : SourceClass} (hc : c ∈ cs) (hv : c.isValid = true)
    (hcon : c.hasConstructor = true) {ms : List ExistingMember} (hms : c.Replaceable ms) :
    ∃ (hl e : Nat) (out : Text), c.headLast = some (hl : Int) ∧ c.last = some (e : Int)
      ∧ ({ c with replaced := ms } : SourceClass).assemble = .ok out
      ∧ (out = unlines ((c.declarationLine ++ " \x7b".toList) :: replacedLines text ms (hl + 1) e)
        ↔ ∀ m ∈ ms, ∀ b t, m.last = some b → m.replacement = some t →
          (endLines (replacedLines text ms (b + 1).toNat e)).has t = false) := by
  obtain ⟨s, -, hrep⟩ := (scan_laid h).2 c hc
  obtain ⟨e', he'⟩ := exists_last hv
  obtain ⟨h', hh', hst⟩ := hrep.stands e' he'
  have hone := hst.one_le_first
  have hsh := hst.first_le
  have hhe := hst.headLast_le
  obtain ⟨hl, rfl⟩ := Int.eq_ofNat_of_zero_le (show 0 ≤ h' by omega)
  obtain ⟨e, rfl⟩ := Int.eq_ofNat_of_zero_le (show 0 ≤ e' by omega)
  have hw := hrep.workable hv
  -- replacements change nothing of what the scan has found
  have hasm :=
    hst.assembles (c := { c with replaced := ms }) ⟨rfl, rfl, rfl, rfl, rfl, rfl, rfl, rfl⟩
    ⟨hw.first_some, hw.name_some, hw.text_some, hw.insertion_ends, hw.constructor_ends⟩
    hrep.first_eq hh' he'
  obtain ⟨headLine, body, hline, hbody, hends, hout⟩ := hasm.assemble_eq
  have hbrace : headLine.has "\x7b" = true :=
    has_singleton_iff.mpr (scan_head_line h hc (by simp [he']) hrep.first_eq hh'
      (by rw [← hline, ← hasm.lines_eq]))
  have hspan : (span text.lines s e).drop ((hl : Int) - s + 1).toNat
      = span text.lines (hl + 1 : Nat) e := by
    rw [span, span, drop_drop]
    congr 1
    omega
  rw [hasm.assembleFrom_below hms hcon hrep.unedited.1 hrep.unedited.2.2.1 _ _ rfl
    (by omega), hspan,
    show s + ((hl : Int) - s + 1).toNat = hl + 1 by omega, Except.ok.injEq] at hbody
  refine ⟨hl, e, _, hh', he', hout, ?_⟩
  have hlen := @Text.length_span text.lines s e hone (by omega) hst.last_le
  have hset := Edit.settles (hms.spans he') (span text.lines (hl + 1 : Nat) e) (hl + 1)
    (by rw [← hspan, length_drop]; omega) (hms.cutAt hh')
  have hnew : newHead { c with replaced := ms } headLine = c.declarationLine ++ " \x7b" := by
    rw [newHead, if_pos hbrace]
    rfl
  rw [hnew, ← removeEnd_endLines (by simp), endLines_cons]
  show removeEnd (_ ++ '\n' :: body) ['\n'] = _ ↔ _
  rw [removeEnd_feed_inj hends (endsLine_endLines _), ← hbody, replacedLines, hset.2,
    forall_mem_map]
  -- what is left is the condition on edits, to be read for the members
  refine forall_congr' fun m => forall_congr' fun hm => ?_
  obtain ⟨a, b, h'', -, ha, hb, hh'', -, hlt, -⟩ := hms.placed m hm
  rw [hh', Option.some.injEq] at hh''
  obtain ⟨t, ht⟩ := Option.isSome_iff_exists.mp (hms.replacement_some m hm)
  rw [hms.below_toEdit hh' hm hb]
  simp only [ExistingMember.toEdit, ha, hb, ht, Option.getD_some, unlines_lines, Option.some.injEq]
  constructor
  · rintro hhas b' t' rfl rfl
    exact hhas (by omega)
  · exact fun hhas _ => hhas b t rfl rfl

/-- Two members of a class, the second one with three lines. -/
theorem SourceClass.assemble_replaced_two :
    ∃ (text : Text) (ms : List ExistingMember) (cs : List SourceClass) (c : SourceClass),
      text
        = "class A \x7b\n  int x;\n  A(this.x);\n  int f() => 1;\n  int g() \x7b\n    return 2;
  \x7d\n\x7d".toList
        ∧ ms = [⟨"f", some 4, some 4, none, some "  int f() => 3;"⟩,
            ⟨"g", some 5, some 7, none, some "  int g() => 4;"⟩]
        ∧ scan text = .ok cs ∧ c ∈ cs ∧ c.Replaceable ms
        ∧ ({ c with replaced := ms } : SourceClass).assemble
          = .ok "class A \x7b\n  int x;\n  A(this.x);\n  int f() => 3;\n  int g() => 4;\n\x7d" := by
  obtain ⟨cs, c, hcs, hc, hv, hcon, hh, he, hline⟩ := SourceClass.exists_scanned
    (t := "class A \x7b\n  int x;\n  A(this.x);\n  int f() => 1;\n  int g() \x7b\n    return 2;
  \x7d\n\x7d")
    (P := fun c => c.isValid = true ∧ c.hasConstructor = true ∧ c.headLast = some 1
      ∧ c.last = some 8 ∧ c.declarationLine = "class A") (by decide +kernel)
  refine ⟨_, [⟨"f", some 4, some 4, none, some "  int f() => 3;"⟩,
    ⟨"g", some 5, some 7, none, some "  int g() => 4;"⟩], cs, c, rfl, rfl, hcs, hc, ?_⟩
  generalize hms : [(⟨"f", some 4, some 4, none, some "  int f() => 3;"⟩ : ExistingMember),
    ⟨"g", some 5, some 7, none, some "  int g() => 4;"⟩] = ms
  have hplaced : c.Replaceable ms := by
    subst hms
    refine ⟨fun m hm => ?_, fun m hm => ?_, ?_⟩
    · simp only [mem_cons, not_mem_nil, or_false] at hm
      rcases hm with rfl | rfl
      · exact ⟨4, 4, 1, 8, rfl, rfl, hh, he, by decide, by decide, by decide⟩
      · exact ⟨5, 7, 1, 8, rfl, rfl, hh, he, by decide, by decide, by decide⟩
    · simp only [mem_cons, not_mem_nil, or_false] at hm
      rcases hm with rfl | rfl <;> rfl
    · simp [ExistingMember.toEdit, Edit.Apart, Edit.covers]
      omega
  obtain ⟨hl, e, out, hh', he', hout, hiff⟩ :=
    SourceClass.assemble_replaced_iff hcs hc hv hcon hplaced
  obtain rfl : 1 = hl := by rw [hh, Option.some.injEq] at hh'; omega
  obtain rfl : 8 = e := by rw [he, Option.some.injEq] at he'; omega
  refine ⟨hplaced, hout.trans (congrArg Except.ok ?_)⟩
  subst hms
  rw [hiff.mpr, hline]
  · decide +kernel
  · intro m hm b t hb ht
    simp only [mem_cons, not_mem_nil, or_false] at hm
    rcases hm with rfl | rfl <;> cases hb <;> cases ht <;> decide +kernel

/-- A member whose new text stands in a comment below it: the old member is taken out and the new
    one is not written. -/
theorem SourceClass.assemble_loses_member :
    ∃ (text : Text) (m : ExistingMember) (cs : List SourceClass) (c : SourceClass) (out : Text),
      text
        = "class A \x7b\n  int x;\n  A(this.x);\n  String toString() => 'a';\n  /*
  String toString() => 'A(x: $x)';\n  */\n\x7d".toList
        ∧ m = ⟨"toString", some 4, some 4, none, some "  String toString() => 'A(x: $x)';"⟩
        ∧ scan text = .ok cs ∧ c ∈ cs ∧ c.isValid = true ∧ c.hasConstructor = true
        ∧ c.headLast = some 1 ∧ c.last = some 8 ∧ c.Replaceable [m]
        ∧ ({ c with replaced := [m] } : SourceClass).assemble = .ok out
        ∧ out
          = "class A \x7b\n  int x;\n  A(this.x);\n  /*\n  String toString() => 'A(x: $x)';
  */\n\x7d".toList
        ∧ out ≠ unlines ((c.declarationLine ++ " \x7b".toList) :: replacedLines text [m] 2 8) := by
  obtain ⟨cs, c, hcs, hc, hv, hcon, hh, he, hline, hout⟩ := SourceClass.exists_scanned
    (t := "class A \x7b\n  int x;\n  A(this.x);\n  String toString() => 'a';\n  /*
  String toString() => 'A(x: $x)';\n  */\n\x7d")
    (P := fun c => c.isValid = true ∧ c.hasConstructor = true ∧ c.headLast = some 1
      ∧ c.last = some 8 ∧ c.declarationLine = "class A"
      ∧ (SourceClass.assemble { c with replaced :=
          [⟨"toString", some 4, some 4, none, some "  String toString() => 'A(x: $x)';"⟩]
            }).toOption
        = some
          "class A \x7b\n  int x;\n  A(this.x);\n  /*\n  String toString() => 'A(x: $x)';
  */\n\x7d")
    (by decide +kernel)
  refine ⟨_, _, cs, c, _, rfl, rfl, hcs, hc, hv, hcon, hh, he,
    ⟨fun m hm => ?_, fun m hm => ?_, pairwise_singleton _ _⟩, toOption_eq_some.mp hout, rfl, ?_⟩
  · rw [mem_singleton.mp hm]
    exact ⟨4, 4, 1, 8, rfl, rfl, hh, he, by decide, by decide, by decide⟩
  · rw [mem_singleton.mp hm]
    rfl
  · rw [hline]
    decide +kernel

end DartData
