import DartData.Proofs.Text.Squeeze
import DartData.Text.TopLevel

/-!
# Texts with commas outside of brackets

A text is split at the commas that stand outside of brackets, whether or not its brackets are
balanced.  One number counts the open brackets of all shapes, and `endDepth?` follows it to the end
of a text that is not divided.  A text is not divided, or it is what stands before its first comma
and what stands after it; so what holds of these two cases holds of every text and its items
(`splitTopLevel_induction`).
-/

namespace DartData

open List

/-! ## §1. Brackets. -/

/-- The bracket that closes what a character opens. -/
def closerOf? (c : Char) : Option Char :=
  if c = '(' then some ')'
  else if c = '<' then some '>'
  else if c = '[' then some ']'
  else if c = '\x7b' then some '\x7d'
  else none

/-- Whether a character is a closing bracket. -/
def isCloser (c : Char) : Bool := c == ')' || c == '>' || c == ']' || c == '\x7d'

/-- Whether a character closes a bracket; `last` is the one in front of it, with which it may be an
    arrow. -/
def closes (last : Option Char) (c : Char) : Bool := isCloser c && !(c == '>' && last == some '=')

theorem closes_eq {last : Option Char} (h : last ≠ some '=') (c : Char) :
    closes last c = isCloser c := by
  simp [closes, h]

namespace Text

variable {c : Char} {p : Option Char} {b t : Text} {e : Int} {ts : List Text}

/-- A character that opens and closes nothing and is no comma. -/
def isFlatItem (c : Char) : Bool := (closerOf? c).isNone && !isCloser c && c != ','

theorem isFlatItem_iff : isFlatItem c ↔ closerOf? c = none ∧ isCloser c = false ∧ c ≠ ',' := by
  simp [isFlatItem, and_assoc]

/-- A class of characters that has no bracket and no comma. -/
theorem isFlatItem_of_class {p : Char → Bool} (h : p c)
    (hp : (['(', '<', '[', '\x7b', ')', '>', ']', '\x7d', ','].all fun d => !p d)) :
    isFlatItem c := by
  have hne : ∀ d ∈ ['(', '<', '[', '\x7b', ')', '>', ']', '\x7d', ','], c ≠ d := by
    rintro d hd rfl
    have := all_eq_true.mp hp c hd
    simp [h] at this
  simp only [forall_mem_cons, not_mem_nil, false_implies, implies_true, and_true] at hne
  simp [isFlatItem, closerOf?, isCloser, hne]

theorem isFlatItem_of_isBlank (h : isBlank c) : isFlatItem c :=
  isFlatItem_of_class h (by decide)

/-! ## §2. The depth along a text. -/

/-- The depth after a character, with `last` in front of it. -/
def depthAfter (depth : Int) (last : Option Char) (c : Char) : Int :=
  if (closerOf? c).isSome then depth + 1 else if closes last c then depth - 1 else depth

/-- The depth at the end of a text that has no comma outside of brackets. -/
def endDepth? (depth : Int) (last : Option Char) : Text → Option Int
  | [] => some depth
  | c :: r => if c = ',' ∧ depth = 0 then none else endDepth? (depthAfter depth last c) (some c) r

/-- One text after another. -/
theorem endDepth?_append (t u : Text) (depth : Int) (last : Option Char) :
    endDepth? depth last (t ++ u)
      = (endDepth? depth last t).bind fun e => endDepth? e (t.getLast?.or last) u := by
  induction t generalizing depth last with
  | nil => rfl
  | cons c t ih =>
    rw [cons_append, endDepth?, endDepth?, ih]
    split
    · rfl
    · simp [getLast?_cons]

theorem getLast?_or_ne (ht : '=' ∉ t) (hp : p ≠ some '=') : t.getLast?.or p ≠ some '=' := by
  intro h
  rcases Option.or_eq_some_iff.mp h with h | ⟨-, h⟩
  · exact ht (mem_of_getLast? h)
  · exact hp h

/-- A character in front counts only if it is an equals sign. -/
theorem endDepth?_congr {q : Option Char} (hp : p ≠ some '=') (hq : q ≠ some '=') (depth : Int)
    (t : Text) : endDepth? depth p t = endDepth? depth q t := by
  cases t with
  | nil => rfl
  | cons c r => rw [endDepth?, endDepth?, depthAfter, depthAfter, closes_eq hp, closes_eq hq]

theorem endDepth?_flats (hb : ∀ c ∈ b, isFlatItem c) (depth : Int) (last : Option Char) :
    endDepth? depth last b = some depth := by
  induction b generalizing depth last with
  | nil => rfl
  | cons c b ih =>
    obtain ⟨ho, hc, hcomma⟩ := isFlatItem_iff.mp (hb c mem_cons_self)
    rw [endDepth?, if_neg fun h => hcomma h.1, ih (forall_mem_cons.mp hb).2]
    simp [depthAfter, ho, closes, hc]

theorem endDepth?_flat_append (hb : ∀ c ∈ b, isFlatItem c) (heq : '=' ∉ b)
    (hp : p ≠ some '=') (depth : Int) (t : Text) :
      endDepth? depth p (b ++ t) = endDepth? depth p t := by
  rw [endDepth?_append, endDepth?_flats hb]
  exact endDepth?_congr (getLast?_or_ne heq hp) hp depth t

theorem endDepth?_append_blank (hb : ∀ c ∈ b, isBlank c) (t : Text) (depth : Int)
    (last : Option Char) : endDepth? depth last (t ++ b) = endDepth? depth last t := by
  rw [endDepth?_append]
  simp [endDepth?_flats fun c hc => isFlatItem_of_isBlank (hb c hc)]

theorem endDepth?_blank_append (hb : ∀ c ∈ b, isBlank c) (t : Text) :
    endDepth? 0 none (b ++ t) = endDepth? 0 none t :=
  endDepth?_flat_append (fun c hc => isFlatItem_of_isBlank (hb c hc))
    (fun h => absurd (hb _ h) (by decide)) (by decide) 0 t

/-! ## §3. The first piece. -/

/-- A character that divides nothing goes to the first piece. -/
theorem topLevelPieces_cons {depth : Int} (hsep : ¬ (c = ',' ∧ depth = 0)) (last : Option Char)
    (r : Text) : topLevelPieces (· == ',') depth last (c :: r)
      = topLevelPieces.push c (topLevelPieces (· == ',') (depthAfter depth last c) (some c) r) := by
  have hopen : (c = '(' || c = '<' || c = '[' || c = '\x7b') = (closerOf? c).isSome := by
    unfold closerOf?
    grind
  have hclose : (c = ')' || c = ']' || c = '\x7d' || (c = '>' && last != some '='))
      = closes last c := by
    unfold closes isCloser
    grind
  have hno : (c == ',' && depth == 0) = false := by simpa using hsep
  rw [topLevelPieces, hopen, hclose, hno, depthAfter]
  split
  · rfl
  · split <;> rfl

/-- Characters that are put in front of the first piece one after another. -/
theorem foldr_push (t w : Text) (ws : List Text) :
    t.foldr topLevelPieces.push (w :: ws) = (t ++ w) :: ws := by
  induction t with
  | nil => rfl
  | cons c t ih =>
    rw [foldr_cons, ih]
    rfl

/-- A text without a comma outside of brackets is not divided. -/
theorem topLevelPieces_endDepth (t : Text) : ∀ {depth e : Int} {last : Option Char},
    endDepth? depth last t = some e → ∀ rest : Text, ∃ last',
      topLevelPieces (· == ',') depth last (t ++ rest)
        = t.foldr topLevelPieces.push (topLevelPieces (· == ',') e last' rest) := by
  induction t with
  | nil =>
    intro depth e last h rest
    rw [← Option.some.inj h]
    exact ⟨last, rfl⟩
  | cons c r ih =>
    intro depth e last h rest
    rw [endDepth?] at h
    split at h
    · cases h
    next hsep =>
      obtain ⟨last', hrest⟩ := ih h rest
      exact ⟨last', by rw [cons_append, topLevelPieces_cons hsep, foldr_cons, ← hrest]⟩

/-- Where a text has a comma outside of brackets, the first one ends the first piece. -/
theorem endDepth?_eq_none {depth : Int} {last : Option Char} (h : endDepth? depth last t = none) :
    ∃ u r, t = u ++ ',' :: r ∧ endDepth? depth last u = some 0 := by
  induction t generalizing depth last with
  | nil => cases h
  | cons c r ih =>
    rw [endDepth?] at h
    split at h
    next hsep =>
      obtain ⟨rfl, rfl⟩ := hsep
      exact ⟨[], r, rfl, rfl⟩
    next hsep =>
      obtain ⟨u, v, rfl, hu⟩ := ih h
      exact ⟨c :: u, v, rfl, by rw [endDepth?, if_neg hsep, hu]⟩

/-! ## §4. Items. -/

/-- A piece as an item: trimmed, and left out if nothing is left of it. -/
def itemOf (piece : Text) : List Text := if piece.trim = [] then [] else [piece.trim]

theorem itemOf_eq (h : t.trim ≠ []) : itemOf t = [t.trim] := if_neg h

theorem mem_itemOf (h : t ∈ itemOf b) : t = b.trim ∧ t ≠ [] := by
  unfold itemOf at h
  split at h
  · cases h
  next hne =>
    obtain rfl := mem_singleton.mp h
    exact ⟨rfl, hne⟩

theorem itemOf_append_blank (hb : ∀ c ∈ b, isBlank c) (t : Text) : itemOf (t ++ b) = itemOf t := by
  rw [itemOf, trim_append_blank hb, itemOf]

theorem itemOf_blank_append (hb : ∀ c ∈ b, isBlank c) (t : Text) : itemOf (b ++ t) = itemOf t := by
  rw [itemOf, trim_append_of_blank hb, itemOf]

theorem splitTopLevel_eq_itemOf (h : endDepth? 0 none t = some e) : splitTopLevel t = itemOf t := by
  obtain ⟨last, hpieces⟩ := topLevelPieces_endDepth t h []
  rw [append_nil, topLevelPieces, foldr_push, append_nil] at hpieces
  rw [splitTopLevel, splitTopLevelBy, hpieces, itemOf]
  by_cases ht : t.trim = [] <;> simp [ht]

/-- **A comma outside of brackets divides a text.** -/
theorem splitTopLevel_append_comma {u : Text} (h : endDepth? 0 none u = some 0) (r : Text) :
    splitTopLevel (u ++ ',' :: r) = itemOf u ++ splitTopLevel r := by
  have hstart : topLevelPieces (· == ',') 0 (some ',') r = topLevelPieces (· == ',') 0 none r := by
    cases r <;> rfl
  obtain ⟨last, hpieces⟩ := topLevelPieces_endDepth u h (',' :: r)
  rw [show topLevelPieces (· == ',') 0 last (',' :: r)
    = [] :: topLevelPieces (· == ',') 0 (some ',') r from rfl, hstart, foldr_push, append_nil]
    at hpieces
  rw [splitTopLevel, splitTopLevelBy, hpieces, itemOf, splitTopLevel, splitTopLevelBy]
  by_cases hu : u.trim = [] <;> simp [hu]

/-- **What holds of a text that is not divided, and of two parts with a comma between them, holds of
    every text and its items.** -/
theorem splitTopLevel_induction {P : Text → List Text → Prop}
    (whole : ∀ t e, endDepth? 0 none t = some e → P t (itemOf t))
    (divided : ∀ u r, endDepth? 0 none u = some 0 → P r (splitTopLevel r) →
      P (u ++ ',' :: r) (itemOf u ++ splitTopLevel r)) (t : Text) : P t (splitTopLevel t) := by
  -- by induction on the length: what stands after the first comma is split by itself
  induction hn : t.length using Nat.strongRecOn generalizing t with
  | ind n ih =>
    cases h : endDepth? 0 none t with
    | some e =>
      rw [splitTopLevel_eq_itemOf h]
      exact whole t e h
    | none =>
      obtain ⟨u, r, rfl, hu⟩ := endDepth?_eq_none h
      rw [splitTopLevel_append_comma hu]
      refine divided u r hu (ih r.length ?_ r rfl)
      rw [← hn, length_append, length_cons]
      omega

theorem subset_of_mem_splitTopLevel (t : Text) : ∀ p ∈ t.splitTopLevel, p ⊆ t := by
  have hitem : ∀ {u p : Text}, p ∈ itemOf u → p ⊆ u := fun hp =>
    (mem_itemOf hp).1 ▸ (trim_sublist _).subset
  refine splitTopLevel_induction (P := fun t items => ∀ p ∈ items, p ⊆ t)
    (fun _ _ _ _ => hitem) ?_ t
  intro u r _ ih p hp
  rcases mem_append.mp hp with hp | hp
  · exact List.Subset.trans (hitem hp) (subset_append_left u _)
  · exact subset_append_of_subset_right u (subset_cons_of_subset _ (ih p hp))

theorem splitTopLevel_append_blank (hb : ∀ c ∈ b, isBlank c) (t : Text) :
    splitTopLevel (t ++ b) = splitTopLevel t := by
  refine splitTopLevel_induction (P := fun t items => splitTopLevel (t ++ b) = items) ?_ ?_ t
  · intro t e h
    rw [splitTopLevel_eq_itemOf ((endDepth?_append_blank hb t 0 none).trans h),
      itemOf_append_blank hb]
  · intro u r hu ih
    rw [append_assoc, cons_append, splitTopLevel_append_comma hu, ih]

theorem splitTopLevel_blank_append (hb : ∀ c ∈ b, isBlank c) (t : Text) :
    splitTopLevel (b ++ t) = splitTopLevel t := by
  cases h : endDepth? 0 none t with
  | some e =>
    rw [splitTopLevel_eq_itemOf ((endDepth?_blank_append hb t).trans h), splitTopLevel_eq_itemOf h,
      itemOf_blank_append hb]
  | none =>
    obtain ⟨u, r, rfl, hu⟩ := endDepth?_eq_none h
    rw [← append_assoc, splitTopLevel_append_comma ((endDepth?_blank_append hb u).trans hu),
      splitTopLevel_append_comma hu, itemOf_blank_append hb]

/-- **Blanks around a list make no difference to its items.** -/
theorem splitTopLevel_trim (t : Text) : splitTopLevel t.trim = splitTopLevel t := by
  obtain ⟨a, b, ha, hb, ht⟩ := exists_trim t
  conv => rhs; rw [ht, splitTopLevel_blank_append ha, splitTopLevel_append_blank hb]

/-- Texts of which all but the last leave as many brackets open as there were before, and none has a
    comma outside of brackets. -/
def IsSequence : List Text → Prop
  | [] => True
  | t :: ts => (endDepth? 0 none t).isSome = true ∧ (endDepth? 0 none t = some 0 ∨ ts = [])
      ∧ IsSequence ts

theorem isSequence_of_closed (h : ∀ t ∈ ts, endDepth? 0 none t = some 0) : IsSequence ts := by
  induction ts with
  | nil => trivial
  | cons t ts ih =>
    obtain ⟨ht, hts⟩ := forall_mem_cons.mp h
    exact ⟨by rw [ht]; rfl, .inl ht, ih hts⟩

/-- Texts with commas between them are split into their items. -/
theorem IsSequence.splitTopLevel_join (h : IsSequence ts) (hb : ∀ c ∈ b, isBlank c) :
    splitTopLevel (join (',' :: b) ts) = ts.flatMap itemOf := by
  induction ts with
  | nil => rw [join_nil]; rfl
  | cons t ts ih =>
    obtain ⟨hsome, hlast, hts⟩ := h
    cases ts with
    | nil =>
      obtain ⟨e, he⟩ := Option.isSome_iff_exists.mp hsome
      rw [join_singleton, splitTopLevel_eq_itemOf he, flatMap_singleton]
    | cons u ts =>
      have hclosed := hlast.resolve_right (cons_ne_nil u ts)
      rw [flatMap_cons, join_cons_cons, append_assoc, cons_append,
        splitTopLevel_append_comma hclosed, splitTopLevel_blank_append hb, ih hts]

theorem flatMap_itemOf (h : ∀ t ∈ ts, t.trim ≠ []) : ts.flatMap itemOf = ts.map trim := by
  induction ts with
  | nil => rfl
  | cons t ts ih =>
    obtain ⟨hne, hts⟩ := forall_mem_cons.mp h
    rw [flatMap_cons, ih hts, itemOf_eq hne]
    rfl

end Text

end DartData
