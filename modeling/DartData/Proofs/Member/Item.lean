import DartData.Member.Locate
import DartData.Proofs.Lexer.Reads

/-!
# Items of a class body

The body of a class is a sequence of items: lines by themselves, and blocks that open a brace on
their first line and close it on their last.  A search for a member passes over the items that do
not begin with its signature, and ends at the first one that does.
-/

namespace DartData

open List Text

/-! ## §1. Items. -/

/-- From the depth `k` the lines come back to the body of the class with the last of them, and not
    before. -/
def Closes (k : Int) : List Text → Prop
  | [] => False
  | l :: ls => ∃ d, Text.Adds '{' '}' l d
      ∧ ((ls = [] ∧ k + d = 1) ∨ (2 ≤ k + d ∧ Closes (k + d) ls))

theorem Closes.append_left {k : Int} {ls ms : List Text} (h : Closes k ls) (hk : 2 ≤ k)
    (hms : ∀ l ∈ ms, Adds '{' '}' l 0) : Closes k (ms ++ ls) := by
  induction ms with
  | nil => exact h
  | cons m ms ih =>
    have hrest := ih fun l hl => hms l (mem_cons_of_mem _ hl)
    exact ⟨0, hms m mem_cons_self, .inr ⟨by omega, by simpa using hrest⟩⟩

/-- A part of a class body: a line by itself, or a block. -/
structure Item where
  first : Text
  rest : List Text := []

namespace Item

/-- The lines of the item. -/
def lines (i : Item) : List Text := i.first :: i.rest

theorem lines_ne_nil (i : Item) : i.lines ≠ [] := cons_ne_nil _ _

/-- The item begins and ends in the body of the class. -/
def Sits (i : Item) : Prop :=
  (i.rest = [] ∧ Text.Adds '{' '}' i.first 0) ∨ (Text.Adds '{' '}' i.first 1 ∧ Closes 2 i.rest)

/-- The item does not begin the member with the signature `wanted`. -/
def Avoids (i : Item) (wanted : Text) : Prop :=
  (bareSignature i.first.trim).startsWith wanted = false
    ∨ (i.rest = [] ∧ i.first.has "=>" = false)

/-- The item begins and ends like a member: a block, or an arrow and a semicolon on one line. -/
def IsMember (i : Item) : Prop :=
  i.Sits ∧ (i.rest = [] → i.first.has "=>" = true ∧ endsStatement i.first = true)

/-- From the body of the class an item comes back to it. -/
theorem Sits.closes {i : Item} (h : i.Sits) : Closes 1 i.lines := by
  rcases h with ⟨hr, h⟩ | ⟨h, hcl⟩
  · exact ⟨0, h, .inl ⟨hr, rfl⟩⟩
  · exact ⟨1, h, .inr ⟨by decide, hcl⟩⟩

theorem Sits.adds_first {i : Item} (h : i.Sits) (hr : i.rest = []) : Adds '{' '}' i.first 0 := by
  rcases h with h | ⟨-, hcl⟩
  · exact h.2
  · rw [hr] at hcl
    exact absurd hcl (by simp [Closes])

end Item

theorem Item.isMember_arrow {l : Text} (hl : Adds '{' '}' l 0) (ha : l.has "=>")
    (he : endsStatement l) : Item.IsMember { first := l } :=
  ⟨.inl ⟨rfl, hl⟩, fun _ => ⟨ha, he⟩⟩

theorem Item.isMember_of_closes {first : Text} {rest : List Text} (hf : Adds '{' '}' first 1)
    (hc : Closes 2 rest) : Item.IsMember { first, rest } := by
  refine ⟨.inr ⟨hf, hc⟩, fun h => ?_⟩
  have h : rest = [] := h
  simp [h, Closes] at hc

/-- Balanced lines and the brace that ends their block. -/
theorem closes_body {body : List Text} (hb : ∀ l ∈ body, Adds '{' '}' l 0) :
    Closes 2 (body ++ [['}']]) := by
  have hbrace : Closes 2 [['}']] := ⟨-1, adds_code (by decide) _ _, .inl ⟨rfl, rfl⟩⟩
  exact hbrace.append_left (by decide) hb

/-- The lines of items one after another. -/
def itemLines (is : List Item) : List Text := is.flatMap Item.lines

@[simp] theorem itemLines_nil : itemLines [] = [] := rfl

@[simp] theorem itemLines_cons (i : Item) (is : List Item) :
    itemLines (i :: is) = i.lines ++ itemLines is := rfl

@[simp] theorem itemLines_append (is js : List Item) :
    itemLines (is ++ js) = itemLines is ++ itemLines js := flatMap_append

/-- The reader of brackets stands directly in the body of a class. -/
structure Brackets.InBody (b : Brackets) : Prop where
  lexer_eq : b.lexer = {}
  curly_eq : b.curly = 1
  opened_eq : b.opened = true

theorem Brackets.InBody.feed {b : Brackets} (h : b.InBody) {line : Text}
    (hl : Adds '{' '}' line 0) : (b.feed line).InBody where
  lexer_eq := feed_lexer h.lexer_eq hl
  curly_eq := by rw [feed_curly h.lexer_eq hl, h.curly_eq]; rfl
  opened_eq := feed_opened b line h.opened_eq

/-! ## §2. Passing over items. -/

namespace SourceClass

variable {wanted : Text} {b : Brackets} {i : Item}

theorem memberIn_of_not_begins {line : Text}
    (h : beginsMember wanted b.curly (b.feed line).curly line = false) (name : Text) (n : Int)
    (more : List Text) :
    memberIn name wanted n b (line :: more) = memberIn name wanted (n + 1) (b.feed line) more := by
  rw [memberIn, h]
  rfl

/-- Inside of a block no member begins, so what counts is the line that it begins with. -/
theorem memberIn_closes (name wanted : Text) (ls : List Text) (n : Int) (b : Brackets)
    (more : List Text) (hb : b.lexer = {}) (ho : b.opened) (hk : 1 ≤ b.curly)
    (h : Closes b.curly ls)
    (hfirst : b.curly = 1 → ∀ l ∈ ls.head?,
      beginsMember wanted b.curly (b.feed l).curly l = false) :
    ∃ b' : Brackets, b'.InBody
      ∧ memberIn name wanted n b (ls ++ more) = memberIn name wanted (n + ls.length) b' more := by
  induction ls generalizing n b more with
  | nil => exact absurd h (by simp [Closes])
  | cons l ls ih =>
    obtain ⟨d, hd, hrest⟩ := h
    have hno : beginsMember wanted b.curly (b.feed l).curly l = false := by
      by_cases h1 : b.curly = 1
      · exact hfirst h1 l rfl
      · have hne : (b.curly == 1) = false := by simpa using h1
        simp [beginsMember, hne]
    have hcurly := Brackets.feed_curly hb hd
    have hlexer := Brackets.feed_lexer hb hd
    have hopened := Brackets.feed_opened b l ho
    rw [cons_append, memberIn_of_not_begins hno]
    rcases hrest with ⟨rfl, h1⟩ | ⟨h2, hcl⟩
    · exact ⟨b.feed l, ⟨hlexer, by omega, hopened⟩, rfl⟩
    · obtain ⟨b', hb', heq⟩ := ih (n + 1) (b.feed l) more hlexer hopened (by omega)
        (by rw [hcurly]; exact hcl) fun h1 => absurd h1 (by omega)
      refine ⟨b', hb', ?_⟩
      rw [heq, length_cons]
      congr 1
      omega

/-- Another member is passed over. -/
theorem memberIn_item {i : Item} {wanted : Text} (hi : i.Sits) (ha : i.Avoids wanted) (name : Text)
    (n : Int) {b : Brackets} (hb : b.InBody) (more : List Text) :
    ∃ b' : Brackets, b'.InBody ∧ memberIn name wanted n b (i.lines ++ more)
      = memberIn name wanted (n + i.lines.length) b' more := by
  refine memberIn_closes name wanted i.lines n b more hb.lexer_eq hb.opened_eq
    (Int.le_of_eq hb.curly_eq.symm) (by rw [hb.curly_eq]; exact hi.closes) fun _ l hl => ?_
  cases hl
  rcases ha with ha | ⟨hr, ha⟩
  · simp [beginsMember, ha]
  · -- a line by itself begins a member only with its signature and an arrow
    have hadd : Adds '{' '}' i.first 0 := hi.adds_first hr
    have ha : i.first.has ['=', '>'] = false := ha
    simp [beginsMember, ha, (hb.feed hadd).curly_eq]

/-- A search passes over items that begin otherwise. -/
theorem memberIn_items (name wanted : Text) (is : List Item) (n : Int) (b : Brackets)
    (more : List Text) (hb : b.InBody) (his : ∀ i ∈ is, i.Sits ∧ i.Avoids wanted) :
    ∃ b' : Brackets, b'.InBody ∧ memberIn name wanted n b (itemLines is ++ more)
        = memberIn name wanted (n + (itemLines is).length) b' more := by
  induction is generalizing n b more with
  | nil => exact ⟨b, hb, by simp⟩
  | cons i is ih =>
    obtain ⟨hs, ha⟩ := his i mem_cons_self
    obtain ⟨b₁, hb₁, h₁⟩ := memberIn_item hs ha name n hb (itemLines is ++ more)
    obtain ⟨b₂, hb₂, h₂⟩ := ih (n + i.lines.length) b₁ more hb₁
      fun j hj => his j (mem_cons_of_mem _ hj)
    refine ⟨b₂, hb₂, ?_⟩
    rw [itemLines_cons, append_assoc, h₁, h₂, length_append]
    congr 1
    omega

/-! ## §3. Finding a member. -/

/-- A member ends where its brackets are closed. -/
theorem memberRest_closes (ls : List Text) (n : Int) (b : Brackets) (more : List Text)
    (hb : b.lexer = {}) (h : Closes b.curly ls) :
    memberRest false n b (ls ++ more) = some (n + ls.length - 1, ls) := by
  induction ls generalizing n b more with
  | nil => exact absurd h (by simp [Closes])
  | cons l ls ih =>
    obtain ⟨d, hd, hrest⟩ := h
    have hcurly := Brackets.feed_curly hb hd
    rw [cons_append, memberRest]
    rcases hrest with ⟨rfl, h1⟩ | ⟨h2, hcl⟩
    · have h1 : ((b.feed l).curly == 1) := by simp; omega
      simp [h1]
    · have hne : ((b.feed l).curly == 1) = false := by simp; omega
      rw [ih (n + 1) (b.feed l) more (Brackets.feed_lexer hb hd) (by rw [hcurly]; exact hcl)]
      simp only [hne, Bool.false_eq_true, if_false, Option.map_some, length_cons,
        Option.some.injEq, Prod.mk.injEq, and_true]
      omega

/-- The search finds the item that has the signature. -/
theorem memberIn_found (hi : i.IsMember)
    (hw : (bareSignature i.first.trim).startsWith wanted) (name : Text) (n : Int)
    (hb : b.InBody) (more : List Text) :
    memberIn name wanted n b (i.lines ++ more)
      = some { name, first := some n, last := some (n + i.rest.length),
               current := some (unlines i.lines) } := by
  obtain ⟨first, rest⟩ := i
  obtain ⟨hs, harrow⟩ := hi
  have hw : (bareSignature first.trim).startsWith wanted := hw
  -- an arrow member ends on its line, a block on the line that closes it
  rcases hs with ⟨hr, hadd⟩ | ⟨hadd, hcl⟩
  · have hr : rest = [] := hr
    subst hr
    obtain ⟨ha, hend⟩ := harrow rfl
    have ha : first.has ['=', '>'] := ha
    have hend : endsStatement first := hend
    have h1 := (hb.feed hadd).curly_eq
    show memberIn name wanted n b (first :: more) = _
    rw [memberIn]
    simp [beginsMember, hb.curly_eq, hw, ha, hend, show (b.feed first).curly = 1 from h1,
      Item.lines]
  · have hadd : Adds '{' '}' first 1 := hadd
    have hcurly : (b.feed first).curly = 2 := by
      rw [Brackets.feed_curly hb.lexer_eq hadd, hb.curly_eq]
      rfl
    have hrest := memberRest_closes rest (n + 1) (b.feed first) more
      (Brackets.feed_lexer hb.lexer_eq hadd) (by rw [hcurly]; exact hcl)
    have hlast : n + 1 + (rest.length : Int) - 1 = n + rest.length := by omega
    show memberIn name wanted n b (first :: (rest ++ more)) = _
    rw [memberIn]
    simp [beginsMember, hb.curly_eq, hw, hcurly, hrest, Item.lines, hlast]

end SourceClass

end DartData
