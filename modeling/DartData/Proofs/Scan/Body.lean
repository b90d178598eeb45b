import DartData.Proofs.Member.Item
import DartData.Proofs.Outcome
import DartData.Proofs.Plain.Line

/-!
# Scanning a class body

How the scanner goes through the body of a class that is put together from items: fields are
collected, the constructor is recorded with its lines, and all other items are passed over.
-/

namespace DartData

open List Text

/-! ## §1. One line. -/

theorem isClassLine_of_allBlank {l : Text} (h : l.allBlank) : isClassLine l = false := by
  rw [isClassLine, trimStart_eq_nil_iff.mpr h]
  rfl

/-- The class with some more lines collected. -/
def SourceClass.keeping (c : SourceClass) (ls : List Text) : SourceClass :=
  { c with content := c.content ++ endLines ls }

@[simp] theorem SourceClass.keeping_nil (c : SourceClass) : c.keeping [] = c := by
  simp [keeping]

@[simp] theorem SourceClass.keeping_keeping (c : SourceClass) (ls ms : List Text) :
    (c.keeping ls).keeping ms = c.keeping (ls ++ ms) := by
  simp [keeping]

namespace OpenClass

/-- The scanner in the body of a class that is reported. -/
def inBody (c : SourceClass) (b : Brackets) (t : Text) : OpenClass :=
  { found := c, listed := true, headText := t, brackets := b, phase := .body }

/-- The scanner in the constructor of such a class. -/
def inConstructor (c : SourceClass) (b : Brackets) (t : Text) : OpenClass :=
  { found := c, listed := true, headText := t, brackets := b, phase := .constructor }

/-- A line below the head: the constructor is looked for, and the class is closed or goes on. -/
theorem read_eq {o o' : OpenClass} {n : Int} {line : Text} (hp : o.phase ≠ .head)
    (ho : (enterConstructor { o with brackets := o.brackets.feed line } n o.brackets.curly
      line false).readConstructor n line = o') (previous : Option Text) :
    o.read n previous line false
      = if o'.brackets.closed then .ok (o'.report (o'.close n line), none)
        else .ok ([], some ((o'.keepLine line).readField n previous line false)) := by
  have hhead : readHead { o with brackets := o.brackets.feed line } n line false
      = .ok { o with brackets := o.brackets.feed line } := by
    unfold readHead
    exact if_neg hp
  unfold read
  dsimp only
  rw [hhead]
  dsimp only [bind, Except.bind]
  rw [ho]
  rfl

/-- A line of the body that neither begins the constructor nor closes the class. -/
theorem read_inBody {c : SourceClass} {b : Brackets} {t line : Text}
    (hno : (inBody c b t).beginsConstructor b.curly line = false)
    (hcl : (b.feed line).closed = false) (n : Int) (previous : Option Text) :
    (inBody c b t).read n previous line false
      = .ok ([], some ((inBody (c.keeping [line]) (b.feed line) t).readField n previous line
        false)) := by
  have hno : (inBody c (b.feed line) t).beginsConstructor b.curly line = false := hno
  have hsteps : (enterConstructor (inBody c (b.feed line) t) n b.curly line
      false).readConstructor n line = inBody c (b.feed line) t := by
    rw [enterConstructor, hno]
    rfl
  rw [read_eq (by simp [inBody]) hsteps, if_neg (by simpa [inBody] using hcl)]
  simp [keepLine, inBody, SourceClass.keeping]

end OpenClass

variable {line name t : Text} {c : SourceClass} {n : Nat} {previous : Option Text}

/-- Reading lines from the line `n` on leads from one state of the scanner to another, whatever
    follows.  A state is an open class with the line above. -/
def ScansTo (n : Nat) (s : Option Text × OpenClass) (ls : List Text)
    (s' : Option Text × OpenClass) : Prop :=
  ∀ more, scanLines n s.1 (some s.2) (ls ++ more) = scanLines (n + ls.length) s'.1 (some s'.2) more

theorem ScansTo.append {s₁ s₂ s₃ : Option Text × OpenClass} {ls ms : List Text}
    (h₁ : ScansTo n s₁ ls s₂)
    (h₂ : ScansTo (n + ls.length) s₂ ms s₃) : ScansTo n s₁ (ls ++ ms) s₃ := by
  intro more
  rw [append_assoc, h₁, h₂, length_append, Nat.add_assoc]

theorem scansTo_line (hc : isClassLine line = false) {o o' : OpenClass}
    (hr : o.read n previous line false = .ok ([], some o')) :
    ScansTo n (previous, o) [line] (some line, o') := by
  intro more
  rw [singleton_append, scanLines_inside hc, hr]
  show (scanLines (n + 1) (some line) (some o') more >>= fun later => .ok ([] ++ later)) = _
  cases scanLines (n + 1) (some line) (some o') more <;> rfl

/-- A line of the body that declares nothing. -/
theorem scansTo_quiet {b : Brackets} (hc : isClassLine line = false)
    (hno : (OpenClass.inBody c b t).beginsConstructor b.curly line = false)
    (hcl : (b.feed line).closed = false)
    (hf : (OpenClass.inBody c (b.feed line) t).declaresField line false = false
      ∨ ∀ n p, Field.ofLine? line n p = none) (n : Nat) (previous : Option Text) :
    ScansTo n (previous, .inBody c b t) [line]
      (some line, .inBody (c.keeping [line]) (b.feed line) t) := by
  have hfield :
      (OpenClass.inBody (c.keeping [line]) (b.feed line) t).readField n previous line false
      = OpenClass.inBody (c.keeping [line]) (b.feed line) t := by
    rcases hf with hf | hf
    · have hf : (OpenClass.inBody (c.keeping [line]) (b.feed line) t).declaresField line false
          = false := hf
      rw [OpenClass.readField, hf]
      rfl
    · rw [OpenClass.readField, hf]
      split
      · simp [OpenClass.inBody]
      · rfl
  have hr := OpenClass.read_inBody hno hcl n previous
  rw [hfield] at hr
  exact scansTo_line hc hr

/-! ## §2. Brackets. -/

namespace Brackets

/-- The reader of brackets in code, at these depths. -/
def level (curly paren : Int) : Brackets := { curly, paren, opened := true }

variable {k d p e : Int}

theorem eq_level {b : Brackets} (hlexer : b.lexer = {}) (hopened : b.opened) :
    b = level b.curly b.paren := by
  cases b
  cases hlexer
  cases hopened
  rfl

theorem exists_feed_level (hd : Adds '{' '}' line d) :
    ∃ p', (level k p).feed line = level (k + d) p' := by
  have heq := eq_level (feed_lexer (b := level k p) rfl hd) (feed_opened (level k p) line rfl)
  rw [feed_curly (b := level k p) rfl hd] at heq
  exact ⟨_, heq⟩

theorem feed_level (hd : Adds '{' '}' line d) (he : Adds '(' ')' line e) :
    (level k p).feed line = level (k + d) (p + e) := by
  obtain ⟨p', hfeed⟩ := exists_feed_level (k := k) (p := p) hd
  have hparen := feed_paren (b := level k p) rfl he
  rw [hfeed] at hparen ⊢
  exact congrArg (level (k + d)) hparen

theorem closed_level (hk : k ≠ 0) (p : Int) : (level k p).closed = false := by
  simpa [closed, level] using hk

end Brackets

open Brackets (level closed_level feed_level)

/-! ## §3. Items. -/

/-- The item has no class line, and its first line begins neither a constructor nor a field. -/
structure Item.Silent (i : Item) (name : Text) : Prop where
  no_class_line : ∀ l ∈ i.lines, isClassLine l = false
  no_constructor : (OpenClass.afterConst i.first).startsWith (name ++ ['(']) = false
  no_field : i.first = [] ∨ ∀ seen, isFieldLine (some name) seen i.first = false

theorem ofLine?_nil (n : Int) (previous : Option Text) : Field.ofLine? [] n previous = none := by
  simp [Field.ofLine?, split, FieldReader.readWords, FieldReader.readWord]

/-- A line that opens or closes a brace declares no field. -/
theorem isFieldLine_of_brace {d : Int} (h : Adds '{' '}' line d) (hd : d ≠ 0)
    (name : Option Text) (seen : Bool) : isFieldLine name seen line = false := by
  obtain ⟨code, hr, hk⟩ := h
  have hsub : code.Sublist line := by
    have := Lexer.feed_sublist {} line
    rwa [hr.feed_eq] at this
  have hmem : '{' ∈ line ∨ '}' ∈ line := by
    refine Decidable.byContradiction fun hno => ?_
    rw [not_or] at hno
    have ho : code.count '{' = 0 := count_eq_zero.mpr fun h => hno.1 (hsub.subset h)
    have hc : code.count '}' = 0 := count_eq_zero.mpr fun h => hno.2 (hsub.subset h)
    omega
  have hs : line.hasOneOf memberSymbols := by
    rcases hmem with hmem | hmem <;>
      simp [hasOneOf, memberSymbols, has_singleton_iff, hmem]
  simp [isFieldLine, hs]

/-- In the body of a class, the line begins neither a constructor nor a field. -/
def OpenClass.Passes (c : SourceClass) (b : Brackets) (t line : Text) : Prop :=
  (OpenClass.inBody c b t).beginsConstructor b.curly line = false
    ∧ ((OpenClass.inBody c (b.feed line) t).declaresField line false = false
      ∨ ∀ n p, Field.ofLine? line n p = none)

/-- The lines of a block.  Only the first of them can stand in the body of the class itself. -/
theorem scansTo_closes (ls : List Text) (n : Nat) (previous : Option Text) (c : SourceClass)
    (k p : Int) (hk : 1 ≤ k) (h : Closes k ls) (hls : ∀ l ∈ ls, isClassLine l = false)
    (hfirst : k = 1 → ∀ l ∈ ls.head?, OpenClass.Passes c (level k p) t l) :
    ∃ q p', ScansTo n
      (previous, .inBody c (level k p) t) ls (q, .inBody (c.keeping ls) (level 1 p') t) := by
  induction ls generalizing n previous c k p with
  | nil => exact absurd h (by simp [Closes])
  | cons l ls ih =>
    obtain ⟨d, hd, hrest⟩ := h
    obtain ⟨p', hfeed⟩ := Brackets.exists_feed_level (k := k) (p := p) hd
    -- inside of a block a line declares no field: it has a brace, or the depth after it is not
    -- that of the body
    have hpasses : OpenClass.Passes c (level k p) t l := by
      by_cases h1 : k = 1
      · exact hfirst h1 l rfl
      have hno : ((level k p).curly == 1) = false := by simpa [level] using h1
      refine ⟨by simp [OpenClass.beginsConstructor, hno], .inl ?_⟩
      rcases hrest with ⟨-, h1⟩ | ⟨h2, -⟩
      · simp [OpenClass.declaresField, isFieldLine_of_brace hd (by omega)]
      · have : (k + d == 1) = false := by
          simp only [beq_eq_false_iff_ne]
          omega
        rw [hfeed]
        simp [OpenClass.declaresField, OpenClass.inBody, level, this]
    have hline := scansTo_quiet (hls l mem_cons_self) hpasses.1
      (by rw [hfeed]; exact closed_level (by omega) p') hpasses.2 n previous
    rw [hfeed] at hline
    rcases hrest with ⟨rfl, h1⟩ | ⟨h2, hcl⟩
    · exact ⟨some l, p', h1 ▸ hline⟩
    · obtain ⟨q, p'', hrest⟩ := ih (n + 1) (some l) (c.keeping [l]) (k + d) p' (by omega) hcl
        (forall_mem_cons.mp hls).2 fun h1 => absurd h1 (by omega)
      rw [SourceClass.keeping_keeping] at hrest
      exact ⟨q, p'', hline.append hrest⟩

theorem scansTo_item {i : Item} (hi : i.Sits) (hs : i.Silent name) (hn : c.head.name = some name)
    (n : Nat) (previous : Option Text) (p : Int) : ∃ q p', ScansTo n
      (previous, .inBody c (level 1 p) t) i.lines
        (q, .inBody (c.keeping i.lines) (level 1 p') t) := by
  refine scansTo_closes i.lines n previous c 1 p (by decide) hi.closes hs.no_class_line
    fun _ l hl => ?_
  cases hl
  refine ⟨by simp [OpenClass.beginsConstructor, OpenClass.inBody, hn, hs.no_constructor], ?_⟩
  rcases hs.no_field with hf | hf
  · exact .inr fun n p => by rw [hf, ofLine?_nil]
  · exact .inl (by simp [OpenClass.declaresField, OpenClass.inBody, hn, hf])

/-- Members are passed over. -/
theorem scansTo_items (is : List Item) (n : Nat) (previous : Option Text) (c : SourceClass)
    (p : Int) (hn : c.head.name = some name) (his : ∀ i ∈ is, i.Sits ∧ i.Silent name) :
    ∃ q p', ScansTo n (previous, .inBody c (level 1 p) t) (itemLines is)
      (q, .inBody (c.keeping (itemLines is)) (level 1 p') t) := by
  induction is generalizing n previous c p with
  | nil => exact ⟨previous, p, by simp [ScansTo]⟩
  | cons i is ih =>
    obtain ⟨hs, hq⟩ := his i mem_cons_self
    obtain ⟨q₁, p₁, h₁⟩ := scansTo_item (t := t) hs hq hn n previous p
    obtain ⟨q₂, p₂, h₂⟩ := ih (n + i.lines.length) q₁ (c.keeping i.lines) p₁ hn
      fun j hj => his j (mem_cons_of_mem _ hj)
    rw [SourceClass.keeping_keeping] at h₂
    exact ⟨q₂, p₂, by rw [itemLines_cons]; exact h₁.append h₂⟩

/-! ## §4. Fields. -/

/-- The line declares the field in the body of the class `name`, above its constructor. -/
structure Declares (name line : Text) (f : Field) : Prop where
  no_class_line : isClassLine line = false
  no_comment : '/' ∉ line
  no_constructor : (OpenClass.afterConst line).startsWith (name ++ ['(']) = false
  curly : Text.Adds '{' '}' line 0
  paren : Text.Adds '(' ')' line 0
  field_line : isFieldLine (some name) false line = true
  ofLine?_eq : ∀ (n : Int) (previous : Option Text), previous.any marksEnum = false →
    Field.ofLine? line n previous = some { f with line := n }

/-- A line without a round bracket begins no constructor. -/
theorem afterConst_of_not_mem {line name : Text} (h : '(' ∉ line) :
    (OpenClass.afterConst line).startsWith (name ++ ['(']) = false := by
  have hstart : ∀ {t : Text} {c : Char}, c ∈ t.trimStart → c ∈ t :=
    fun hc => (dropWhile_sublist _).subset hc
  have hsub : ∀ c ∈ OpenClass.afterConst line, c ∈ line := by
    intro c hc
    unfold OpenClass.afterConst at hc
    dsimp only at hc
    split at hc
    · exact hstart (mem_of_mem_drop (hstart hc))
    · exact hstart hc
  rw [startsWith_eq_false_iff]
  intro hpre
  exact h (hsub '(' (hpre.subset (by simp)))

/-- **The line that is written for a field declares it**, unless it is taken for something else. -/
theorem Field.Printable.declares {f : Field} (h : f.Printable)
    (hup : name.head?.any Char.isUpper) (hplain : f.modifiers = [] →
      f.declarationLine.startsWith name = false ∧ isClassLine f.declarationLine = false) :
    Declares name f.bodyLine f.bare where
  no_class_line := h.isClassLine_bodyLine fun hm => (hplain hm).2
  no_comment := h.not_mem_bodyLine (by decide) (by decide)
  no_constructor := afterConst_of_not_mem (h.not_mem_bodyLine (by decide) (by decide))
  curly := h.tame_bodyLine.adds
  paren := h.adds_paren_bodyLine
  field_line := h.isFieldLine_bodyLine hup (fun hm => (hplain hm).1)
    fun hseen => absurd hseen Bool.false_ne_true
  ofLine?_eq := fun n previous hp => by
    rw [h.ofLine?_bodyLine, hp]
    rfl

/-- The fields on the lines from `n` on. -/
def fieldsAt (n : Int) : List Field → List Field
  | [] => []
  | f :: fs => { f with line := n } :: fieldsAt (n + 1) fs

/-- Field lines add their fields. -/
theorem scansTo_fields (fs : List (Text × Field)) (n : Nat) (previous : Option Text)
    (c : SourceClass) (hfs : ∀ x ∈ fs, Declares name x.1 x.2) (hn : c.head.name = some name)
    (hf : c.constructorFirst = none) (hprev : previous.any marksEnum = false) :
    ∃ q, ScansTo n (previous, .inBody c (level 1 0) t) (fs.map Prod.fst)
      (q, .inBody { c.keeping (fs.map Prod.fst) with
        fields := c.fields ++ fieldsAt n (fs.map Prod.snd) } (level 1 0) t) := by
  induction fs generalizing n previous c with
  | nil => exact ⟨previous, by simp [ScansTo, fieldsAt]⟩
  | cons x fs ih =>
    obtain ⟨line, f⟩ := x
    have hline : Declares name line f := hfs (line, f) mem_cons_self
    have hfeed : (level 1 0).feed line = level 1 0 := feed_level hline.curly hline.paren
    have hno : (OpenClass.inBody c (level 1 0) t).beginsConstructor 1 line = false := by
      simp [OpenClass.beginsConstructor, OpenClass.inBody, hn, hline.no_constructor]
    have hfield : (OpenClass.inBody (c.keeping [line]) (level 1 0) t).readField n previous
        line false = OpenClass.inBody
          { c.keeping [line] with fields := c.fields ++ [{ f with line := (n : Int) }] }
          (level 1 0) t := by
      have hd : (OpenClass.inBody (c.keeping [line]) (level 1 0) t).declaresField line false := by
        simp [OpenClass.declaresField, OpenClass.inBody, level, SourceClass.keeping, hn, hf,
          hline.field_line]
      rw [OpenClass.readField, hd, hline.ofLine?_eq n previous hprev]
      rfl
    have hr :=
      OpenClass.read_inBody hno (by rw [hfeed]; exact closed_level (by decide) 0) n previous
    rw [hfeed, hfield] at hr
    -- a field line marks no enumeration for the next one
    obtain ⟨q, hrest⟩ := ih (n + 1) (some line)
      { c.keeping [line] with fields := c.fields ++ [{ f with line := (n : Int) }] }
      (forall_mem_cons.mp hfs).2 hn hf
      (by simpa using marksEnum_of_not_mem hline.no_comment)
    refine ⟨q, ?_⟩
    have := (scansTo_line hline.no_class_line hr).append hrest
    simpa [SourceClass.keeping, fieldsAt] using this

/-! ## §5. The constructor. -/

/-- The constructor of a class: its first line opens a round and a curly bracket, which are closed
    on the last one. -/
structure IsConstructor (name first : Text) (mid : List Text) (last : Text) : Prop where
  no_class_line : ∀ l ∈ first :: mid ++ [last], isClassLine l = false
  begins : (OpenClass.afterConst first).startsWith (name ++ ['(']) = true
  first_curly : Text.Adds '{' '}' first 1
  first_paren : Text.Adds '(' ')' first 1
  mid_curly : ∀ l ∈ mid, Text.Adds '{' '}' l 0
  mid_paren : ∀ l ∈ mid, Text.Adds '(' ')' l 0
  last_curly : Text.Adds '{' '}' last (-1)
  last_paren : Text.Adds '(' ')' last (-1)

namespace OpenClass

variable {c : SourceClass} {b : Brackets} {line t u : Text} {a : Int}

/-- The line that begins the constructor. -/
theorem read_constructor_first (hb : (inBody c b t).beginsConstructor b.curly line)
    (ht : c.constructorText = none) (hp : (b.feed line).paren = 1)
    (hcl : (b.feed line).closed = false) (n : Int) (previous : Option Text) :
    (inBody c b t).read n previous line false = .ok ([], some (inConstructor { c.keeping [line] with
          constructorFirst := some n, constructorText := some (line ++ ['\n']) }
        (b.feed line) t)) := by
  have hb : (inBody c (b.feed line) t).beginsConstructor b.curly line := hb
  have hsteps : (enterConstructor (inBody c (b.feed line) t) n b.curly line
      false).readConstructor n line = inConstructor { c with
        constructorFirst := some n, constructorText := some (line ++ ['\n']) } (b.feed line) t := by
    rw [enterConstructor, hb]
    simp [readConstructor, inBody, inConstructor, hp, ht]
  rw [read_eq (by simp [inBody]) hsteps, if_neg (by simpa [inConstructor] using hcl)]
  simp [keepLine, readField, declaresField, inConstructor, SourceClass.keeping]

/-- A line inside of the constructor. -/
theorem read_constructor_mid (hf : c.constructorFirst = some a) (ht : c.constructorText = some u)
    (hp : (b.feed line).paren = 1) (hcl : (b.feed line).closed = false) (n : Int)
    (previous : Option Text) :
    (inConstructor c b t).read n previous line false = .ok ([], some (inConstructor
        { c.keeping [line] with constructorText := some (u ++ line ++ ['\n']) }
        (b.feed line) t)) := by
  have hsteps : (enterConstructor (inConstructor c (b.feed line) t) n b.curly line
      false).readConstructor n line = inConstructor
        { c with constructorText := some (u ++ line ++ ['\n']) } (b.feed line) t := by
    simp [enterConstructor, beginsConstructor, readConstructor, inConstructor, hf, hp, ht]
  rw [read_eq (by simp [inConstructor]) hsteps, if_neg (by simpa [inConstructor] using hcl)]
  simp [keepLine, readField, declaresField, inConstructor, SourceClass.keeping]

/-- The line that ends the constructor. -/
theorem read_constructor_last (hf : c.constructorFirst = some a) (ht : c.constructorText = some u)
    (hp : (b.feed line).paren = 0) (hcl : (b.feed line).closed = false)
    (hfield : ∀ name seen, isFieldLine name seen line = false) (n : Int) (previous : Option Text) :
    (inConstructor c b t).read n previous line false = .ok ([], some (inBody { c.keeping [line] with
          constructorText := some (u ++ line), constructorLast := some n }
        (b.feed line) t)) := by
  have hsteps : (enterConstructor (inConstructor c (b.feed line) t) n b.curly line
      false).readConstructor n line = inBody
        { c with constructorText := some (u ++ line), constructorLast := some n }
        (b.feed line) t := by
    simp [enterConstructor, beginsConstructor, readConstructor, inConstructor, inBody, hf, hp, ht]
  rw [read_eq (by simp [inConstructor]) hsteps, if_neg (by simpa [inBody] using hcl)]
  simp [keepLine, readField, declaresField, inBody, SourceClass.keeping, hfield]

end OpenClass

/-- The lines inside of a constructor are collected. -/
theorem scansTo_constructor_mid (mid : List Text) (n : Nat) (previous : Option Text)
    (c : SourceClass) (a : Int) (u : Text) (hf : c.constructorFirst = some a)
    (ht : c.constructorText = some u) (hcl : ∀ l ∈ mid, isClassLine l = false)
    (hk : ∀ l ∈ mid, Adds '{' '}' l 0) (hp : ∀ l ∈ mid, Adds '(' ')' l 0) :
    ∃ q, ScansTo n (previous, .inConstructor c (level 2 1) t) mid (q, .inConstructor
      { c.keeping mid with constructorText := some (u ++ endLines mid) } (level 2 1) t) := by
  induction mid generalizing n previous c a u with
  | nil =>
    exact ⟨previous, by simp [ScansTo, ← ht]⟩
  | cons l mid ih =>
    have hfeed : (level 2 1).feed l = level 2 1 :=
      feed_level (hk l mem_cons_self) (hp l mem_cons_self)
    have hr := OpenClass.read_constructor_mid (t := t) hf ht
      (show ((level 2 1).feed l).paren = 1 by rw [hfeed]; rfl) (by rw [hfeed]; rfl) n previous
    rw [hfeed] at hr
    obtain ⟨q, hrest⟩ := ih (n + 1) (some l)
      { c.keeping [l] with constructorText := some (u ++ l ++ ['\n']) } a
      (u ++ l ++ ['\n']) hf rfl (forall_mem_cons.mp hcl).2
      (forall_mem_cons.mp hk).2 (forall_mem_cons.mp hp).2
    refine ⟨q, ?_⟩
    have := (scansTo_line (hcl l mem_cons_self) hr).append hrest
    simpa [SourceClass.keeping] using this

/-- The constructor is recorded with its lines. -/
theorem scansTo_constructor {first last : Text} {mid : List Text}
    (hc : IsConstructor name first mid last) (hn : c.head.name = some name)
    (hf : c.constructorFirst = none) (ht : c.constructorText = none) (n : Nat)
    (previous : Option Text) :
    ∃ q, ScansTo n (previous, .inBody c (level 1 0) t) (first :: mid ++ [last])
      (q, .inBody { c.keeping (first :: mid ++ [last]) with
        constructorFirst := some (n : Int)
        constructorLast := some (n + (mid.length + 1) : Int)
        constructorText := some (unlines (first :: mid ++ [last])) } (level 1 0) t) := by
  have hfeed : (level 1 0).feed first = level 2 1 := feed_level hc.first_curly hc.first_paren
  have hfeed' : (level 2 1).feed last = level 1 0 := feed_level hc.last_curly hc.last_paren
  have hbegins : (OpenClass.inBody c (level 1 0) t).beginsConstructor 1 first := by
    simp [OpenClass.beginsConstructor, OpenClass.inBody, hf, hn, hc.begins]
  -- the first line opens both brackets, those between leave them open, the last closes them
  have hfirst := scansTo_line (hc.no_class_line first (by simp)) (n := n)
    (OpenClass.read_constructor_first hbegins ht (by rw [hfeed]; rfl)
      (by rw [hfeed]; rfl) n previous)
  obtain ⟨q, hmid⟩ := scansTo_constructor_mid (t := t) mid (n + 1) (some first)
    { c.keeping [first] with
      constructorFirst := some (n : Int), constructorText := some (first ++ ['\n']) }
    n (first ++ ['\n']) rfl rfl
    (fun l hl => hc.no_class_line l (by simp [hl])) hc.mid_curly hc.mid_paren
  have hlast := scansTo_line (hc.no_class_line last (by simp)) (n := n + 1 + mid.length)
    (OpenClass.read_constructor_last (t := t) (a := n) (u := first ++ ['\n'] ++ endLines mid)
      (c := { c.keeping (first :: mid) with
        constructorFirst := some (n : Int)
        constructorText := some (first ++ ['\n'] ++ endLines mid) })
      rfl rfl (by rw [hfeed']; rfl) (by rw [hfeed']; rfl)
      (isFieldLine_of_brace hc.last_curly (by decide)) ((n + 1 + mid.length : Nat) : Int) q)
  have htext : first ++ ['\n'] ++ endLines mid ++ last = unlines (first :: mid ++ [last]) := by
    rw [← endLines_append_eq_unlines]
    simp
  rw [hfeed] at hfirst
  rw [hfeed', htext] at hlast
  have hall := hfirst.append (hmid.append (by simpa [SourceClass.keeping] using hlast))
  refine ⟨some last, ?_⟩
  rw [show (n + (mid.length + 1) : Int) = ((n + 1 + mid.length : Nat) : Int) by omega]
  simpa [SourceClass.keeping] using hall

/-! ## §6. The class. -/

/-- Whether the code of a line opens a body: one curly bracket stays open, and no round one, no
    string and no comment does.  A comment on it does not speak of the field below, either. -/
def opensBody (line : Text) : Bool :=
  let b := Brackets.feed {} line
  b.lexer == {} && b.curly == 1 && b.paren == 0 && b.opened && !marksEnum line

theorem opensBody_of_adds (hcurly : Adds '{' '}' line 1) (hparen : Adds '(' ')' line 0)
    (hcomment : '/' ∉ line) : opensBody line := by
  have hlexer := Brackets.feed_lexer (b := {}) rfl hcurly
  have hdepth : (Brackets.feed {} line).curly = 1 := Brackets.feed_curly rfl hcurly
  have hround : (Brackets.feed {} line).paren = 0 := Brackets.feed_paren rfl hparen
  have hopened : (Brackets.feed {} line).opened := by
    obtain ⟨code, hr, hk⟩ := hcurly
    have hpos : code.count '{' ≠ 0 := by omega
    simp [Brackets.feed, Brackets.countsOf, hr.feed_eq, BracketCounts.ofCode, hpos]
  simp [opensBody, hlexer, hdepth, hround, hopened, marksEnum_of_not_mem hcomment]

/-- The line that begins a class and opens its body. -/
structure IsHeader (line : Text) (head : Declaration) : Prop where
  class_line : isClassLine line = true
  read_eq : Declaration.read {} line = .ok head
  not_state : head.isState = false
  opens : opensBody line = true

namespace IsHeader

variable {line : Text} {head : Declaration}

theorem feed_eq (h : IsHeader line head) : Brackets.feed {} line = level 1 0 := by
  have hopens := h.opens
  simp only [opensBody, Bool.and_eq_true, beq_iff_eq] at hopens
  obtain ⟨⟨⟨⟨hlexer, hcurly⟩, hparen⟩, hopened⟩, -⟩ := hopens
  rw [Brackets.eq_level hlexer hopened, hcurly, hparen]

theorem inBody (h : IsHeader line head) : (Brackets.feed {} line).InBody := by
  rw [h.feed_eq]
  exact ⟨rfl, rfl, rfl⟩

theorem not_marksEnum (h : IsHeader line head) : marksEnum line = false := by
  have hopens := h.opens
  simp only [opensBody, Bool.and_eq_true, Bool.not_eq_true'] at hopens
  exact hopens.2

end IsHeader

/-- The class line. -/
theorem scanLines_header {head : Declaration} (h : IsHeader line head) (n : Nat)
    (previous : Option Text) (more : List Text) :
    scanLines n previous none (line :: more) = scanLines (n + 1) (some line) (some (.inBody
        { head, first := some (n : Int), headLast := some (n : Int),
          content := endLines [line] } (level 1 0) line.trim)) more := by
  have hstart : OpenClass.start n line
      = .ok
        { found := { head, first := some (n : Int) }, listed := true, headText := line.trim } := by
    rw [OpenClass.start, h.read_eq]
    show Except.ok _ = _
    rw [h.not_state]
    rfl
  -- the body is opened on the class line, so the head is not read again
  have hread : OpenClass.read
      { found := { head, first := some (n : Int) }, listed := true, headText := line.trim }
      n previous
      line true = .ok ([], some (.inBody
        { head, first := some (n : Int), headLast := some (n : Int),
          content := endLines [line] } (level 1 0) line.trim)) := by
    have hhead : OpenClass.readHead
        { found := { head, first := some (n : Int) }, listed := true, headText := line.trim,
          brackets := level 1 0 } n line true
        = .ok (.inBody { head, first := some (n : Int), headLast := some (n : Int) }
          (level 1 0) line.trim) := by
      simp [OpenClass.readHead, level, OpenClass.inBody]
    unfold OpenClass.read
    dsimp only
    rw [h.feed_eq, hhead]
    dsimp only [bind, Except.bind]
    rw [if_neg (by exact Bool.false_ne_true)]
    simp [OpenClass.enterConstructor, OpenClass.readConstructor, OpenClass.keepLine,
      OpenClass.readField, OpenClass.declaresField, OpenClass.inBody]
  rw [scanLines_class_line h.class_line, hstart]
  show (OpenClass.read _ n previous line true >>= _) = _
  rw [hread]
  show (scanLines (n + 1) (some line) _ more >>= fun later => .ok ([] ++ [] ++ later)) = _
  cases scanLines (n + 1) (some line) _ more <;> rfl

/-- The closing brace reports the class. -/
theorem scanLines_close (hn : c.head.name = some name) (hup : name.head?.any Char.isUpper)
    (n : Nat) (previous : Option Text) (p : Int) (more : List Text) :
    scanLines n previous (some (.inBody c (level 1 p) t)) (['}'] :: more)
      = (scanLines (n + 1) (some ['}']) none more).map
        ({ c with content := c.content ++ ['}'], last := some (n : Int) } :: ·) := by
  have hadd : Adds '{' '}' ['}'] (-1) := adds_code (by decide) '{' '}'
  obtain ⟨p', hfeed⟩ := Brackets.exists_feed_level (k := 1) (p := p) hadd
  have hno : (OpenClass.inBody c (level 0 p') t).beginsConstructor 1 ['}'] = false := by
    have hstart : startsWith ['}'] (name ++ ['(']) = false := by
      cases name with
      | nil => simp at hup
      | cons d r => exact startsWith_eq_false (c := '}') rfl rfl (by rintro rfl; simp at hup)
    have hafter : OpenClass.afterConst ['}'] = ['}'] := by decide
    simp [OpenClass.beginsConstructor, OpenClass.inBody, hn, hafter, hstart]
  have hsteps : (OpenClass.enterConstructor (.inBody c ((level 1 p).feed ['}']) t) n 1 ['}']
      false).readConstructor n ['}'] = .inBody c (level 0 p') t := by
    rw [hfeed]
    show (OpenClass.enterConstructor (.inBody c (level 0 p') t) n 1 ['}'] false).readConstructor
      n ['}'] = _
    rw [OpenClass.enterConstructor, hno]
    rfl
  have hr : (OpenClass.inBody c (level 1 p) t).read n previous ['}'] false
      = .ok ([{ c with content := c.content ++ ['}'], last := some (n : Int) }], none) := by
    rw [OpenClass.read_eq (by simp [OpenClass.inBody]) hsteps, if_pos (by rfl)]
    simp [OpenClass.report, OpenClass.close, OpenClass.inBody]
  rw [scanLines_inside (by decide), hr]
  rfl

/-- Lines outside of classes. -/
theorem scanLines_outside (ls : List Text) (n : Nat) (previous : Option Text) (more : List Text)
    (hls : ∀ l ∈ ls, isClassLine l = false) :
    ∃ p, scanLines n previous none (ls ++ more) = scanLines (n + ls.length) p none more := by
  induction ls generalizing n previous more with
  | nil => exact ⟨previous, rfl⟩
  | cons l ls ih =>
    obtain ⟨p, hp⟩ := ih (n + 1) (some l) more fun x hx => hls x (mem_cons_of_mem _ hx)
    refine ⟨p, ?_⟩
    rw [cons_append, scanLines_skip (hls l mem_cons_self), hp, length_cons,
      show n + (ls.length + 1) = n + 1 + ls.length by omega]

/-! ## §7. A class as a whole. -/

/-- The blank line between members. -/
def Item.blank : Item := { first := [] }

/-- How a class is laid out on its lines: the class line, the fields with the lines that declare
    them, a constructor if there is one, and more items. -/
structure ClassLayout where
  header : Text
  head : Declaration
  fields : List (Text × Field)
  constructor : Option Item := none
  items : List Item := []

namespace ClassLayout

/-- The constructor with a blank line above it. -/
def constructorItems (p : ClassLayout) : List Item :=
  match p.constructor with
  | some i => [Item.blank, i]
  | none => []

/-- The lines of the class. -/
def lines (p : ClassLayout) : List Text :=
  p.header :: (p.fields.map Prod.fst
    ++ (itemLines p.constructorItems ++ (itemLines p.items ++ [['}']])))

/-- The class as it is scanned if it begins on the line `n`. -/
def scanned (p : ClassLayout) (n : Int) : SourceClass where
  head := p.head
  fields := fieldsAt (n + 1) (p.fields.map Prod.snd)
  content := unlines p.lines
  first := some n
  headLast := some n
  last := some (n + p.lines.length - 1)
  constructorFirst := p.constructor.map fun _ => n + p.fields.length + 2
  constructorLast := p.constructor.map fun i => n + p.fields.length + 2 + i.rest.length
  constructorText := p.constructor.map fun i => unlines i.lines

/-- The parts are what they should be. -/
structure Fits (p : ClassLayout) (name : Text) : Prop where
  header : IsHeader p.header p.head
  name_eq : p.head.name = some name
  upper : name.head?.any Char.isUpper = true
  fields : ∀ x ∈ p.fields, Declares name x.1 x.2
  constructor : ∀ i ∈ p.constructor, ∃ mid last, i.rest = mid ++ [last]
    ∧ IsConstructor name i.first mid last
  items : ∀ i ∈ p.items, i.Sits ∧ i.Silent name

variable {name t : Text} {c : SourceClass} {p : ClassLayout}

/-- The constructor with the blank line above it. -/
theorem scansTo_blank_constructor {i : Item} {mid : List Text} {last : Text}
    (hi : i.rest = mid ++ [last]) (hc : IsConstructor name i.first mid last)
    (hup : name.head?.any Char.isUpper) (hn : c.head.name = some name)
    (hf : c.constructorFirst = none) (ht : c.constructorText = none) (n : Nat)
    (previous : Option Text) :
    ∃ q, ScansTo n (previous, .inBody c (level 1 0) t) ([] :: i.lines)
      (q, .inBody { c.keeping ([] :: i.lines) with
        constructorFirst := some (n + 1 : Int)
        constructorLast := some (n + 1 + i.rest.length : Int)
        constructorText := some (unlines i.lines) } (level 1 0) t) := by
  have hfeed : (level 1 0).feed [] = level 1 0 := by decide
  have hno : (OpenClass.inBody c (level 1 0) t).beginsConstructor 1 [] = false := by
    have hstart : startsWith [] (name ++ ['(']) = false := by
      cases name with
      | nil => simp at hup
      | cons d r => rfl
    simp [OpenClass.beginsConstructor, OpenClass.inBody, hn, OpenClass.afterConst, hstart]
  have hblank := scansTo_quiet (show isClassLine [] = false by decide) hno
    (by rw [hfeed]; exact closed_level (by decide) 0) (.inr ofLine?_nil) n previous
  rw [hfeed] at hblank
  obtain ⟨q, hrest⟩ :=
    scansTo_constructor (t := t) hc (c := c.keeping [[]]) hn hf ht (n + 1) (some [])
  have hlines : i.lines = i.first :: mid ++ [last] := by simp [Item.lines, hi]
  refine ⟨q, ?_⟩
  rw [hlines, hi, length_append, length_singleton]
  simpa using hblank.append hrest

/-- The class with its constructor recorded, if the lines of the constructor begin after the line
    `n`. -/
def withConstructor (p : ClassLayout) (n : Int) (c : SourceClass) : SourceClass :=
  { c with
    constructorFirst := p.constructor.map fun _ => n + 1
    constructorLast := p.constructor.map fun i => n + 1 + i.rest.length
    constructorText := p.constructor.map fun i => unlines i.lines }

/-- The constructor, if there is one. -/
theorem scansTo_constructorItems (hp : p.Fits name) (hn : c.head.name = some name)
    (hf : c.constructorFirst = none) (hl : c.constructorLast = none) (ht : c.constructorText = none)
    (n : Nat) (previous : Option Text) :
    ∃ q, ScansTo n (previous, .inBody c (level 1 0) t) (itemLines p.constructorItems)
      (q, .inBody (p.withConstructor n (c.keeping (itemLines p.constructorItems))) (level 1 0)
        t) := by
  cases hcon : p.constructor with
  | none =>
    refine ⟨previous, ?_⟩
    have hsame : { c with
        constructorFirst := none, constructorLast := none, constructorText := none } = c := by
      cases c
      simp_all
    simp [ScansTo, constructorItems, withConstructor, hcon, hsame]
  | some i =>
    obtain ⟨mid, last, hi, hc⟩ := hp.constructor i hcon
    obtain ⟨q, hleads⟩ := scansTo_blank_constructor (t := t) hi hc hp.upper hn hf ht n previous
    refine ⟨q, ?_⟩
    simpa [constructorItems, withConstructor, hcon, Item.blank, Item.lines] using hleads

/-- The class after its class line and its fields. -/
def upToFields (p : ClassLayout) (n : Int) : SourceClass where
  head := p.head
  fields := fieldsAt (n + 1) (p.fields.map Prod.snd)
  content := endLines (p.header :: p.fields.map Prod.fst)
  first := some n
  headLast := some n

theorem scanLines_upToFields (hp : p.Fits name) (n : Nat) (previous : Option Text)
    (more : List Text) :
    ∃ q, scanLines n previous none (p.header :: (p.fields.map Prod.fst ++ more))
      = scanLines (n + 1 + p.fields.length) q
        (some (.inBody (p.upToFields n) (level 1 0) p.header.trim)) more := by
  have hcomment : (some p.header).any marksEnum = false := by
    simpa using hp.header.not_marksEnum
  obtain ⟨q, h⟩ := scansTo_fields (t := p.header.trim) p.fields (n + 1) (some p.header)
    { head := p.head, first := some (n : Int), headLast := some (n : Int),
      content := endLines [p.header] } hp.fields hp.name_eq rfl hcomment
  refine ⟨q, (scanLines_header hp.header n previous _).trans ((h more).trans ?_)⟩
  simp [upToFields, SourceClass.keeping]

/-- **A class put together from its parts is scanned as it should be.** -/
theorem scanLines_lines (hp : p.Fits name) (n : Nat) (previous : Option Text) (more : List Text) :
    ∃ q, scanLines n previous none (p.lines ++ more)
      = (scanLines (n + p.lines.length) q none more).map (p.scanned n :: ·) := by
  have hlines : p.lines ++ more = p.header :: (p.fields.map Prod.fst
      ++ (itemLines p.constructorItems ++ (itemLines p.items ++ (['}'] :: more)))) := by
    rw [lines]
    simp only [cons_append, append_assoc, nil_append]
  -- the class line and the fields, the constructor, the other items and the closing brace
  obtain ⟨q₁, h₁⟩ := scanLines_upToFields hp n previous
    (itemLines p.constructorItems ++ (itemLines p.items ++ (['}'] :: more)))
  obtain ⟨q₂, h₂⟩ :=
    scansTo_constructorItems (t := p.header.trim) hp (c := p.upToFields n) hp.name_eq
    rfl rfl rfl (n + 1 + p.fields.length) q₁
  obtain ⟨q₃, p₃, h₃⟩ := scansTo_items (t := p.header.trim) p.items
    (n + 1 + p.fields.length + (itemLines p.constructorItems).length) q₂
    (p.withConstructor (n + 1 + p.fields.length : Nat)
      ((p.upToFields n).keeping (itemLines p.constructorItems))) 0 hp.name_eq hp.items
  have h₄ := scanLines_close (t := p.header.trim)
    (c := (p.withConstructor (n + 1 + p.fields.length : Nat)
      ((p.upToFields n).keeping (itemLines p.constructorItems))).keeping (itemLines p.items))
    hp.name_eq hp.upper
    (n + 1 + p.fields.length + (itemLines p.constructorItems).length + (itemLines p.items).length)
    q₃ p₃ more
  have hlen : n + p.lines.length = n + 1 + p.fields.length
      + (itemLines p.constructorItems).length + (itemLines p.items).length + 1 := by
    simp [lines]
    omega
  have hcontent : endLines (p.header :: p.fields.map Prod.fst)
      ++ endLines (itemLines p.constructorItems) ++ endLines (itemLines p.items) ++ ['}']
      = unlines p.lines := by
    rw [← endLines_append, ← endLines_append, endLines_append_eq_unlines]
    simp [lines]
  have hlast : ((n + 1 + p.fields.length + (itemLines p.constructorItems).length
      + (itemLines p.items).length : Nat) : Int) = n + p.lines.length - 1 := by omega
  have hfirst : ((n + 1 + p.fields.length : Nat) : Int) + 1 = n + p.fields.length + 2 := by omega
  refine ⟨some ['}'], ?_⟩
  rw [hlines, h₁, h₂, h₃, h₄, hlen]
  simp only [scanned, withConstructor, SourceClass.keeping, upToFields, hcontent, hlast, hfirst]

end ClassLayout

/-! ## §8. Classes of plain fields. -/

/-- A class in its parts: the class line, the fields, a constructor if there is one, and more
    items. -/
structure ClassParts where
  header : Text
  head : Declaration
  fields : List PlainField
  constructor : Option Item := none
  items : List Item := []

namespace ClassParts

/-- The constructor with a blank line above it. -/
def constructorItems (p : ClassParts) : List Item :=
  match p.constructor with
  | some i => [Item.blank, i]
  | none => []

/-- The items between the braces. -/
def body (p : ClassParts) : List Item :=
  p.fields.map (fun f => { first := f.line }) ++ p.constructorItems ++ p.items

/-- The lines of the class. -/
def lines (p : ClassParts) : List Text := p.header :: (itemLines p.body ++ [['}']])

/-- The class as it is scanned if it begins on the line `n`. -/
def scanned (p : ClassParts) (n : Int) : SourceClass where
  head := p.head
  fields := fieldsFrom (n + 1) p.fields
  content := unlines p.lines
  first := some n
  headLast := some n
  last := some (n + p.lines.length - 1)
  constructorFirst := p.constructor.map fun _ => n + p.fields.length + 2
  constructorLast := p.constructor.map fun i => n + p.fields.length + 2 + i.rest.length
  constructorText := p.constructor.map fun i => unlines i.lines

/-- The parts are what they should be. -/
structure Fits (p : ClassParts) (name : Text) : Prop where
  header : IsHeader p.header p.head
  name_eq : p.head.name = some name
  upper : name.head?.any Char.isUpper = true
  constructor : ∀ i ∈ p.constructor, ∃ mid last, i.rest = mid ++ [last]
    ∧ IsConstructor name i.first mid last
  items : ∀ i ∈ p.items, i.Sits ∧ i.Silent name

theorem itemLines_fields (fs : List PlainField) :
    itemLines (fs.map fun f => { first := f.line }) = fs.map PlainField.line := by
  induction fs with
  | nil => rfl
  | cons f fs ih => simp [ih, Item.lines]

theorem lines_eq (p : ClassParts) : p.lines = p.header :: (p.fields.map PlainField.line
    ++ (itemLines p.constructorItems ++ (itemLines p.items ++ [['}']]))) := by
  simp only [lines, body, itemLines_append, itemLines_fields, append_assoc]

/-- The layout of the parts. -/
def layout (p : ClassParts) : ClassLayout :=
  { p with fields := p.fields.map fun f => (f.line, f.field 0) }

theorem lines_layout (p : ClassParts) : p.layout.lines = p.lines := by
  have hfields : p.layout.fields.map Prod.fst = p.fields.map PlainField.line := map_map
  rw [lines_eq, ClassLayout.lines, hfields]
  rfl

/-- The layout is scanned as the parts are. -/
theorem scanned_layout (p : ClassParts) (n : Int) : p.layout.scanned n = p.scanned n := by
  have hfields : ∀ (fs : List PlainField) (n : Int),
      fieldsAt n (fs.map fun f => f.field 0) = fieldsFrom n fs := by
    intro fs
    induction fs with
    | nil => intro n; rfl
    | cons f fs ih =>
      intro n
      rw [map_cons, fieldsAt, fieldsFrom, ih]
      rfl
  have hsnd : p.layout.fields.map Prod.snd = p.fields.map fun f => f.field 0 := map_map
  have hlen : p.layout.fields.length = p.fields.length := length_map _
  simp only [ClassLayout.scanned, scanned, lines_layout, hsnd, hfields, hlen]
  rfl

variable {p : ClassParts}

/-- The layout of fitting parts fits. -/
theorem Fits.layout (h : p.Fits name) : p.layout.Fits name where
  header := h.header
  name_eq := h.name_eq
  upper := h.upper
  fields := by
    intro x hx
    obtain ⟨f, -, rfl⟩ := mem_map.mp hx
    have hd := (f.printable_field 0).declares h.upper fun hm => absurd hm (cons_ne_nil _ _)
    rw [← f.line_eq_bodyLine] at hd
    exact { hd with
      ofLine?_eq := fun n previous hp => by
        rw [hd.ofLine?_eq n previous hp, Field.bare, f.name_field]
        rfl }
  constructor := h.constructor
  items := h.items

/-- **A class put together from its parts is scanned as it should be.** -/
theorem scanLines_lines (hp : p.Fits name) (n : Nat) (previous : Option Text) (more : List Text) :
    ∃ q, scanLines n previous none (p.lines ++ more)
      = (scanLines (n + p.lines.length) q none more).map (p.scanned n :: ·) := by
  have h := ClassLayout.scanLines_lines hp.layout n previous more
  rwa [lines_layout, scanned_layout] at h

end ClassParts

end DartData
