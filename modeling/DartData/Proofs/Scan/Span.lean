import DartData.Proofs.Lexer.Code
import DartData.Proofs.Outcome
import DartData.Proofs.Text.Lines
import DartData.Scan

/-!
# Where classes stand

Every class that the scanner reports stands in the text where its line numbers say: its content is
its lines, its fields lie between the head and the closing brace, and the text of its constructor
is the lines of the constructor.  Classes come in the order of the text and do not overlap.

The invariant `OpenClass.Tracks` says what is known of a class that is not yet closed, after the
lines `pre`.  Each step of `OpenClass.read` has a lemma that says all it can do; `Tracks.read` puts
them together for one line, and `scanLines_laid` is the induction over the lines.
-/

namespace DartData

open List Text

/-! ## §1. What is claimed of a class. -/

/-- A complete class stands in the lines `ls` from `first` to `last`, and its declaration reaches
    to `headLast`. -/
structure SourceClass.Stands (c : SourceClass) (ls : List Text) (first headLast last : Int) :
    Prop where
  one_le_first : 1 ≤ first
  first_le : first ≤ headLast
  headLast_le : headLast ≤ last
  last_le : last ≤ ls.length
  content_eq : c.content = unlines (span ls first last)
  no_class_line : ∀ l ∈ span ls (first + 1) last, isClassLine l = false
  fields_sorted : (c.fields.map Field.line).Pairwise (· < ·)
  fields_inside : ∀ f ∈ c.fields, headLast < f.line ∧ f.line < last
  /-- The constructor, if it was found in full. -/
  constructor_inside : ∀ a b, c.constructorFirst = some a → c.constructorLast = some b →
    headLast < a ∧ a ≤ b ∧ b ≤ last
      ∧ c.constructorText = some (unlines (span ls a b))
  /-- A constructor whose end was not found reaches to the end of the class. -/
  constructor_open : ∀ a, c.constructorFirst = some a → c.constructorLast = none →
    headLast < a ∧ a ≤ last ∧ c.constructorText = some (endLines (span ls a last))
  constructor_none : c.constructorFirst = none →
    c.constructorLast = none ∧ c.constructorText = none

/-- The class `c` comes before the class `d`, and ends before it if it ends at all. -/
def SourceClass.Before (c d : SourceClass) : Prop :=
  ∃ s t : Int, c.first = some s ∧ d.first = some t ∧ s < t ∧ ∀ e, c.last = some e → e < t

/-- No edit has been collected for the class. -/
def SourceClass.Unedited (c : SourceClass) : Prop :=
  c.constructorChanged = false ∧ c.headChanged = false ∧ c.insertion = [] ∧ c.replaced = []

/-! ## §2. The invariant of an open class. -/

/-- What is known of the phase and the constructor of a class after the lines `pre`, if the head
    ended on the line `h`: the constructor has not been seen, is being read, or is complete. -/
def ConstructorTracks (pre : List Text) (h : Nat) (phase : Phase) (first last : Option Int)
    (text : Option Text) : Prop :=
  (phase = .body ∧ first = none ∧ last = none ∧ text = none)
    ∨ (∃ a : Nat, h < a ∧ a ≤ pre.length ∧ phase = .constructor ∧ first = some (a : Int)
      ∧ last = none ∧ text = some (endLines (pre.drop (a - 1))))
    ∨ (∃ a b : Nat, h < a ∧ a ≤ b ∧ b ≤ pre.length ∧ phase = .body ∧ first = some (a : Int)
      ∧ last = some (b : Int) ∧ text = some (unlines (span pre a b)))

namespace OpenClass

/-- What is known of an open class that began on the line `s` and has kept the lines `pre` from
    there on.  A class that has just been started has kept no line yet. -/
structure Begun (o : OpenClass) (pre : List Text) (s : Nat) : Prop where
  one_le : 1 ≤ s
  le_length : s ≤ pre.length + 1
  first_eq : o.found.first = some (s : Int)
  last_eq : o.found.last = none
  unedited : o.found.Unedited
  content_eq : o.found.content = endLines (pre.drop (s - 1))
  class_line : ∀ l, pre[s - 1]? = some l → isClassLine l = true
  no_class_line : ∀ l ∈ pre.drop s, isClassLine l = false
  fields_sorted : (o.found.fields.map Field.line).Pairwise (· < ·)
  in_head : o.phase = .head → o.brackets.opened = false ∧ o.brackets.curly ≤ 0
    ∧ o.found.fields = [] ∧ o.found.constructorFirst = none
    ∧ o.found.constructorLast = none ∧ o.found.constructorText = none
  opened : o.phase ≠ .head → o.brackets.opened = true

/-- What is known of an open class after the lines `pre`. -/
structure Tracks (o : OpenClass) (pre : List Text) (s : Nat) : Prop extends o.Begun pre s where
  in_body : o.phase ≠ .head → ∃ h : Nat, o.found.headLast = some (h : Int) ∧ s ≤ h
    ∧ h ≤ pre.length ∧ (∀ f ∈ o.found.fields, (h : Int) < f.line ∧ f.line ≤ pre.length)
    ∧ ConstructorTracks pre h o.phase o.found.constructorFirst o.found.constructorLast
      o.found.constructorText

/-- What is known of it when the head and the constructor have been looked for on the next line,
    and the line is still to be kept. -/
structure Halfway (o : OpenClass) (pre : List Text) (line : Text) (s : Nat) : Prop
    extends o.Begun pre s where
  in_body : o.phase ≠ .head → ∃ h : Nat, o.found.headLast = some (h : Int) ∧ s ≤ h
    ∧ h ≤ pre.length + 1 ∧ (h = pre.length + 1 → '{' ∈ line)
    ∧ (∀ f ∈ o.found.fields, (h : Int) < f.line ∧ f.line ≤ pre.length)
    ∧ ConstructorTracks (pre ++ [line]) h o.phase o.found.constructorFirst o.found.constructorLast
      o.found.constructorText

end OpenClass

/-! ## §3. What each step can do. -/

theorem pairwise_of_length_le_one {α : Type} {R : α → α → Prop} {l : List α} (h : l.length ≤ 1) :
    l.Pairwise R := by
  cases l with
  | nil => exact List.Pairwise.nil
  | cons a l =>
    have hl : l = [] := eq_nil_of_length_eq_zero (by simpa using h)
    rw [hl]
    exact pairwise_singleton R a

namespace OpenClass

/-- The text of the head with one more line. -/
def headWith (o : OpenClass) (line : Text) (classLine : Bool) : Text :=
  if classLine then o.headText else o.headText ++ " " ++ line.trim

variable {o : OpenClass} {n : Int} {line : Text} {classLine : Bool} {previous : Option Text}
  {done : List SourceClass} {next : Option OpenClass} {pre : List Text} {s : Nat}

/-- In the head nothing changes but the text collected for it, until a brace is opened.  The head
    was read already if that is on the class line; else it is read from the text. -/
theorem readHead_cases {o' : OpenClass} (h : o.readHead n line classLine = .ok o') :
    (o.phase ≠ .head ∧ o' = o) ∨ (o.phase = .head ∧ o.brackets.opened = false
        ∧ o' = { o with headText := o.headWith line classLine })
      ∨ (o.phase = .head ∧ o.brackets.opened ∧ ∃ l d, o' = { o with
            headText := o.headWith line classLine, listed := l, phase := .body
            found := { o.found with head := d, headLast := some n } }
        ∧ if classLine then d = o.found.head ∧ l = o.listed
          else Declaration.read { name := o.found.head.name } (o.headWith line classLine) = .ok d
            ∧ l = (o.listed && !d.isState)) := by
  unfold readHead at h
  by_cases hp : o.phase = .head
  · rw [if_pos hp] at h
    cases hb : o.brackets.opened with
    | false =>
      refine .inr (.inl ⟨hp, rfl, ?_⟩)
      cases classLine with
      | true =>
        simp only [if_true, hb, Bool.false_eq_true, if_false, Except.ok.injEq] at h
        exact h.symm
      | false =>
        simp only [Bool.false_eq_true, if_false, hb, Except.ok.injEq] at h
        exact h.symm
    | true =>
      refine .inr (.inr ⟨hp, rfl, ?_⟩)
      cases classLine with
      | true =>
        simp only [if_true, hb, Except.ok.injEq] at h
        exact ⟨o.listed, o.found.head, h.symm, rfl, rfl⟩
      | false =>
        simp only [Bool.false_eq_true, if_false, hb, if_true, rereadHead, bind_eq_ok,
          pure_eq_ok, Except.ok.injEq] at h
        obtain ⟨d, hd, rfl⟩ := h
        exact ⟨_, d, rfl, hd, rfl⟩
  · rw [if_neg hp] at h
    injection h with h
    exact .inl ⟨hp, h.symm⟩

/-- A line is read by its steps in order, and either closes the class or is kept. -/
theorem read_cases (h : o.read n previous line classLine = .ok (done, next)) : ∃ o₁ o₂ : OpenClass,
      readHead { o with brackets := o.brackets.feed line } n line classLine = .ok o₁
        ∧ o₂ = (o₁.enterConstructor n o.brackets.curly line classLine).readConstructor n line
        ∧ ((o₂.brackets.closed ∧ done = o₂.report (o₂.close n line) ∧ next = none)
          ∨ (o₂.brackets.closed = false ∧ done = []
            ∧ next = some ((o₂.keepLine line).readField n previous line classLine))) := by
  simp only [read, bind_eq_ok] at h
  obtain ⟨o₁, h₁, h⟩ := h
  refine ⟨o₁, _, h₁, rfl, ?_⟩
  split at h
  next hc =>
    simp only [pure_eq_ok, Except.ok.injEq, Prod.mk.injEq] at h
    exact .inl ⟨hc, h.1.symm, h.2.symm⟩
  next hc =>
    simp only [pure_eq_ok, Except.ok.injEq, Prod.mk.injEq] at h
    exact .inr ⟨by simpa using hc, h.1.symm, h.2.symm⟩

theorem enterConstructor_of_depth {depth : Int} (h : depth ≠ 1) (n : Int) (line : Text)
    (classLine : Bool) : o.enterConstructor n depth line classLine = o := by
  simp [enterConstructor, beginsConstructor, h]

theorem enterConstructor_of_seen {a : Int} (h : o.found.constructorFirst = some a) (n depth : Int)
    (line : Text) (classLine : Bool) :
    o.enterConstructor n depth line classLine = o := by
  simp [enterConstructor, beginsConstructor, h]

theorem readConstructor_of_phase (h : o.phase ≠ .constructor) (n : Int) (line : Text) :
    o.readConstructor n line = o := by
  simp [readConstructor, h]

/-- What the constructor steps leave alone: everything but the phase and the constructor. -/
theorem constructor_steps_frame (o : OpenClass) (n depth : Int) (line : Text) (classLine : Bool) :
    ∃ p a b t, (o.enterConstructor n depth line classLine).readConstructor n line = { o with
        phase := p
        found := { o.found with
          constructorFirst := a, constructorLast := b, constructorText := t } }
      ∧ (o.phase ≠ .head → p ≠ .head) := by
  by_cases he : (!classLine && o.beginsConstructor depth line)
  · rw [enterConstructor, if_pos he, readConstructor, if_pos rfl]
    split
    · exact ⟨_, _, _, _, rfl, by simp⟩
    · exact ⟨_, _, _, _, rfl, by simp⟩
  · rw [enterConstructor, if_neg he]
    unfold readConstructor
    split
    · split
      · exact ⟨_, _, _, _, rfl, by simp⟩
      · exact ⟨_, _, _, _, rfl, fun h => h⟩
    · exact ⟨_, _, _, _, rfl, fun h => h⟩

theorem span_concat (pre : List Text) (line : Text) (k : Nat) :
    span (pre ++ [line]) (k : Nat) (pre.length + 1 : Nat) = (pre ++ [line]).drop (k - 1) := by
  rw [← length_concat, concat_eq_append]
  exact span_to_length _ k

/-- In the body, the constructor steps keep track of the constructor. -/
theorem constructor_steps_track {o₂ : OpenClass} {h : Nat} (hh : h ≤ pre.length)
    (ht : ConstructorTracks pre h o.phase o.found.constructorFirst o.found.constructorLast
      o.found.constructorText) (depth : Int) (line : Text) (classLine : Bool)
    (ho : o₂ = (o.enterConstructor (pre.length + 1 : Nat) depth line classLine).readConstructor
      (pre.length + 1 : Nat) line) :
    ConstructorTracks (pre ++ [line]) h o₂.phase o₂.found.constructorFirst o₂.found.constructorLast
      o₂.found.constructorText := by
  have hlen : (pre ++ [line]).length = pre.length + 1 := by simp
  have hone : (pre ++ [line]).drop (pre.length + 1 - 1) = [line] := by simp
  rcases ht with ⟨hp, hf, hl, htx⟩ | ⟨a, ha, hle, hp, hf, hl, htx⟩
      | ⟨a, b, ha, hab, hle, hp, hf, hl, htx⟩
  · by_cases he : (!classLine && o.beginsConstructor depth line)
    · -- the constructor begins here, and may be over on the same line
      rw [enterConstructor, if_pos he, readConstructor, if_pos rfl] at ho
      simp only [htx, Option.getD_none, nil_append] at ho
      split at ho
      · subst ho
        refine .inr (.inr ⟨pre.length + 1, pre.length + 1, by omega, Nat.le_refl _, by omega,
          rfl, rfl, rfl, ?_⟩)
        rw [span_concat, hone]
        simp [unlines]
      · subst ho
        refine .inr (.inl ⟨pre.length + 1, by omega, by omega, rfl, rfl, hl, ?_⟩)
        rw [hone]
        simp
    · rw [enterConstructor, if_neg he, readConstructor_of_phase (by simp [hp])] at ho
      subst ho
      exact .inl ⟨hp, hf, hl, htx⟩
  · have hdrop : (pre ++ [line]).drop (a - 1) = pre.drop (a - 1) ++ [line] :=
      drop_concat (by omega) line
    rw [enterConstructor_of_seen hf, readConstructor, if_pos hp] at ho
    simp only [htx, Option.getD_some] at ho
    split at ho
    · subst ho
      refine .inr (.inr ⟨a, pre.length + 1, ha, by omega, by omega, rfl, hf, rfl, ?_⟩)
      rw [span_concat, hdrop, endLines_append_eq_unlines]
    · subst ho
      refine .inr (.inl ⟨a, ha, by omega, hp, hf, hl, ?_⟩)
      rw [hdrop]
      simp
  · rw [enterConstructor_of_seen hf, readConstructor_of_phase (by simp [hp])] at ho
    subst ho
    refine .inr (.inr ⟨a, b, ha, hab, by omega, hp, hf, hl, ?_⟩)
    rw [span_append_left (by omega), htx]

/-! ## §4. One line. -/

/-- After the head was looked for. -/
theorem Tracks.halfway {o₁ : OpenClass} (ht : o.Tracks pre s)
    (h₁ : readHead { o with brackets := o.brackets.feed line } (pre.length + 1 : Nat) line classLine
      = .ok o₁) :
    ((o₁.enterConstructor (pre.length + 1 : Nat) o.brackets.curly line classLine).readConstructor
      (pre.length + 1 : Nat) line).Halfway pre line s := by
  rcases readHead_cases h₁ with ⟨hp, rfl⟩ | ⟨hp, hb, rfl⟩ | ⟨hp, hb, l, d, rfl, -⟩
  · -- the body was open before the line
    obtain ⟨h, hh, hsh, hhl, hfi, hct⟩ := ht.in_body hp
    have hct' := constructor_steps_track (o := { o with brackets := o.brackets.feed line })
      hhl hct o.brackets.curly line classLine rfl
    obtain ⟨p, a, b, t, he, hphase⟩ := constructor_steps_frame
      { o with brackets := o.brackets.feed line } (pre.length + 1 : Nat) o.brackets.curly line
      classLine
    rw [he] at hct' ⊢
    exact { ht.toBegun with
      in_head := fun hp' => absurd hp' (hphase hp)
      opened := fun _ => Brackets.feed_opened _ _ (ht.opened hp)
      in_body := fun _ => ⟨h, hh, hsh, by omega, fun e => by omega, hfi, hct'⟩ }
  · -- the head goes on
    have hp : o.phase = .head := hp
    obtain ⟨-, hcurly, hfields, hcf, hcl, hct⟩ := ht.in_head hp
    rw [enterConstructor_of_depth (by omega), readConstructor_of_phase (by simp [hp])]
    exact { ht.toBegun with
      in_head := fun _ => ⟨hb, Int.le_trans (Brackets.feed_curly_le hb) hcurly, hfields, hcf, hcl,
        hct⟩
      opened := fun hp' => absurd hp hp'
      in_body := fun hp' => absurd hp hp' }
  · -- the line opens the body, so it has a brace
    obtain ⟨hopen, hcurly, hfields, hcf, hcl, hct⟩ := ht.in_head hp
    rw [enterConstructor_of_depth (by omega), readConstructor_of_phase (by simp)]
    exact { ht.toBegun with
      in_head := fun hp' => by simp at hp'
      opened := fun _ => hb
      in_body := fun _ => ⟨pre.length + 1, rfl, ht.le_length, Nat.le_refl _,
        fun _ => Brackets.brace_mem_of_feed_opened hopen hb,
        fun f hf => by simp [hfields] at hf,
        .inl ⟨rfl, hcf, hcl, hct⟩⟩ }

/-- With the next line, the line on which the class began is still a class line. -/
theorem Begun.class_line_concat (hb : o.Begun pre s)
    (hcl : isClassLine line = decide (s = pre.length + 1)) :
    ∀ l, (pre ++ [line])[s - 1]? = some l → isClassLine l := by
  intro l hl
  have h₁ := hb.one_le
  have h₂ := hb.le_length
  by_cases hs : s = pre.length + 1
  · subst hs
    rw [Nat.add_sub_cancel, getElem?_concat_length, Option.some.injEq] at hl
    rw [← hl, hcl, decide_eq_true rfl]
  · rw [getElem?_append_left (by omega)] at hl
    exact hb.class_line l hl

theorem Begun.no_class_line_concat (hb : o.Begun pre s)
    (hcl : isClassLine line = decide (s = pre.length + 1)) :
    ∀ l ∈ (pre ++ [line]).drop s, isClassLine l = false := by
  intro l hl
  by_cases hs : s ≤ pre.length
  · rw [drop_concat hs, mem_append, mem_singleton] at hl
    rcases hl with hl | rfl
    · exact hb.no_class_line l hl
    · rw [hcl, decide_eq_false (by omega)]
  · rw [drop_eq_nil_of_le (by simp; omega)] at hl
    cases hl

/-- A line that closes the class completes it. -/
theorem Halfway.stands_close (hw : o.Halfway pre line s)
    (hcl : isClassLine line = decide (s = pre.length + 1)) (hclosed : o.brackets.closed) :
    ∃ h : Nat, (o.close (pre.length + 1 : Nat) line).headLast = some (h : Int)
      ∧ (o.close (pre.length + 1 : Nat) line).Stands (pre ++ [line]) s h
        (pre.length + 1 : Nat) := by
  have hopen : o.brackets.opened := by
    simp only [Brackets.closed, Bool.and_eq_true] at hclosed
    exact hclosed.1
  have hp : o.phase ≠ .head := fun e => by
    have := (hw.in_head e).1
    simp [hopen] at this
  obtain ⟨h, hh, hsh, hhl, -, hfi, hct⟩ := hw.in_body hp
  have hlen : (pre ++ [line]).length = pre.length + 1 := by simp
  have hs1 : s - 1 ≤ pre.length := by
    have := hw.le_length
    omega
  refine ⟨h, hh, ?_⟩
  exact {
    one_le_first := by have := hw.one_le; omega
    first_le := by omega
    headLast_le := by omega
    last_le := by omega
    content_eq := by
      show o.found.content ++ line = _
      rw [hw.content_eq, span_concat, drop_concat hs1, endLines_append_eq_unlines]
    no_class_line := by
      intro l hl
      rw [show ((s : Int) + 1) = ((s + 1 : Nat) : Int) from rfl, span_concat] at hl
      exact hw.no_class_line_concat hcl l hl
    fields_sorted := hw.fields_sorted
    fields_inside := fun f hf => by
      have := hfi f hf
      omega
    -- a constructor is not begun, half read or complete; each field below is about one of these
    constructor_inside := by
      intro a b ha hb
      have ha : o.found.constructorFirst = some a := ha
      have hb : o.found.constructorLast = some b := hb
      rcases hct with ⟨-, hf, -⟩ | ⟨a', -, -, -, -, hl, -⟩
          | ⟨a', b', ha', hab, hle, -, hf, hl, htx⟩
      · simp [hf] at ha
      · simp [hl] at hb
      · rw [hf, Option.some.injEq] at ha
        rw [hl, Option.some.injEq] at hb
        subst ha hb
        exact ⟨by omega, by omega, by omega, htx⟩
    constructor_open := by
      intro a ha hb
      have ha : o.found.constructorFirst = some a := ha
      have hb : o.found.constructorLast = none := hb
      rcases hct with ⟨-, hf, -⟩ | ⟨a', ha', hle, -, hf, hl, htx⟩
          | ⟨a', b', -, -, -, -, -, hl, -⟩
      · simp [hf] at ha
      · rw [hf, Option.some.injEq] at ha
        subst ha
        refine ⟨by omega, by omega, ?_⟩
        rw [span_concat]
        exact htx
      · simp [hl] at hb
    constructor_none := by
      intro ha
      have ha : o.found.constructorFirst = none := ha
      rcases hct with ⟨-, -, hl, htx⟩ | ⟨a', -, -, -, hf, -⟩ | ⟨a', b', -, -, -, -, hf, -⟩
      · exact ⟨hl, htx⟩
      · simp [hf] at ha
      · simp [hf] at ha }

theorem line_of_mem_ofLine? {f : Field} (h : f ∈ (Field.ofLine? line n previous).toList) :
    f.line = n := by
  simp only [Field.ofLine?, Option.mem_toList] at h
  split at h
  · injection h with h
    rw [← h]
  · simp at h

/-- What a line adds to the fields: none, or one on that line, which then stands in the body and
    has no curly bracket. -/
theorem readField_cases (o : OpenClass) (n : Int) (previous : Option Text) (line : Text)
    (classLine : Bool) :
    ∃ fs, o.readField n previous line classLine
        = { o with found := { o.found with fields := o.found.fields ++ fs } }
      ∧ fs.length ≤ 1 ∧ (∀ f ∈ fs, f.line = n) ∧ (fs ≠ [] → o.phase = .body ∧ '{' ∉ line) := by
  unfold readField
  split
  next hd =>
    refine ⟨_, rfl, by cases Field.ofLine? line n previous <;> simp,
      fun f => line_of_mem_ofLine?, fun _ => ⟨?_, fun hb => ?_⟩⟩
    · simp only [declaresField, Bool.and_eq_true, beq_iff_eq] at hd
      exact hd.1.1.1.1
    · simp [declaresField, isFieldLine_of_brace_mem hb] at hd
  next => exact ⟨[], by simp, by simp, by simp, by simp⟩

/-- **What a line does to a class** whose head is that of `o₁` after it: the constructor and the
    phase may change, and the line closes the class, or is kept and may bring a field. -/
theorem read_frame (h : o.read n previous line classLine = .ok (done, next)) :
    ∃ (o₁ : OpenClass) (p : Phase) (a b : Option Int) (t : Option Text),
      readHead { o with brackets := o.brackets.feed line } n line classLine = .ok o₁
        ∧ o₁.brackets = o.brackets.feed line ∧ (o₁.phase ≠ .head → p ≠ .head)
        ∧ ((o₁.brackets.closed ∧ next = none ∧ done = o₁.report { o₁.found with
                constructorFirst := a, constructorLast := b, constructorText := t
                content := o₁.found.content ++ line, last := some n })
          ∨ (o₁.brackets.closed = false ∧ done = [] ∧ ∃ fs,
              (∀ f ∈ fs, ∃ name seen, isFieldLine name seen line
                ∧ Field.ofLine? line n previous = some f)
              ∧ next = some { o₁ with
                phase := p
                found := { o₁.found with
                  constructorFirst := a, constructorLast := b, constructorText := t
                  content := o₁.found.content ++ line ++ ['\n']
                  fields := o₁.found.fields ++ fs } })) := by
  obtain ⟨o₁, o₂, h₁, rfl, hend⟩ := read_cases h
  obtain ⟨p, a, b, t, he, hphase⟩ := constructor_steps_frame o₁ n o.brackets.curly line classLine
  have hbrackets : o₁.brackets = o.brackets.feed line := by
    rcases readHead_cases h₁ with ⟨-, rfl⟩ | ⟨-, -, rfl⟩ | ⟨-, -, l, d, rfl, -⟩ <;> rfl
  rw [he] at hend
  refine ⟨o₁, p, a, b, t, h₁, hbrackets, hphase, ?_⟩
  rcases hend with ⟨hcl, rfl, rfl⟩ | ⟨hcl, rfl, rfl⟩
  · exact .inl ⟨hcl, rfl, rfl⟩
  · refine .inr ⟨hcl, rfl, ?_⟩
    unfold readField
    split
    next hd =>
      rw [declaresField, Bool.and_eq_true] at hd
      exact ⟨_, fun f hf => ⟨_, _, hd.2, Option.mem_toList.mp hf⟩, rfl⟩
    next => exact ⟨[], by simp, by simp [keepLine]⟩

/-- Fields in order stay so with one more behind them. -/
theorem pairwise_line_append {fs gs : List Field} {n : Nat}
    (hs : (fs.map Field.line).Pairwise (· < ·)) (hf : ∀ f ∈ fs, f.line ≤ n)
    (hl : gs.length ≤ 1) (hg : ∀ g ∈ gs, g.line = (n + 1 : Nat)) :
    ((fs ++ gs).map Field.line).Pairwise (· < ·) := by
  rw [map_append, pairwise_append]
  refine ⟨hs, ?_, ?_⟩
  · exact pairwise_of_length_le_one (by simpa using hl)
  · intro a ha b hb
    obtain ⟨f, hf', rfl⟩ := mem_map.mp ha
    obtain ⟨g, hg', rfl⟩ := mem_map.mp hb
    have h₁ := hf f hf'
    have h₂ := hg g hg'
    omega

/-- A line that does not close the class is kept. -/
theorem Halfway.tracks_keep (hw : o.Halfway pre line s)
    (hcl : isClassLine line = decide (s = pre.length + 1)) (previous : Option Text)
    (classLine : Bool) :
    ((o.keepLine line).readField (pre.length + 1 : Nat) previous line classLine).Tracks
      (pre ++ [line]) s := by
  obtain ⟨fs, he, hlen, hline, hbody⟩ := readField_cases (o.keepLine line) (pre.length + 1 : Nat)
    previous line classLine
  rw [he]
  have hle := hw.le_length
  have hdrop : (pre ++ [line]).drop (s - 1) = pre.drop (s - 1) ++ [line] :=
    drop_concat (by omega) line
  have hfields : ∀ f ∈ o.found.fields, f.line ≤ pre.length := by
    intro f hf
    by_cases hp : o.phase = .head
    · simp [(hw.in_head hp).2.2.1] at hf
    · obtain ⟨h, -, -, -, -, hfi, -⟩ := hw.in_body hp
      exact (hfi f hf).2
  exact {
    one_le := hw.one_le
    le_length := by simp only [length_append, length_singleton]; omega
    first_eq := hw.first_eq
    last_eq := hw.last_eq
    unedited := hw.unedited
    content_eq := by
      show o.found.content ++ line ++ ['\n'] = _
      rw [hdrop, endLines_append, hw.content_eq]
      simp
    class_line := hw.class_line_concat hcl
    no_class_line := hw.no_class_line_concat hcl
    fields_sorted := pairwise_line_append hw.fields_sorted hfields hlen hline
    in_head := by
      intro hp
      have hp : o.phase = .head := hp
      obtain ⟨h₁, h₂, h₃, h₄, h₅, h₆⟩ := hw.in_head hp
      have hfs : fs = [] := by
        by_cases hfs : fs = []
        · exact hfs
        · have hb : o.phase = .body := (hbody hfs).1
          simp [hp] at hb
      refine ⟨h₁, h₂, ?_, h₄, h₅, h₆⟩
      show o.found.fields ++ fs = []
      simp [h₃, hfs]
    opened := hw.opened
    in_body := by
      intro hp
      obtain ⟨h, hh, hsh, hhl, hbrace, hfi, hct⟩ := hw.in_body hp
      refine ⟨h, hh, hsh, by simpa using hhl, ?_, hct⟩
      intro f hf
      rw [length_append, length_singleton]
      rcases mem_append.mp hf with hf | hf
      · have := hfi f hf
        omega
      · have hn := hline f hf
        -- the line that opens the body declares no field
        have hne : h ≠ pre.length + 1 := fun e =>
          (hbody (ne_nil_of_mem hf)).2 (hbrace e)
        omega }

/-! ## §5. A file. -/

/-- A class that has just been started tracks the lines above it. -/
theorem start_tracks (h : start (pre.length + 1 : Nat) line = .ok o) :
    o.Tracks pre (pre.length + 1) := by
  simp only [start, bind_eq_ok, pure_eq_ok, Except.ok.injEq] at h
  obtain ⟨d, -, rfl⟩ := h
  exact {
    one_le := by omega
    le_length := Nat.le_refl _
    first_eq := rfl
    last_eq := rfl
    unedited := ⟨rfl, rfl, rfl, rfl⟩
    content_eq := by simp
    class_line := fun l hl => by simp at hl
    no_class_line := fun l hl => by
      rw [drop_eq_nil_of_le (by omega)] at hl
      simp at hl
    fields_sorted := List.Pairwise.nil
    in_head := fun _ => ⟨rfl, Int.le_refl _, rfl, rfl, rfl, rfl⟩
    opened := fun hp => absurd rfl hp
    in_body := fun hp => absurd rfl hp }

end OpenClass

/-- What the scanner reports of a class: the class line on which it begins, that it is not edited,
    and, if it is complete, where it stands. -/
structure SourceClass.Reported (c : SourceClass) (ls : List Text) (s : Nat) : Prop where
  first_eq : c.first = some (s : Int)
  class_line : ∃ l, ls[s - 1]? = some l ∧ isClassLine l = true
  unedited : c.Unedited
  stands : ∀ e, c.last = some e → ∃ h : Int, c.headLast = some h ∧ c.Stands ls s h e

variable {c : SourceClass} {ls pre : List Text} {lo s : Nat} {o : OpenClass} {cs : List SourceClass}

theorem SourceClass.exists_last (hv : c.isValid) : ∃ e, c.last = some e := by
  simp only [isValid, Bool.and_eq_true] at hv
  exact Option.isSome_iff_exists.mp hv.1.1.2

/-- More lines below do not move a class. -/
theorem SourceClass.Stands.append {s h e : Int} (hc : c.Stands ls s h e) (ms : List Text) :
    c.Stands (ls ++ ms) s h e := by
  have hle := hc.last_le
  exact { hc with
    last_le := by rw [length_append]; omega
    content_eq := by rw [span_append_left hle, hc.content_eq]
    no_class_line := fun l hl => hc.no_class_line l (by rwa [span_append_left hle] at hl)
    constructor_inside := fun a b ha hb => by
      obtain ⟨h₁, h₂, h₃, h₄⟩ := hc.constructor_inside a b ha hb
      exact ⟨h₁, h₂, h₃, by rw [span_append_left (by omega), h₄]⟩
    constructor_open := fun a ha hb => by
      obtain ⟨h₁, h₂, h₃⟩ := hc.constructor_open a ha hb
      exact ⟨h₁, h₂, by rw [span_append_left hle, h₃]⟩ }

/-- Lines below make no difference. -/
theorem SourceClass.Reported.append (hc : c.Reported ls s) (ms : List Text) :
    c.Reported (ls ++ ms) s where
  first_eq := hc.first_eq
  class_line := by
    obtain ⟨l, hl, hcl⟩ := hc.class_line
    have hlt : s - 1 < ls.length := by
      obtain ⟨hlt, -⟩ := List.getElem?_eq_some_iff.mp hl
      exact hlt
    exact ⟨l, by rw [getElem?_append_left hlt, hl], hcl⟩
  unedited := hc.unedited
  stands := fun e he => by
    obtain ⟨h, hh, hst⟩ := hc.stands e he
    exact ⟨h, hh, hst.append ms⟩

/-- The line on which a class began is among the lines read. -/
theorem OpenClass.Begun.exists_class_line (hb : o.Begun pre s) (hle : s ≤ pre.length) :
    ∃ l, pre[s - 1]? = some l ∧ isClassLine l := by
  have hlt : s - 1 < pre.length := by
    have := hb.one_le
    omega
  have hl : pre[s - 1]? = some pre[s - 1] := getElem?_eq_getElem hlt
  exact ⟨_, hl, hb.class_line _ hl⟩

/-- A class that another one interrupts, or that the file ends in, has no end. -/
theorem OpenClass.Tracks.reported (ht : o.Tracks pre s) (hle : s ≤ pre.length) :
    o.found.Reported pre s where
  first_eq := ht.first_eq
  class_line := ht.exists_class_line hle
  unedited := ht.unedited
  stands := fun e he => by simp [ht.last_eq] at he

theorem OpenClass.mem_report {d : SourceClass} : c ∈ o.report d ↔ o.listed ∧ c = d := by
  unfold report
  cases o.listed <;> simp

/-- Reading one line of a class: either the class is complete with it, or it goes on. -/
theorem OpenClass.Tracks.read {line : Text} {classLine : Bool} {previous : Option Text}
    {done : List SourceClass} {next : Option OpenClass} (ht : o.Tracks pre s)
    (hcl : isClassLine line = decide (s = pre.length + 1))
    (h : o.read (pre.length + 1 : Nat) previous line classLine = .ok (done, next)) :
    (next = none ∧ done.length ≤ 1 ∧ ∀ c ∈ done, c.Reported (pre ++ [line]) s
        ∧ c.last = some ((pre.length + 1 : Nat) : Int))
      ∨ (done = [] ∧ ∃ o', next = some o' ∧ o'.Tracks (pre ++ [line]) s) := by
  obtain ⟨o₁, o₂, h₁, rfl, ⟨hc, rfl, rfl⟩ | ⟨-, rfl, rfl⟩⟩ := read_cases h
  · have hw := ht.halfway h₁
    obtain ⟨hl, hh, hst⟩ := hw.stands_close hcl hc
    refine .inl ⟨rfl, ?_, ?_⟩
    · unfold report
      split <;> simp
    · intro c hmem
      obtain ⟨-, rfl⟩ := mem_report.mp hmem
      have hline : ∃ l, (pre ++ [line])[s - 1]? = some l ∧ isClassLine l := by
        have hlt : s - 1 < (pre ++ [line]).length := by
          have h₁ := hw.one_le
          have h₂ := hw.le_length
          rw [length_append, length_singleton]
          omega
        have hl := getElem?_eq_getElem hlt
        exact ⟨_, hl, hw.class_line_concat hcl _ hl⟩
      refine ⟨⟨hw.first_eq, hline, hw.unedited, fun e he => ?_⟩, rfl⟩
      obtain rfl : ((pre.length + 1 : Nat) : Int) = e := Option.some.inj he
      exact ⟨hl, hh, hst⟩
  · exact .inr ⟨rfl, _, rfl, (ht.halfway h₁).tracks_keep hcl previous classLine⟩

theorem mem_abandoned {current : Option OpenClass} (h : c ∈ abandoned current) :
    ∃ o, current = some o ∧ c = o.found := by
  cases current with
  | none => cases h
  | some o => exact ⟨o, rfl, (OpenClass.mem_report.mp h).2⟩

theorem length_abandoned_le (current : Option OpenClass) : (abandoned current).length ≤ 1 := by
  cases current with
  | none => simp [abandoned]
  | some o =>
    simp only [abandoned, OpenClass.report]
    split <;> simp

/-- The classes reported from a place on stand in the text, begin at or after the line `lo`, and
    come in order. -/
def Laid (ls : List Text) (lo : Nat) (cs : List SourceClass) : Prop :=
  cs.Pairwise SourceClass.Before ∧ ∀ c ∈ cs, ∃ s : Nat, lo ≤ s ∧ c.Reported ls s

theorem Laid.mono {lo' : Nat} (h : Laid ls lo cs) (hle : lo' ≤ lo) : Laid ls lo' cs :=
  ⟨h.1, fun c hc => by
    obtain ⟨s, hs, hr⟩ := h.2 c hc
    exact ⟨s, Nat.le_trans hle hs, hr⟩⟩

/-- At most one class in front of others that begin after it, and after its end. -/
theorem Laid.cons {ds : List SourceClass} (h : Laid ls lo cs) (hlen : ds.length ≤ 1)
    (hds : ∀ c ∈ ds, c.Reported ls s ∧ ∀ e, c.last = some e → e < (lo : Int)) (hlt : s < lo) :
    Laid ls s (ds ++ cs) := by
  refine ⟨pairwise_append.mpr ⟨?_, h.1, ?_⟩, ?_⟩
  · exact pairwise_of_length_le_one hlen
  · intro c hc d hd
    obtain ⟨t, ht, hr⟩ := h.2 d hd
    refine ⟨s, t, (hds c hc).1.first_eq, hr.first_eq, by omega, fun e he => ?_⟩
    have := (hds c hc).2 e he
    omega
  · intro c hc
    rcases mem_append.mp hc with hc | hc
    · exact ⟨s, Nat.le_refl _, (hds c hc).1⟩
    · obtain ⟨t, ht, hr⟩ := h.2 c hc
      exact ⟨t, by omega, hr⟩

/-- **The scan of the lines after `pre`**: what is reported stands in the text, at or after the
    class that is open there. -/
theorem scanLines_laid (rest : List Text) (pre : List Text) (previous : Option Text)
    (current : Option OpenClass) (lo : Nat) (cs : List SourceClass)
    (hcur : (current = none ∧ lo = pre.length + 1)
      ∨ (∃ o, current = some o ∧ o.Tracks pre lo ∧ lo ≤ pre.length))
    (h : scanLines (pre.length + 1) previous current rest = .ok cs) : Laid (pre ++ rest) lo cs := by
  induction rest generalizing pre previous current lo cs with
  | nil =>
    simp only [scanLines, Except.ok.injEq] at h
    subst h
    refine ⟨pairwise_of_length_le_one (length_abandoned_le current), fun c hc => ?_⟩
    obtain ⟨o, rfl, rfl⟩ := mem_abandoned hc
    rcases hcur with ⟨h, -⟩ | ⟨o', h, ht, hle⟩
    · simp at h
    · injection h with h
      subst h
      exact ⟨lo, Nat.le_refl _, by simpa using ht.reported hle⟩
  | cons line rest ih =>
    have happ : pre ++ line :: rest = (pre ++ [line]) ++ rest := by simp
    have hnum : pre.length + 1 + 1 = (pre ++ [line]).length + 1 := by simp
    -- what a line of a class leads to, whether the class began above it or on it
    have hread : ∀ (o : OpenClass) (s : Nat) (classLine : Bool) (done ds : List SourceClass)
        (next : Option OpenClass), o.Tracks pre s →
        isClassLine line = decide (s = pre.length + 1) →
        o.read (pre.length + 1 : Nat) previous line classLine = .ok (done, next) →
        scanLines (pre.length + 1 + 1) (some line) next rest = .ok ds →
        Laid (pre ++ line :: rest) s (done ++ ds) := by
      intro o s classLine done ds next ht hcl hr hds
      have hle := ht.le_length
      rw [hnum] at hds
      rw [happ]
      rcases ht.read hcl hr with ⟨rfl, hlen, hdone⟩ | ⟨rfl, o', rfl, ht'⟩
      · refine (ih (pre ++ [line]) (some line) none _ ds (.inl ⟨rfl, rfl⟩) hds).cons hlen
          (fun c hc => ?_) (by simp; omega)
        obtain ⟨hrep, hlast⟩ := hdone c hc
        refine ⟨hrep.append rest, fun e he => ?_⟩
        rw [hlast, Option.some.injEq] at he
        rw [← he, length_append, length_singleton]
        omega
      · exact ih (pre ++ [line]) (some line) (some o') s ds
          (.inr ⟨o', rfl, ht', by simp; omega⟩) hds
    unfold scanLines at h
    by_cases hcl : isClassLine line
    · rw [if_pos hcl] at h
      simp only [bind_eq_ok, pure_eq_ok, Except.ok.injEq] at h
      obtain ⟨o, ho, ⟨done, next⟩, hr, ds, hds, rfl⟩ := h
      have hnew := hread o (pre.length + 1) true done ds next (OpenClass.start_tracks ho)
        (by simpa using hcl) hr hds
      rw [append_assoc]
      rcases hcur with ⟨rfl, rfl⟩ | ⟨o', rfl, ht, hle⟩
      · exact hnew
      · refine hnew.cons (length_abandoned_le _) (fun c hc => ?_) (by omega)
        obtain ⟨o'', h'', rfl⟩ := mem_abandoned hc
        injection h'' with h''
        subst h''
        exact ⟨(ht.reported hle).append _, fun e he => by simp [ht.last_eq] at he⟩
    · rw [if_neg hcl] at h
      rcases hcur with ⟨rfl, rfl⟩ | ⟨o, rfl, ht, hle⟩
      · rw [hnum] at h
        rw [happ]
        exact (ih (pre ++ [line]) (some line) none _ cs (.inl ⟨rfl, rfl⟩) h).mono (by simp)
      · simp only [bind_eq_ok, pure_eq_ok, Except.ok.injEq] at h
        obtain ⟨⟨done, next⟩, hr, ds, hds, rfl⟩ := h
        have hne : lo ≠ pre.length + 1 := by omega
        exact hread o lo false done ds next ht (by simpa [hne] using hcl) hr hds

theorem scan_laid {text : Text} (h : scan text = .ok cs) : Laid text.lines 1 cs := by
  have := scanLines_laid text.lines [] none none 1 cs (.inl ⟨rfl, rfl⟩) h
  simpa using this

/-- **Every class stands where its line numbers say.**  Classes come in the order of the text, each
    ends before the next one begins, and the content, the fields and the constructor of a complete
    class are on the lines that are recorded for them. -/
theorem scan_spans {text : Text} {cs : List SourceClass} (h : scan text = .ok cs) :
    cs.Pairwise SourceClass.Before
      ∧ (∀ c ∈ cs, c.first.isSome = true)
      ∧ ∀ c ∈ cs, ∀ e, c.last = some e → ∃ s hl : Int, c.first = some s ∧ c.headLast = some hl
        ∧ c.Stands text.lines s hl e := by
  obtain ⟨hp, hr⟩ := scan_laid h
  refine ⟨hp, fun c hc => ?_, fun c hc e he => ?_⟩
  · obtain ⟨s, -, hrep⟩ := hr c hc
    simp [hrep.first_eq]
  · obtain ⟨s, -, hrep⟩ := hr c hc
    obtain ⟨hl, hh, hst⟩ := hrep.stands e he
    exact ⟨s, hl, hrep.first_eq, hh, hst⟩

/-- Two classes, the first with a constructor. -/
theorem scan_spans_two_classes :
    ∃ (text : Text) (cs : List SourceClass), scan text = .ok cs
      ∧ cs.map SourceClass.last = [some 5, some 8] ∧ cs.Pairwise SourceClass.Before
      ∧ ∀ c ∈ cs, ∃ s hl e, c.Stands text.lines s hl e := by
  let text : Text := "class A \x7b\n  int x;\n  A(\n    this.x);\n\x7d\nclass B\n\x7b int y;\n\x7d"
  have h : (scan text).toOption.map (·.map SourceClass.last) = some [some 5, some 8] := by
    decide +kernel
  cases hs : scan text with
  | error f => simp [hs, Except.toOption] at h
  | ok cs =>
      have hlast : cs.map SourceClass.last = [some 5, some 8] := by
        simpa [hs, Except.toOption] using h
      obtain ⟨hp, -, hst⟩ := scan_spans hs
      refine ⟨text, cs, hs, hlast, hp, fun c hc => ?_⟩
      have hmem : c.last ∈ [some 5, some 8] := hlast ▸ mem_map_of_mem hc
      obtain ⟨e, he⟩ : ∃ e, c.last = some e := by
        simp only [mem_cons, not_mem_nil, or_false] at hmem
        rcases hmem with he | he <;> exact ⟨_, he⟩
      obtain ⟨s, hl, -, -, hc⟩ := hst c hc e he
      exact ⟨s, hl, e, hc⟩

end DartData
