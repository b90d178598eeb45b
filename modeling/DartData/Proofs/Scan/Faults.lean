import DartData.Proofs.Scan.Span

/-!
# What can stop the scan

The scan fails in one way only: the name of a class opens type parameters and closes none.  Lines
that belong to no class, unbalanced brackets and classes without an end are all read.

`declarationsFrom` lists the texts that are read as declarations, and `declaredNames` the words of
such a text that are read as a name.  The scan fails exactly if one of these words is left open
(`scan_eq_error`).
-/

namespace DartData

/-! ## §1. Names. -/

/-- Whether a word opens type parameters and closes none. -/
def leavesOpen (word : Text) : Bool := word.has "<" && !word.has ">"

theorem splitClassName_eq_error {word : Text} {f : Fault} :
    splitClassName word = .error f ↔ f = .unclosedGenerics ∧ leavesOpen word := by
  unfold splitClassName leavesOpen
  rw [← Text.isSome_cut? word "<"]
  cases word.cut? "<" with
  | none => simp
  | some parts =>
    cases word.has ">" with
    | true => simp
    | false => simpa using eq_comm

/-- The words that are read as a name: the first one after the word `class` that is no keyword,
    unless it follows `extends`. -/
def declaredNames (nameNext superclassNext : Bool) : List Text → List Text
  | [] => []
  | w :: ws =>
    if w == "class" then declaredNames true superclassNext ws
    else if w == "extends" then declaredNames nameNext true ws
    else if superclassNext then declaredNames nameNext false ws
    else if w == "with" || w == "implements" then
      declaredNames nameNext superclassNext ws
    else if nameNext then w :: declaredNames false superclassNext ws
    else declaredNames nameNext superclassNext ws

/-- Whether a declaration has a name whose type parameters are left open. -/
def leavesNameOpen (declaration : Text) : Bool :=
  (declaredNames false false (declarationWords declaration)).any leavesOpen

namespace Declaration

/-- The one way in which words cannot be read. -/
theorem readWords_eq_error {f : Fault} (ws : List Text) (d : Declaration) (r : DeclarationReader) :
    d.readWords r ws = .error f ↔ f = .unclosedGenerics
        ∧ (declaredNames r.nameNext r.superclassNext ws).any leavesOpen := by
  induction ws generalizing d r with
  | nil =>
    simp [readWords, declaredNames]
  | cons w ws ih =>
    show (d.readWord r w >>= fun x => readWords x.1 x.2 ws) = .error f ↔ _
    -- the cases are those of `readWord`; only a word that is read as the name can fail
    obtain ⟨nameNext, superclassNext, listNext⟩ := r
    unfold readWord declaredNames
    by_cases h₁ : (w == "class")
    · rw [if_pos h₁, if_pos h₁]
      exact ih d ⟨true, superclassNext, listNext⟩
    rw [if_neg h₁, if_neg h₁]
    by_cases h₂ : (w == "extends")
    · rw [if_pos h₂, if_pos h₂]
      exact ih d ⟨nameNext, true, listNext⟩
    rw [if_neg h₂, if_neg h₂]
    cases superclassNext with
    | true => exact ih _ ⟨nameNext, false, listNext⟩
    | false =>
      dsimp only
      rw [if_neg Bool.false_ne_true, if_neg Bool.false_ne_true]
      by_cases h₃ : (w == "with")
      · rw [if_pos h₃, if_pos (by rw [h₃, Bool.true_or])]
        exact ih d ⟨nameNext, false, some .mixins⟩
      by_cases h₄ : (w == "implements")
      · rw [if_neg h₃, if_pos h₄, if_pos (by rw [h₄, Bool.or_true])]
        exact ih d ⟨nameNext, false, some .interfaces⟩
      have hno : ¬ (w == "with" || w == "implements") := by
        rw [Bool.or_eq_true, not_or]
        exact ⟨h₃, h₄⟩
      rw [if_neg h₃, if_neg h₄, if_neg hno]
      cases nameNext with
      | true =>
        rw [if_pos rfl, if_pos rfl, List.any_cons]
        cases hname : splitClassName w with
        | error e =>
          obtain ⟨rfl, hopen⟩ := splitClassName_eq_error.mp hname
          simp [hopen, bind, Except.bind, eq_comm]
        | ok x =>
          have hclosed : leavesOpen w = false := by
            rw [Bool.eq_false_iff]
            intro hopen
            simp [splitClassName_eq_error.mpr ⟨rfl, hopen⟩] at hname
          rw [hclosed, Bool.false_or]
          exact ih _ ⟨false, false, listNext⟩
      | false =>
        rw [if_neg Bool.false_ne_true, if_neg Bool.false_ne_true]
        cases listNext with
        | none => exact ih d ⟨false, false, none⟩
        | some l => cases l <;> exact ih _ ⟨false, false, some _⟩

/-- The one way in which a declaration cannot be read. -/
theorem read_eq_error {d : Declaration} {text : Text} {f : Fault} :
    d.read text = .error f ↔ f = .unclosedGenerics ∧ leavesNameOpen text :=
  readWords_eq_error _ d {}

end Declaration

/-! ## §2. Declarations. -/

/-- The texts that are read as declarations: each class line, and the lines of a head without a
    brace up to the line that has one, as one text.  `head` is such a head that is still open. -/
def declarationsFrom (head : Option (Text × Brackets)) : List Text → List Text
  | [] => []
  | line :: rest =>
    if isClassLine line then
      let b := Brackets.feed {} line
      line :: declarationsFrom (if b.opened then none else some (line.trim, b)) rest
    else match head with
      | none => declarationsFrom none rest
      | some (t, b) =>
        let t := t ++ " " ++ line.trim
        let b := b.feed line
        if b.opened then t :: declarationsFrom none rest else declarationsFrom (some (t, b)) rest

/-- The texts of a file that are read as declarations. -/
def declarations (text : Text) : List Text := declarationsFrom none text.lines

namespace OpenClass

/-- The head as far as it was read, if no brace was opened yet. -/
def openHead (o : OpenClass) : Option (Text × Brackets) :=
  if o.phase = .head then some (o.headText, o.brackets) else none

/-- A head has no depth. -/
def HeadFlat (o : OpenClass) : Prop := o.phase = .head → o.brackets.curly ≤ 0

variable {o : OpenClass} {n : Int} {line : Text} {classLine : Bool} {f : Fault}
  {previous : Option Text}

/-- Only a head of several lines, read as a whole, can fail. -/
theorem readHead_eq_error :
    o.readHead n line classLine = .error f ↔ f = .unclosedGenerics ∧ o.phase = .head
      ∧ o.brackets.opened ∧ classLine = false
      ∧ leavesNameOpen (o.headText ++ " " ++ line.trim) := by
  unfold readHead
  by_cases hp : o.phase = .head
  · rw [if_pos hp]
    cases classLine with
    | true => cases hb : o.brackets.opened <;> simp [hb]
    | false =>
      cases hb : o.brackets.opened with
      | false => simp [hb]
      | true =>
        simp only [Bool.false_eq_true, if_false, hb, if_true, rereadHead, bind_eq_error,
          pure_eq_ok, reduceCtorEq, and_false, exists_false, or_false, Declaration.read_eq_error]
        simp [hp]
  · simp [hp]

/-- The one way in which a line cannot be read. -/
theorem read_eq_error :
    o.read n previous line classLine = .error f ↔ f = .unclosedGenerics ∧ o.phase = .head
      ∧ (o.brackets.feed line).opened ∧ classLine = false
      ∧ leavesNameOpen (o.headText ++ " " ++ line.trim) := by
  rw [← readHead_eq_error (o := { o with brackets := o.brackets.feed line }) (n := n)]
  unfold read
  rw [bind_eq_error]
  constructor
  · rintro (h | ⟨o', -, h⟩)
    · exact h
    · dsimp only at h
      split at h <;> simp at h
  · exact .inl

/-- As long as no brace is opened the head goes on with each line. -/
theorem openHead_of_read {done : List SourceClass} {next : Option OpenClass} (hflat : o.HeadFlat)
    (h : o.read n previous line classLine = .ok (done, next)) :
    next.bind openHead = (if o.phase = .head ∧ (o.brackets.feed line).opened = false then
            some (o.headWith line classLine, o.brackets.feed line)
          else none)
      ∧ ∀ o' ∈ next, o'.HeadFlat := by
  obtain ⟨o₁, o₂, h₁, rfl, hend⟩ := read_cases h
  -- a class whose body is open has no head to go on with
  have hbody : ∀ o₂ : OpenClass, o₂.phase ≠ .head →
      (o₂.brackets.closed ∧ done = o₂.report (o₂.close n line) ∧ next = none)
        ∨ (o₂.brackets.closed = false ∧ done = []
          ∧ next = some ((o₂.keepLine line).readField n previous line classLine)) →
      next.bind openHead = none ∧ ∀ o' ∈ next, o'.HeadFlat := by
    rintro o₂ hp (⟨-, -, rfl⟩ | ⟨-, -, rfl⟩)
    · exact ⟨rfl, by simp⟩
    · obtain ⟨fs, he, -⟩ := readField_cases (o₂.keepLine line) n previous line classLine
      rw [he]
      refine ⟨if_neg hp, fun o' ho' => ?_⟩
      rw [← Option.mem_some.mp ho']
      exact fun hp' => absurd hp' hp
  rcases readHead_cases h₁ with ⟨hp, rfl⟩ | ⟨hp, hb, rfl⟩ | ⟨hp, hb, l, d, rfl, -⟩
  · obtain ⟨p, a, b, t, he, hphase⟩ := constructor_steps_frame
      { o with brackets := o.brackets.feed line } n o.brackets.curly line classLine
    rw [he] at hend
    rw [if_neg fun hh => hp hh.1]
    exact hbody _ (hphase hp) hend
  · have hp : o.phase = .head := hp
    have hb : (o.brackets.feed line).opened = false := hb
    have hcurly := hflat hp
    rw [enterConstructor_of_depth (by omega), readConstructor_of_phase (by simp [hp])] at hend
    rcases hend with ⟨hc, -⟩ | ⟨-, -, rfl⟩
    · simp [Brackets.closed, hb] at hc
    · rw [if_pos ⟨hp, hb⟩]
      obtain ⟨fs, he, -⟩ := readField_cases (keepLine { o with
          headText := headWith { o with brackets := o.brackets.feed line } line classLine
          brackets := o.brackets.feed line } line) n previous line classLine
      rw [he]
      refine ⟨if_pos hp, fun o' ho' => ?_⟩
      rw [← Option.mem_some.mp ho']
      exact fun _ => Int.le_trans (Brackets.feed_curly_le hb) hcurly
  · have hcurly := hflat hp
    rw [enterConstructor_of_depth (by omega), readConstructor_of_phase (by simp)] at hend
    rw [if_neg fun hh => Bool.false_ne_true (hh.2.symm.trans hb)]
    exact hbody _ (by simp) hend

/-- A line and what is read after it: it fails if the line completes a head with an open name, and
    else if the lines below do, where `later` tells whether they do after a given open head. -/
theorem read_bind_eq_error {β : Type} {k : List SourceClass × Option OpenClass → Except Fault β}
    (later : Option (Text × Brackets) → Bool) (hflat : o.HeadFlat)
    (hk : ∀ x, (∀ o' ∈ x.2, o'.HeadFlat) →
      (k x = .error f ↔ f = .unclosedGenerics ∧ later (x.2.bind openHead))) :
    (o.read n previous line classLine >>= k) = .error f ↔ f = .unclosedGenerics
      ∧ (if o.phase = .head then
          if (o.brackets.feed line).opened then
            !classLine && leavesNameOpen (o.headWith line classLine) || later none
          else later (some (o.headWith line classLine, o.brackets.feed line))
        else later none) := by
  cases hr : o.read n previous line classLine with
  | error e =>
    obtain ⟨rfl, hp, hb, rfl, hn⟩ := read_eq_error.mp hr
    have hn : leavesNameOpen (o.headWith line false) := hn
    rw [if_pos hp, if_pos hb, hn]
    show Except.error Fault.unclosedGenerics = .error f ↔ f = .unclosedGenerics ∧ true
    rw [Except.error.injEq, eq_comm, and_iff_left rfl]
  | ok x =>
    obtain ⟨hhead, hnext⟩ := openHead_of_read hflat hr
    show k x = .error f ↔ _
    rw [hk x hnext, hhead]
    by_cases hp : o.phase = .head
    · rw [if_pos hp]
      cases hb : (o.brackets.feed line).opened with
      | false => rw [if_pos ⟨hp, rfl⟩, if_neg Bool.false_ne_true]
      | true =>
        -- with an open name, reading the line would have failed
        have hno : (!classLine && leavesNameOpen (o.headWith line classLine)) = false := by
          rw [Bool.eq_false_iff]
          intro hopen
          rw [Bool.and_eq_true, Bool.not_eq_true'] at hopen
          obtain ⟨rfl, hopen⟩ := hopen
          simp [read_eq_error.mpr ⟨rfl, hp, hb, rfl, hopen⟩] at hr
        rw [if_neg (by simp), if_pos rfl, hno, Bool.false_or]
    · rw [if_neg hp, if_neg fun hh => hp hh.1]

theorem start_eq_error : start n line = .error f ↔ f = .unclosedGenerics ∧ leavesNameOpen line := by
  unfold start
  rw [bind_eq_error, Declaration.read_eq_error]
  simp

/-- A class that has just been started is in its head, and the class line is all of it. -/
theorem openHead_start (h : start n line = .ok o) :
    o.phase = .head ∧ o.brackets = {} ∧ o.headText = line.trim := by
  obtain ⟨d, -, h⟩ := bind_eq_ok.mp h
  injection h with h
  rw [← h]
  exact ⟨rfl, rfl, rfl⟩

end OpenClass

/-! ## §3. Files. -/

variable {f : Fault} {text : Text}

/-- **The scan of the lines after an open class** fails exactly if a name is left open below. -/
theorem scanLines_eq_error (ls : List Text) (n : Nat) (previous : Option Text)
    (current : Option OpenClass) (hflat : ∀ o ∈ current, o.HeadFlat) :
    (scanLines n previous current ls = .error f ↔ f = .unclosedGenerics
      ∧ (declarationsFrom (current.bind OpenClass.openHead) ls).any leavesNameOpen) := by
  induction ls generalizing n previous current with
  | nil =>
    simp [scanLines, declarationsFrom]
  | cons line ls ih =>
    -- the lines below, after a line that was read
    have hlater : ∀ (x : List SourceClass × Option OpenClass)
        (g : List SourceClass → List SourceClass), (∀ o ∈ x.2, o.HeadFlat) →
        ((scanLines (n + 1) (some line) x.2 ls >>= fun later => .ok (g later)) = .error f ↔
          f = .unclosedGenerics
            ∧ (declarationsFrom (x.2.bind OpenClass.openHead) ls).any leavesNameOpen) := by
      intro x g hx
      rw [bind_eq_error, ih (n + 1) (some line) x.2 hx]
      simp
    unfold declarationsFrom
    cases hc : isClassLine line with
    | true =>
      rw [scanLines_class_line hc, bind_eq_error, OpenClass.start_eq_error, if_pos rfl]
      dsimp only
      rw [List.any_cons]
      cases hs : OpenClass.start n line with
      | error e => simp [(OpenClass.start_eq_error.mp hs).2]
      | ok o =>
        obtain ⟨hp, hb, ht⟩ := OpenClass.openHead_start hs
        have hclosed : leavesNameOpen line = false := by
          rw [Bool.eq_false_iff]
          intro hopen
          simp [OpenClass.start_eq_error.mpr ⟨rfl, hopen⟩] at hs
        have hflat : o.HeadFlat := fun _ => hb ▸ Int.le_refl 0
        simp only [hclosed, Bool.false_eq_true, and_false, false_or, Bool.false_or,
          Except.ok.injEq, exists_eq_left']
        rw [OpenClass.read_bind_eq_error (fun h => (declarationsFrom h ls).any leavesNameOpen) hflat
          fun x hx => hlater x _ hx, if_pos hp, hb, OpenClass.headWith, if_pos rfl, ht]
        cases (Brackets.feed {} line).opened <;> rfl
    | false =>
      rw [if_neg Bool.false_ne_true]
      cases current with
      | none =>
        rw [scanLines_skip hc]
        exact ih (n + 1) (some line) none (by simp)
      | some o =>
        rw [scanLines_inside hc, OpenClass.read_bind_eq_error
          (fun h => (declarationsFrom h ls).any leavesNameOpen) (hflat o rfl)
          fun x hx => hlater x _ hx, Option.bind_some, OpenClass.openHead]
        by_cases hp : o.phase = .head
        · rw [if_pos hp, if_pos hp]
          dsimp only
          cases (o.brackets.feed line).opened <;> rfl
        · rw [if_neg hp, if_neg hp]

theorem scan_eq_error :
    scan text = .error f ↔ f = .unclosedGenerics ∧ (declarations text).any leavesNameOpen :=
  scanLines_eq_error text.lines 1 none none (by simp)

/-- **The scan fails only on a class name with open type parameters.** -/
theorem scan_error (h : scan text = .error f) : f = .unclosedGenerics :=
  (scan_eq_error.mp h).1

end DartData
