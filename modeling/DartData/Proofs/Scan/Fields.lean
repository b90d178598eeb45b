import DartData.Proofs.Scan.Head

/-!
# The fields of a class

The scanner takes a line for a field by the depth of brackets and by the shape of the line.  This
module says for every class which lines these are, from the lines of the class alone: the line
stands directly in the body, no round bracket is open after it, and it has the shape of a field
(`FieldShaped`).  The fields of a class are exactly the fields of these lines (`scan_readIn`).

Lines are counted from zero here: the class line is the line 0 of its class, and what is meant by
the lines of a class are those of the file from its class line on, of which the first ones belong to
it (`LineOf`).  `OpenClass.Follows` is the invariant of a class that is being read.
-/

namespace DartData

open List

/-! ## §1. Lines that are taken for fields. -/

/-- The brackets in front of the line `k`. -/
def bracketsBefore (ls : List Text) (k : Nat) : Brackets := Brackets.feedAll {} (ls.take k)

/-- The line `k` belongs to the class that begins on the first of the lines: no other class begins,
    and the class does not end, above it. -/
def LineOf (ls : List Text) (k : Nat) : Prop :=
  k < ls.length ∧ ∀ j, 0 < j → j ≤ k →
    isClassLine (lineAt ls j) = false ∧ (bracketsBefore ls j).closed = false

/-- Whether the line `k` begins the constructor of the class `name`, if none above it does. -/
def beginsConstructorAt (name : Option Text) (ls : List Text) (k : Nat) : Bool :=
  depthBefore ls k == 1
    && name.any fun n => (OpenClass.afterConst (lineAt ls k)).startsWith (n ++ ['('])

/-- Whether the constructor has begun on one of the lines 1 to `k`. -/
def constructorSeen (name : Option Text) (ls : List Text) (k : Nat) : Bool :=
  (range k).any fun j => beginsConstructorAt name ls (j + 1)

/-- The line `k` starts directly in the body, leaves no round bracket open and has the shape of a
    field. -/
def FieldShaped (name : Option Text) (ls : List Text) (k : Nat) : Prop :=
  0 < k ∧ depthBefore ls k = 1 ∧ (bracketsBefore ls (k + 1)).paren = 0
    ∧ isFieldLine name (constructorSeen name ls k) (lineAt ls k) = true

instance (name : Option Text) (ls : List Text) (k : Nat) : Decidable (FieldShaped name ls k) :=
  inferInstanceAs (Decidable (_ ∧ _))

/-- The field that the line `k` declares, the class line being the line `s` of the file. -/
def fieldAt? (s : Int) (name : Option Text) (ls : List Text) (k : Nat) : Option Field :=
  if FieldShaped name ls k then
    Field.ofLine? (lineAt ls k) (s + k) (some (lineAt ls (k - 1)))
  else none

/-- The fields of the first `k` lines. -/
def fieldsOf (s : Int) (name : Option Text) (ls : List Text) (k : Nat) : List Field :=
  (range k).filterMap (fieldAt? s name ls)

section

variable {name : Option Text} {ls rest : List Text} {line : Text} {k : Nat}

theorem bracketsBefore_succ (h : ls.drop k = line :: rest) :
    bracketsBefore ls (k + 1) = (bracketsBefore ls k).feed line := feedAll_take_succ h

theorem constructorSeen_succ (name : Option Text) (ls : List Text) (k : Nat) :
    constructorSeen name ls (k + 1)
      = (constructorSeen name ls k || beginsConstructorAt name ls (k + 1)) := by
  simp [constructorSeen, range_succ]

/-- As long as the body is not open there is no constructor. -/
theorem constructorSeen_of_flat (h : ∀ j, j ≤ k → depthBefore ls j ≤ 0) :
    constructorSeen name ls k = false := by
  rw [constructorSeen, any_eq_false]
  intro j hj
  have := h (j + 1) (mem_range.mp hj)
  have hne : depthBefore ls (j + 1) ≠ 1 := by omega
  simp [beginsConstructorAt, hne]

variable {s : Int}

theorem fieldsOf_of_flat (h : ∀ j, j ≤ k → depthBefore ls j ≤ 0) : fieldsOf s name ls k = [] := by
  rw [fieldsOf, filterMap_eq_nil_iff]
  intro j hj
  refine if_neg fun hf => ?_
  have := h j (Nat.le_of_lt (mem_range.mp hj))
  have := hf.2.1
  omega

theorem fieldsOf_succ (s : Int) (name : Option Text) (ls : List Text) (k : Nat) :
    fieldsOf s name ls (k + 1) = fieldsOf s name ls k ++ (fieldAt? s name ls k).toList := by
  rw [fieldsOf, range_succ, filterMap_append, ← fieldsOf]
  cases h : fieldAt? s name ls k <;> simp [h]

/-- The field of a line has its number. -/
theorem line_of_fieldAt? {f : Field} (h : fieldAt? s name ls k = some f) :
    (f.line - s).toNat = k := by
  unfold fieldAt? at h
  split at h
  · unfold Field.ofLine? at h
    dsimp only at h
    split at h
    · injection h with h
      rw [← h]
      show (s + k - s).toNat = k
      omega
    · cases h
  · cases h

theorem not_mem_of_isFieldLine {seen : Bool} (h : isFieldLine name seen line) :
    '{' ∉ line ∧ '}' ∉ line := by
  simp only [isFieldLine, Bool.and_eq_true, Bool.not_eq_true'] at h
  have hs := h.1.1.1.1.2
  simp only [Text.hasOneOf, memberSymbols, any_cons, Bool.or_eq_false_iff] at hs
  exact ⟨fun hm => by simp [Text.has_singleton_iff.mpr hm] at hs,
    fun hm => by simp [Text.has_singleton_iff.mpr hm] at hs⟩

theorem FieldShaped.depth_after (h : FieldShaped name ls k) (hk : ls.drop k = line :: rest) :
    (bracketsBefore ls (k + 1)).curly = 1 := by
  obtain ⟨-, hdepth, -, hshape⟩ := h
  rw [lineAt_of_drop hk] at hshape
  obtain ⟨hopen, hclose⟩ := not_mem_of_isFieldLine hshape
  rw [bracketsBefore_succ hk]
  exact (Brackets.feed_of_not_mem hopen hclose).1.trans hdepth

end

/-! ## §2. A class that is being read. -/

namespace OpenClass

/-- What is known of an open class that began on the line `s` of the file, when the first `k` of its
    lines have been read. -/
structure Follows (o : OpenClass) (s : Nat) (ls : List Text) (k : Nat) : Prop where
  first_eq : o.found.first = some (s : Int)
  brackets_eq : o.brackets = bracketsBefore ls k
  /-- The body is not open in the head, nor was it above. -/
  in_head : o.phase = .head → o.brackets.opened = false ∧ ∀ j, j ≤ k → depthBefore ls j ≤ 0
  in_constructor : o.phase = .constructor → o.brackets.paren ≠ 0
  seen_eq : o.found.constructorFirst.isSome = constructorSeen o.found.head.name ls (k - 1)
  fields_eq : o.found.fields = fieldsOf s o.found.head.name ls k

variable {o o₁ : OpenClass} {s k : Nat} {ls rest : List Text} {line : Text} {classLine : Bool}

theorem follows_start (h : start s line = .ok o) : o.Follows s ls 0 := by
  obtain ⟨d, -, h⟩ := bind_eq_ok.mp h
  injection h with h
  subst h
  refine ⟨rfl, rfl, fun _ => ⟨rfl, fun j hj => ?_⟩, by simp, rfl, rfl⟩
  obtain rfl : j = 0 := by omega
  exact Int.le_refl 0

/-- What is known of it when the head and the constructor have been looked for on the line `k`, and
    the line is still to be kept. -/
structure Midway (o : OpenClass) (s : Nat) (ls : List Text) (k : Nat) : Prop where
  first_eq : o.found.first = some (s : Int)
  brackets_eq : o.brackets = bracketsBefore ls (k + 1)
  in_head : o.phase = .head → o.brackets.opened = false ∧ ∀ j, j ≤ k + 1 → depthBefore ls j ≤ 0
  in_constructor : o.phase = .constructor → o.brackets.paren ≠ 0
  seen_eq : o.found.constructorFirst.isSome = constructorSeen o.found.head.name ls k
  fields_eq : o.found.fields = fieldsOf s o.found.head.name ls k

/-- With the head looked for on the next line, all is as before but for the brackets.  If the name
    is read anew there was neither a constructor nor a field above, whatever the name. -/
theorem Follows.readHead (h : o.Follows s ls k) (hk : ls.drop k = line :: rest)
    (h₁ : readHead { o with brackets := o.brackets.feed line }
      (s + k : Nat) line classLine
      = .ok o₁) :
    o₁.found.first = some (s : Int) ∧ o₁.brackets = bracketsBefore ls (k + 1)
      ∧ (o₁.phase = .head → o₁.brackets.opened = false ∧ ∀ j, j ≤ k + 1 → depthBefore ls j ≤ 0)
      ∧ o₁.found.constructorFirst.isSome = constructorSeen o₁.found.head.name ls (k - 1)
      ∧ o₁.found.fields = fieldsOf s o₁.found.head.name ls k := by
  have hbrackets : o.brackets.feed line = bracketsBefore ls (k + 1) := by
    rw [h.brackets_eq, bracketsBefore_succ hk]
  rcases readHead_cases h₁ with ⟨hp, rfl⟩ | ⟨hp, hb, rfl⟩ | ⟨hp, hb, l, d, rfl, -⟩
  · exact ⟨h.first_eq, hbrackets, fun hp' => absurd hp' hp, h.seen_eq, h.fields_eq⟩
  · refine ⟨h.first_eq, hbrackets, fun _ => ⟨hb, fun j hj => ?_⟩, h.seen_eq, h.fields_eq⟩
    have hflat := (h.in_head hp).2
    rcases Nat.lt_or_ge k j with hlt | hge
    · obtain rfl : j = k + 1 := by omega
      have hle := Int.le_trans (Brackets.feed_curly_le hb)
        (show o.brackets.curly ≤ 0 by rw [h.brackets_eq]; exact hflat k (Nat.le_refl k))
      rw [hbrackets] at hle
      exact hle
    · exact hflat j hge
  · have hflat := (h.in_head hp).2
    have hseen : ∀ name, constructorSeen name ls (k - 1) = false := fun name =>
      constructorSeen_of_flat fun j hj => hflat j (by omega)
    refine ⟨h.first_eq, hbrackets, by simp, ?_, ?_⟩
    · rw [hseen]
      exact h.seen_eq.trans (hseen _)
    · rw [fieldsOf_of_flat hflat]
      exact h.fields_eq.trans (fieldsOf_of_flat hflat)

/-- What the constructor steps do to the phase and the constructor. -/
theorem constructor_steps_seen (o : OpenClass) (n depth : Int) (line : Text) (classLine : Bool) :
    ((o.enterConstructor n depth line classLine).readConstructor
      n line).found.constructorFirst.isSome
        = (o.found.constructorFirst.isSome || (!classLine && o.beginsConstructor depth line))
      ∧ (((o.enterConstructor n depth line classLine).readConstructor n line).phase = .constructor →
        ((o.enterConstructor n depth line classLine).readConstructor n line).brackets.paren
          ≠ 0) := by
  cases he : !classLine && o.beginsConstructor depth line with
  | true =>
    rw [enterConstructor, if_pos he, readConstructor, if_pos rfl]
    split
    next => simp
    next hparen => exact ⟨by simp, fun _ hz => hparen (by simpa using hz)⟩
  | false =>
    rw [enterConstructor, if_neg (by simp [he])]
    unfold readConstructor
    split
    next =>
      split
      next => simp
      next hparen => exact ⟨by simp, fun _ hz => hparen (by simpa using hz)⟩
    next hp => exact ⟨by simp, fun hp' => absurd hp' hp⟩

/-- The constructor is seen from the line on that begins it. -/
theorem constructorSeen_step (hk : ls.drop k = line :: rest) (hcl : classLine = decide (k = 0))
    (hseen : o.found.constructorFirst.isSome = constructorSeen o.found.head.name ls (k - 1)) :
    (o.found.constructorFirst.isSome
        || (!classLine && o.beginsConstructor (bracketsBefore ls k).curly line))
      = constructorSeen o.found.head.name ls k := by
  cases k with
  | zero => simpa [hcl] using hseen
  | succ k =>
    rw [Nat.add_sub_cancel] at hseen
    rw [constructorSeen_succ, beginsConstructorAt, lineAt_of_drop hk, hcl, beginsConstructor,
      ← hseen]
    cases hs : o.found.constructorFirst with
    | some a => rfl
    | none => simp [depthBefore, bracketsBefore]

/-- After the head and the constructor were looked for. -/
theorem Follows.midway (h : o.Follows s ls k) (hk : ls.drop k = line :: rest)
    (hcl : classLine = decide (k = 0))
    (h₁ : OpenClass.readHead { o with brackets := o.brackets.feed line }
      (s + k : Nat) line classLine
      = .ok o₁) :
    ((o₁.enterConstructor (s + k : Nat) o.brackets.curly line classLine).readConstructor
      (s + k : Nat) line).Midway s ls k := by
  obtain ⟨hfirst, hbrackets, hhead, hseen, hfields⟩ := h.readHead hk h₁
  obtain ⟨hseen₂, hcon⟩ := constructor_steps_seen o₁ (s + k : Nat) o.brackets.curly line classLine
  obtain ⟨p, a, b, t, he, hphase⟩ :=
    constructor_steps_frame o₁ (s + k : Nat) o.brackets.curly line classLine
  rw [h.brackets_eq, constructorSeen_step hk hcl hseen, ← h.brackets_eq] at hseen₂
  rw [he] at hseen₂ hcon ⊢
  refine ⟨hfirst, hbrackets, fun hp => ?_, hcon, hseen₂, hfields⟩
  by_cases hp₁ : o₁.phase = .head
  · exact hhead hp₁
  · exact absurd hp (hphase hp₁)

/-- When the head and the constructor have been looked for, the line declares a field exactly if it
    has the shape of one. -/
theorem Midway.declaresField_eq (h : o.Midway s ls k) (hk : ls.drop k = line :: rest)
    (hcl : classLine = decide (k = 0)) :
    o.declaresField line classLine = decide (FieldShaped o.found.head.name ls k) := by
  rw [Bool.eq_iff_iff, decide_eq_true_iff]
  simp only [declaresField, Bool.and_eq_true, beq_iff_eq, Bool.not_eq_true', hcl,
    decide_eq_false_iff_not, h.seen_eq]
  constructor
  -- a line of this shape has no braces, so the depth in front of it is that after it
  · rintro ⟨⟨⟨⟨-, hparen⟩, hcurly⟩, hpos⟩, hshape⟩
    obtain ⟨hopen, hclose⟩ := not_mem_of_isFieldLine hshape
    rw [h.brackets_eq] at hparen hcurly
    refine ⟨by omega, ?_, hparen, by rw [lineAt_of_drop hk]; exact hshape⟩
    rw [bracketsBefore_succ hk, (Brackets.feed_of_not_mem hopen hclose).1] at hcurly
    exact hcurly
  · intro hf
    have hcurly : o.brackets.curly = 1 := by rw [h.brackets_eq]; exact hf.depth_after hk
    have hparen : o.brackets.paren = 0 := by rw [h.brackets_eq]; exact hf.2.2.1
    refine ⟨⟨⟨⟨?_, hparen⟩, hcurly⟩, by have := hf.1; omega⟩, ?_⟩
    · cases hp : o.phase with
      | head =>
        have hflat := (h.in_head hp).2 (k + 1) (Nat.le_refl _)
        have hdepth : depthBefore ls (k + 1) = 1 := hf.depth_after hk
        omega
      | body => rfl
      | constructor => exact absurd hparen (h.in_constructor hp)
    · have := hf.2.2.2
      rwa [lineAt_of_drop hk] at this

/-- A line that is kept brings its field. -/
theorem Midway.readField_eq {previous : Option Text} (h : o.Midway s ls k)
    (hk : ls.drop k = line :: rest) (hcl : classLine = decide (k = 0))
    (hprev : 0 < k → previous = some (lineAt ls (k - 1))) :
    ((o.keepLine line).readField (s + k : Nat) previous line classLine)
      = { o.keepLine line with found := { (o.keepLine line).found with
          fields := fieldsOf s o.found.head.name ls (k + 1) } } := by
  have hdecl : (o.keepLine line).declaresField line classLine
      = decide (FieldShaped o.found.head.name ls k) := h.declaresField_eq hk hcl
  rw [readField, hdecl, fieldsOf_succ, ← h.fields_eq, fieldAt?]
  by_cases hf : FieldShaped o.found.head.name ls k
  · rw [if_pos (by simpa using hf), if_pos hf, lineAt_of_drop hk, hprev hf.1]
    rfl
  · rw [if_neg (by simpa using hf), if_neg hf, Option.toList_none, append_nil]
    rfl

/-- **One line of a class**: what it reports has the fields of the lines up to it, and what it
    leaves open goes on to follow them. -/
theorem Follows.read {previous : Option Text} {done : List SourceClass} {next : Option OpenClass}
    (h : o.Follows s ls k) (hk : ls.drop k = line :: rest) (hcl : classLine = decide (k = 0))
    (hprev : 0 < k → previous = some (lineAt ls (k - 1)))
    (hread : o.read (s + k : Nat) previous line classLine = .ok (done, next)) :
    (∀ c ∈ done, (bracketsBefore ls (k + 1)).closed ∧ c.first = some (s : Int)
        ∧ c.fields = fieldsOf s c.head.name ls (k + 1))
      ∧ ∀ o' ∈ next, (bracketsBefore ls (k + 1)).closed = false ∧ o'.Follows s ls (k + 1) := by
  obtain ⟨o₁, o₂, h₁, rfl, hend⟩ := read_cases hread
  have hm := h.midway hk hcl h₁
  generalize (o₁.enterConstructor (s + k : Nat) o.brackets.curly line classLine).readConstructor
    (s + k : Nat) line = o₂ at hm hend
  rw [hm.brackets_eq] at hend
  rcases hend with ⟨hclosed, rfl, rfl⟩ | ⟨hclosed, rfl, rfl⟩
  · refine ⟨fun c hc => ?_, by simp⟩
    -- the line that closes the class is no field
    have hnone : fieldAt? s o₂.found.head.name ls k = none := by
      refine if_neg fun hf => ?_
      have hcurly := hf.depth_after hk
      simp [Brackets.closed, hcurly] at hclosed
    obtain ⟨-, rfl⟩ := mem_report.mp hc
    refine ⟨hclosed, hm.first_eq, hm.fields_eq.trans ?_⟩
    change _ = fieldsOf s o₂.found.head.name ls (k + 1)
    rw [fieldsOf_succ, hnone, Option.toList_none, append_nil]
  · refine ⟨by simp, fun o' ho' => ⟨hclosed, ?_⟩⟩
    rw [← Option.mem_some.mp ho', hm.readField_eq hk hcl hprev]
    exact ⟨hm.first_eq, hm.brackets_eq, hm.in_head, hm.in_constructor, hm.seen_eq, rfl⟩

end OpenClass

/-! ## §3. Files. -/

/-- The class begins on the line `s`, has `k` lines, and its fields are those of these lines. -/
structure SourceClass.ReadOn (c : SourceClass) (s : Nat) (ls : List Text) (k : Nat) : Prop where
  first_eq : c.first = some (s : Int)
  lineOf_iff : ∀ j, LineOf ls j ↔ j < k
  fields_eq : c.fields = fieldsOf s c.head.name ls k

/-- The open class began on the line `s`, of which the lines `ls` begin, and the first `k` of them
    belong to it. -/
structure OpenClass.OpenOn (o : OpenClass) (s : Nat) (ls : List Text) (k : Nat) : Prop where
  follows : o.Follows s ls k
  lineOf : ∀ j, j < k → LineOf ls j
  not_closed : (bracketsBefore ls k).closed = false

section

variable {o : OpenClass} {s k : Nat} {ls rest : List Text} {line : Text}

/-- A line is of the class if it is its first one or if no class begins on it, and the line above
    does not end the class. -/
theorem OpenClass.OpenOn.lineOf_lt_succ (h : o.OpenOn s ls k) (hk : ls.drop k = line :: rest)
    (hline : 0 < k → isClassLine line = false) : ∀ j, j < k + 1 → LineOf ls j := by
  intro j hj
  rcases Nat.lt_or_ge j k with hlt | hge
  · exact h.lineOf j hlt
  · obtain rfl : j = k := by omega
    refine ⟨lt_length_of_drop hk, fun i hi hij => ?_⟩
    rcases Nat.lt_or_ge i j with hlt | hge
    · exact (h.lineOf i hlt).2 i hi (Nat.le_refl i)
    · obtain rfl : i = j := by omega
      exact ⟨by rw [lineAt_of_drop hk]; exact hline hi, h.not_closed⟩

/-- The lines of a class are not more than those in front of one that is not of it. -/
theorem lineOf_iff_lt (h : ∀ j, j < k → LineOf ls j) (hk : ¬ LineOf ls k) (j : Nat) :
    LineOf ls j ↔ j < k := by
  refine ⟨fun hj => ?_, h j⟩
  rcases Nat.lt_or_ge j k with hlt | hge
  · exact hlt
  · exact absurd ⟨Nat.lt_of_le_of_lt hge hj.1, fun i hi hik => hj.2 i hi (Nat.le_trans hik hge)⟩ hk

theorem OpenClass.OpenOn.readOn (h : o.OpenOn s ls k) (hk : ¬ LineOf ls k) :
    o.found.ReadOn s ls k :=
  ⟨h.follows.first_eq, lineOf_iff_lt h.lineOf hk, h.follows.fields_eq⟩

/-- What the next line of a class reports and leaves open. -/
theorem OpenClass.OpenOn.read {previous : Option Text} {done : List SourceClass}
    {next : Option OpenClass} {classLine : Bool} (h : o.OpenOn s ls k)
    (hk : ls.drop k = line :: rest) (hcl : classLine = decide (k = 0))
    (hline : 0 < k → isClassLine line = false)
    (hprev : 0 < k → previous = some (lineAt ls (k - 1)))
    (hread : o.read (s + k : Nat) previous line classLine = .ok (done, next)) :
    (∀ c ∈ done, c.ReadOn s ls (k + 1)) ∧ ∀ o' ∈ next, o'.OpenOn s ls (k + 1) := by
  obtain ⟨hdone, hnext⟩ := h.follows.read hk hcl hprev hread
  have hlines := h.lineOf_lt_succ hk hline
  constructor
  · intro c hc
    obtain ⟨hclosed, hfirst, hfields⟩ := hdone c hc
    refine ⟨hfirst, lineOf_iff_lt hlines fun hl => ?_, hfields⟩
    have hopen := (hl.2 (k + 1) (Nat.succ_pos k) (Nat.le_refl _)).2
    simp [hclosed] at hopen
  · intro o' ho'
    obtain ⟨hclosed, hfollows⟩ := hnext o' ho'
    exact ⟨hfollows, hlines, hclosed⟩

end

/-- The class is read on lines of the file. -/
def SourceClass.ReadIn (c : SourceClass) (all : List Text) : Prop :=
  ∃ s k, 1 ≤ s ∧ c.ReadOn s (all.drop (s - 1)) k

/-- What is known of an open class in front of the line `n` of a file. -/
def OpenClass.OpenIn (o : OpenClass) (all : List Text) (n : Nat) (previous : Option Text) : Prop :=
  ∃ s k, 1 ≤ s ∧ 0 < k ∧ n = s + k ∧ previous = some (lineAt (all.drop (s - 1)) (k - 1))
    ∧ o.OpenOn s (all.drop (s - 1)) k

section

variable {all rest : List Text} {n : Nat} {previous : Option Text} {line : Text}
  {current next : Option OpenClass} {done : List SourceClass}

/-- A class is given up where no further line is of it. -/
theorem readIn_of_abandoned (hcur : ∀ o ∈ current, o.OpenIn all n previous)
    (hend : ∀ line rest, all.drop (n - 1) = line :: rest → isClassLine line) :
    ∀ c ∈ abandoned current, c.ReadIn all := by
  intro c hc
  obtain ⟨o, rfl, rfl⟩ := mem_abandoned hc
  obtain ⟨s, k, hs, hk, rfl, -, hopen⟩ := hcur o rfl
  refine ⟨s, k, hs, hopen.readOn fun hl => ?_⟩
  have hdrop : all.drop (s + k - 1) = (all.drop (s - 1)).drop k := by
    rw [drop_drop]
    congr 1
    omega
  obtain ⟨line, rest, hrest⟩ : ∃ line rest, (all.drop (s - 1)).drop k = line :: rest :=
    exists_cons_of_ne_nil fun hnil =>
      absurd hl.1 (Nat.not_lt.mpr (drop_eq_nil_iff.mp hnil))
  have hclass := (hl.2 k hk (Nat.le_refl k)).1
  rw [lineAt_of_drop hrest, hend line rest (hdrop.trans hrest)] at hclass
  cases hclass

/-- One line of a file. -/
theorem LineStep.readIn (h : LineStep n previous line current done next) (hn : 1 ≤ n)
    (hall : all.drop (n - 1) = line :: rest) (hcur : ∀ o ∈ current, o.OpenIn all n previous) :
    (∀ c ∈ done, c.ReadIn all) ∧ ∀ o ∈ next, o.OpenIn all (n + 1) (some line) := by
  cases h with
  | begins hc hs hr =>
    -- a class line ends the class above it, and opens one without lines
    have hopen : OpenClass.OpenOn _ n (all.drop (n - 1)) 0 :=
      ⟨OpenClass.follows_start hs, fun j hj => by omega, rfl⟩
    obtain ⟨hdone, hnext⟩ := hopen.read (by simpa using hall)
      rfl (by omega) (by omega) (by simpa using hr)
    refine ⟨fun c hmem => ?_, fun o ho => ⟨n, 1, hn, by omega, rfl, ?_, hnext o ho⟩⟩
    · rcases mem_append.mp hmem with hmem | hmem
      · refine readIn_of_abandoned hcur (fun line' rest' hrest => ?_) c hmem
        rw [hall] at hrest
        injection hrest with hl
        rw [← hl]
        exact hc
      · exact ⟨n, 1, hn, hdone c hmem⟩
    · rw [lineAt_of_drop (k := 0) (by simpa using hall)]
  | inside hc hr =>
    obtain ⟨s, k, hs, hk, rfl, hprev, hopen⟩ := hcur _ rfl
    have hdrop : (all.drop (s - 1)).drop k = line :: rest := by
      rw [← hall, drop_drop]
      congr 1
      omega
    obtain ⟨hdone, hnext⟩ := hopen.read hdrop (by simp; omega) (fun _ => hc) (fun _ => hprev) hr
    refine ⟨fun c hmem => ⟨s, k + 1, hs, hdone c hmem⟩, fun o ho => ?_⟩
    refine ⟨s, k + 1, hs, by omega, by omega, ?_, hnext o ho⟩
    rw [Nat.add_sub_cancel, lineAt_of_drop hdrop]
  | outside hc => exact ⟨by simp, by simp⟩

end

/-- Every class has the fields of its lines. -/
theorem scanLines_readIn {all : List Text} (ls : List Text) (n : Nat) (previous : Option Text)
    (current : Option OpenClass) (cs : List SourceClass) (hn : 1 ≤ n)
    (hall : all.drop (n - 1) = ls) (hcur : ∀ o ∈ current, o.OpenIn all n previous)
    (h : scanLines n previous current ls = .ok cs) : ∀ c ∈ cs, c.ReadIn all := by
  induction ls generalizing n previous current cs with
  | nil =>
    injection h with h
    exact h ▸ readIn_of_abandoned hcur (by simp [hall])
  | cons line ls ih =>
    intro c hc
    obtain ⟨done, next, later, hstep, hlater, rfl⟩ := scanLines_cons_eq_ok.mp h
    obtain ⟨hdone, hnext⟩ := hstep.readIn hn hall hcur
    rcases mem_append.mp hc with hc | hc
    · exact hdone c hc
    · refine ih (n + 1) (some line) next later (by omega) ?_ hnext hlater c hc
      rw [← drop_succ_of_drop hall]
      congr 1
      omega

/-- **The fields of every class of a file are those of its lines.** -/
theorem scan_readIn {text : Text} {cs : List SourceClass} (h : scan text = .ok cs) :
    ∀ c ∈ cs, c.ReadIn text.lines :=
  scanLines_readIn text.lines 1 none none cs (Nat.le_refl 1) rfl (by simp) h

end DartData
