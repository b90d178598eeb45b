import DartData.Proofs.Plain.Head
import DartData.Proofs.Scan.Fields

/-!
# Fields and the name of the class

The name of a class enters the scanner in two tests: a line that begins with the name and a round
bracket begins the constructor, and a line that begins with the name is no field.  The second test
does not ask where the name ends, so a field is lost if its type begins with the name of the class.

Under two names that do not stand in its body, a class has the same fields exactly if no field that
is found under one name is lost to the other one in this way (`scan_renamed_iff`).  All else that is
found in the file is the same.
-/

namespace DartData

open List Text

/-! ## §1. Below an open class. -/

/-- The classes that are found besides an open one, of which only the brackets matter. -/
def scanAfter (number : Nat) (b : Brackets) : List Text → Except Fault (List SourceClass)
  | [] => .ok []
  | line :: rest =>
    if isClassLine line then scanLines number none none (line :: rest)
    else if (b.feed line).closed then scanLines (number + 1) (some line) none rest
    else scanAfter (number + 1) (b.feed line) rest

theorem scanAfter_inside {line : Text} (hc : isClassLine line = false) (n : Nat) (b : Brackets)
    (rest : List Text) :
    scanAfter n b (line :: rest)
      = if (b.feed line).closed then scanLines (n + 1) (some line) none rest
        else scanAfter (n + 1) (b.feed line) rest := by
  rw [scanAfter, if_neg (by simp [hc])]

/-- Below its head, a class is read without a fault, and it is the brackets that end it. -/
theorem OpenClass.read_below_head {o : OpenClass} (hp : o.phase ≠ .head) (hl : o.listed)
    (n : Int) (previous : Option Text) (line : Text) :
    ∃ o' : OpenClass, o'.brackets = o.brackets.feed line ∧ o'.phase ≠ .head ∧ o'.listed
      ∧ o'.found.head = o.found.head ∧ o'.found.first = o.found.first
      ∧ o.read n previous line false
        = if (o.brackets.feed line).closed then .ok ([o'.close n line], none)
          else .ok ([], some ((o'.keepLine line).readField n previous line false)) := by
  obtain ⟨p, a, b, t, he, hphase⟩ := constructor_steps_frame
    { o with brackets := o.brackets.feed line } n o.brackets.curly line false
  obtain ⟨o', ho'⟩ : ∃ o', (OpenClass.enterConstructor { o with brackets := o.brackets.feed line } n
    o.brackets.curly line false).readConstructor n line = o' := ⟨_, rfl⟩
  rw [ho'] at he
  have hbrackets : o'.brackets = o.brackets.feed line := by rw [he]
  have hlisted : o'.listed := by rw [he]; exact hl
  refine ⟨o', hbrackets, by rw [he]; exact hphase hp, hlisted, by rw [he], by rw [he], ?_⟩
  rw [read_eq hp ho' previous, hbrackets, report, if_pos hlisted]

theorem OpenClass.readField_frame (o : OpenClass) (n : Int) (previous : Option Text) (line : Text)
    (classLine : Bool) : ∃ fs, o.readField n previous line classLine
      = { o with found := { o.found with fields := fs } } := by
  unfold readField
  split
  · exact ⟨_, rfl⟩
  · exact ⟨_, rfl⟩

/-- **An open class comes first, and does not matter to the others.** -/
theorem scanLines_open (ls : List Text) (n : Nat) (previous : Option Text) (o : OpenClass)
    (hp : o.phase ≠ .head) (hl : o.listed) :
    ∃ c, c.head = o.found.head ∧ c.first = o.found.first
      ∧ scanLines n previous (some o) ls = (scanAfter n o.brackets ls).map (c :: ·) := by
  induction ls generalizing n previous o with
  | nil =>
    refine ⟨o.found, rfl, rfl, ?_⟩
    rw [scanLines, abandoned, OpenClass.report, if_pos hl]
    rfl
  | cons line rest ih =>
    cases hc : isClassLine line with
    | true =>
      refine ⟨o.found, rfl, rfl, ?_⟩
      rw [scanLines_abandon hc, scanAfter, if_pos hc, abandoned, OpenClass.report, if_pos hl]
      rfl
    | false =>
      -- below the head no line fails, and the head and the first line stay
      obtain ⟨o', hb, hp', hl', hh, hf, hread⟩ :=
        OpenClass.read_below_head hp hl n previous line
      rw [scanLines_inside hc, hread, scanAfter_inside hc]
      cases hclosed : (o.brackets.feed line).closed with
      | true =>
        refine ⟨o'.close n line, hh, hf, ?_⟩
        rw [if_pos rfl, if_pos rfl]
        show (scanLines (n + 1) (some line) none rest >>= _) = _
        cases scanLines (n + 1) (some line) none rest <;> rfl
      | false =>
        obtain ⟨fs, hfs⟩ := (o'.keepLine line).readField_frame n previous line false
        obtain ⟨c, hch, hcf, hscan⟩ := ih (n + 1) (some line)
          ((o'.keepLine line).readField n previous line false) (by rw [hfs]; exact hp')
          (by rw [hfs]; exact hl')
        have hb' : ((o'.keepLine line).readField n previous line false).brackets
            = o.brackets.feed line := by rw [hfs]; exact hb
        rw [hfs] at hch hcf
        refine ⟨c, hch.trans hh, hcf.trans hf, ?_⟩
        rw [if_neg (by simp), if_neg (by simp)]
        show (scanLines (n + 1) (some line) _ rest >>= _) = _
        rw [hscan, hb']
        cases scanAfter (n + 1) (o.brackets.feed line) rest <;> rfl

/-! ## §2. Names in lines. -/

/-- The name stands in the text as a whole identifier. -/
def Text.HasIdentifier (t name : Text) : Prop :=
  ∃ k, k < t.length + 1 ∧ startsWith (t.drop k) name = true
    ∧ (t.take k).getLast?.any isWord = false
    ∧ ((t.drop k).drop name.length).head?.any isWord = false

instance (t name : Text) : Decidable (t.HasIdentifier name) := inferInstanceAs (Decidable (∃ _, _))

/-- The first identifier of the line begins with the name and goes on after it. -/
def BeginsLonger (name line : Text) : Prop :=
  line.trimStart.startsWith name = true ∧ (line.trimStart.drop name.length).head?.any isWord = true

instance (name line : Text) : Decidable (BeginsLonger name line) :=
  inferInstanceAs (Decidable (_ ∧ _))

section

variable {name line : Text}

theorem hasIdentifier_append {a t : Text} (ha : a.getLast?.any isWord = false)
    (ht : t.startsWith name) (hnext : (t.drop name.length).head?.any isWord = false) :
    HasIdentifier (a ++ t) name := by
  refine ⟨a.length, by rw [length_append]; omega, ?_, ?_, ?_⟩
  · rwa [drop_left]
  · rwa [take_left]
  · rwa [drop_left]

/-- The blanks in front of a line. -/
theorem exists_blanks (t : Text) :
    ∃ a : Text, t = a ++ t.trimStart ∧ a.getLast?.any isWord = false := by
  refine ⟨t.takeWhile isBlank, takeWhile_append_dropWhile.symm, ?_⟩
  cases hl : (t.takeWhile isBlank).getLast? with
  | none => rfl
  | some ch =>
    have hblank : isBlank ch :=
      all_eq_true.mp all_takeWhile ch (mem_of_getLast? hl)
    show isWord ch = false
    cases hw : isWord ch with
    | false => rfl
    | true => rw [isBlank_of_isWord hw] at hblank; cases hblank

/-- What stands in front of a constructor does not go over into its name. -/
theorem exists_before_afterConst (line : Text) :
    ∃ a, line = a ++ OpenClass.afterConst line ∧ a.getLast?.any isWord = false := by
  obtain ⟨a, ha, hword⟩ := exists_blanks line
  unfold OpenClass.afterConst
  dsimp only
  split
  next hconst =>
    obtain ⟨r, hr⟩ := List.isPrefixOf_iff_prefix.mp hconst
    obtain ⟨b, hb, hb'⟩ := exists_blanks (line.trimStart.drop 6)
    refine ⟨a ++ "const " ++ b, ?_, ?_⟩
    · have hdrop : line.trimStart = "const " ++ line.trimStart.drop 6 := by
        rw [← hr]
        rfl
      rw [append_assoc, ← hb, append_assoc, ← hdrop]
      exact ha
    · rw [getLast?_append, getLast?_append]
      cases hl : b.getLast? with
      | none => rfl
      | some ch => rwa [hl] at hb'
  next => exact ⟨a, ha, hword⟩

/-- A line that begins the constructor has the name as an identifier. -/
theorem hasIdentifier_of_beginsConstructor
    (h : (OpenClass.afterConst line).startsWith (name ++ ['('])) :
    line.HasIdentifier name := by
  obtain ⟨a, ha, hword⟩ := exists_before_afterConst line
  obtain ⟨r, hr⟩ := List.isPrefixOf_iff_prefix.mp h
  rw [ha, ← hr]
  refine hasIdentifier_append hword ?_ ?_
  · rw [append_assoc]
    exact List.isPrefixOf_iff_prefix.mpr (prefix_append _ _)
  · rw [append_assoc, drop_left]
    rfl

/-- A line that begins with the name has it as an identifier, or begins with a longer one. -/
theorem beginsLonger_iff (hfree : ¬ line.HasIdentifier name) :
    BeginsLonger name line ↔ line.trimStart.startsWith name := by
  refine ⟨fun h => h.1, fun h => ⟨h, ?_⟩⟩
  obtain ⟨a, ha, hword⟩ := exists_blanks line
  cases hnext : (line.trimStart.drop name.length).head?.any isWord with
  | true => rfl
  | false =>
    rw [ha] at hfree
    exact absurd (hasIdentifier_append hword h hnext) hfree

end

/-! ## §3. The fields under two names. -/

/-- Two class lines, of the classes `name₁` and `name₂`, between which the lines below cannot tell:
    they open the same brackets, and neither name stands below. -/
structure Renames (h₁ h₂ name₁ name₂ : Text) (more : List Text) : Prop where
  brackets_eq : Brackets.feed {} h₁ = Brackets.feed {} h₂
  marks_eq : marksEnum h₁ = marksEnum h₂
  free₁ : ∀ j, ¬ Text.HasIdentifier (lineAt more j) name₁
  free₂ : ∀ j, ¬ Text.HasIdentifier (lineAt more j) name₂

theorem Renames.symm {h₁ h₂ name₁ name₂ : Text} {more : List Text}
    (h : Renames h₁ h₂ name₁ name₂ more) : Renames h₂ h₁ name₂ name₁ more :=
  ⟨h.brackets_eq.symm, h.marks_eq.symm, h.free₂, h.free₁⟩

section

variable {name : Text} {s : Int} {k : Nat} {f : Field}

/-- Where the name is no identifier there is no constructor. -/
theorem constructorSeen_of_free {h : Text} {more : List Text}
    (hfree : ∀ j, ¬ HasIdentifier (lineAt more j) name) (k : Nat) :
    constructorSeen (some name) (h :: more) k = false := by
  rw [constructorSeen, any_eq_false]
  intro j _ hbegins
  rw [beginsConstructorAt, Bool.and_eq_true] at hbegins
  exact hfree j (hasIdentifier_of_beginsConstructor hbegins.2)

theorem isFieldLine_rename {name' line : Text} {seen : Bool}
    (h : isFieldLine (some name) seen line) (hname : line.trimStart.startsWith name' = false) :
    isFieldLine (some name') seen line := by
  simp only [isFieldLine, Bool.and_eq_true, Option.getD_some] at h ⊢
  exact ⟨⟨⟨⟨⟨⟨by simp [hname], h.1.1.1.1.1.2⟩, h.1.1.1.1.2⟩, h.1.1.1.2⟩, h.1.1.2⟩, h.1.2⟩, h.2⟩

/-- Of the line above, only the mark of an enumeration matters to a field. -/
theorem ofLine?_previous {previous previous' : Option Text}
    (h : previous.any marksEnum = previous'.any marksEnum) (line : Text) (n : Int) :
    Field.ofLine? line n previous = Field.ofLine? line n previous' := by
  rw [Field.ofLine?, Field.ofLine?, h]

/-- The line of a field does not begin with the name of the class, nor is it the class line. -/
theorem not_startsWith_of_fieldAt? {ls : List Text} (h : fieldAt? s (some name) ls k = some f) :
    0 < k ∧ (lineAt ls k).trimStart.startsWith name = false := by
  unfold fieldAt? at h
  split at h
  next hshape =>
    refine ⟨hshape.1, ?_⟩
    have hline := hshape.2.2.2
    simp only [isFieldLine, Bool.and_eq_true, Bool.not_eq_true'] at hline
    exact hline.1.1.1.1.1.1
  next => cases h

theorem mem_fieldsOf {name : Option Text} {ls : List Text} :
    f ∈ fieldsOf s name ls k ↔ ∃ j, j < k ∧ fieldAt? s name ls j = some f := by
  simp only [fieldsOf, mem_filterMap, mem_range]

theorem fieldsOf_congr {name name' : Option Text} {ls ls' : List Text}
    (h : ∀ j, j < k → fieldAt? s name ls j = fieldAt? s name' ls' j) :
    fieldsOf s name ls k = fieldsOf s name' ls' k := by
  induction k with
  | zero => rfl
  | succ k ih =>
    rw [fieldsOf_succ, fieldsOf_succ, ih fun j hj => h j (by omega), h k (by omega)]

end

namespace Renames

variable {h₁ h₂ name₁ name₂ : Text} {more : List Text} {s : Int} {k : Nat}

theorem bracketsBefore_eq (h : Renames h₁ h₂ name₁ name₂ more) (hk : 0 < k) :
    bracketsBefore (h₁ :: more) k = bracketsBefore (h₂ :: more) k := by
  obtain ⟨k, rfl⟩ : ∃ i, k = i + 1 := ⟨k - 1, by omega⟩
  show Brackets.feedAll (Brackets.feed {} h₁) (more.take k)
    = Brackets.feedAll (Brackets.feed {} h₂) _
  rw [h.brackets_eq]

theorem lineAt_eq (_ : Renames h₁ h₂ name₁ name₂ more) (hk : 0 < k) :
    lineAt (h₁ :: more) k = lineAt (h₂ :: more) k := by
  obtain ⟨k, rfl⟩ : ∃ i, k = i + 1 := ⟨k - 1, by omega⟩
  rfl

section

variable (h : Renames h₁ h₂ name₁ name₂ more)
include h

theorem lineOf (hk : LineOf (h₁ :: more) k) : LineOf (h₂ :: more) k := by
  refine ⟨hk.1, fun j hj hjk => ?_⟩
  rw [← h.lineAt_eq hj, ← h.bracketsBefore_eq hj]
  exact hk.2 j hj hjk

/-- **A field is a field under another name**, unless its line begins with that name. -/
theorem fieldAt?_eq {f : Field} (hf : fieldAt? s (some name₁) (h₁ :: more) k = some f)
    (hname : (lineAt (h₁ :: more) k).trimStart.startsWith name₂ = false) :
    fieldAt? s (some name₂) (h₂ :: more) k = some f := by
  unfold fieldAt? at hf ⊢
  split at hf
  next hshape =>
    obtain ⟨hk, hdepth, hparen, hline⟩ := hshape
    rw [constructorSeen_of_free h.free₁] at hline
    have hshape₂ : FieldShaped (some name₂) (h₂ :: more) k := by
      refine ⟨hk, ?_, ?_, ?_⟩
      · rw [← hdepth]
        exact congrArg Brackets.curly (h.bracketsBefore_eq hk).symm
      · rw [← hparen, h.bracketsBefore_eq (Nat.succ_pos k)]
      · rw [constructorSeen_of_free h.free₂, ← h.lineAt_eq hk]
        exact isFieldLine_rename hline hname
    rw [if_pos hshape₂, ← hf, h.lineAt_eq hk]
    refine ofLine?_previous ?_ _ _
    -- the line above may be the class line
    rcases Nat.lt_or_ge 1 k with hlt | hge
    · rw [h.lineAt_eq (show 0 < k - 1 by omega)]
    · rw [show k - 1 = 0 by omega]
      exact h.marks_eq.symm
  next => cases hf

/-- A field that is found under both names begins with neither. -/
theorem not_beginsLonger {f : Field} (hf : f ∈ fieldsOf s (some name₂) (h₂ :: more) k) :
      ¬ BeginsLonger name₂ (lineAt (h₁ :: more) (f.line - s).toNat) := by
  obtain ⟨j, -, hf⟩ := mem_fieldsOf.mp hf
  obtain ⟨hpos, hstart⟩ := not_startsWith_of_fieldAt? hf
  rw [line_of_fieldAt? hf, h.lineAt_eq hpos]
  intro hlonger
  rw [hlonger.1] at hstart
  cases hstart

/-- A field whose line does not begin with the second name is found under it. -/
theorem fieldAt?_of_not_beginsLonger
    (hnot : ∀ f ∈ fieldsOf s (some name₁) (h₁ :: more) k,
      ¬ BeginsLonger name₂ (lineAt (h₁ :: more) (f.line - s).toNat))
    {j : Nat} (hj : j < k) {f : Field} (hf : fieldAt? s (some name₁) (h₁ :: more) j = some f) :
    fieldAt? s (some name₂) (h₂ :: more) j = some f := by
  have hline := hnot f (mem_fieldsOf.mpr ⟨j, hj, hf⟩)
  obtain ⟨hpos, -⟩ := not_startsWith_of_fieldAt? hf
  have hfree : ¬ HasIdentifier (lineAt (h₁ :: more) j) name₂ := by
    obtain ⟨i, rfl⟩ : ∃ i, j = i + 1 := ⟨j - 1, by omega⟩
    exact h.free₂ i
  rw [line_of_fieldAt? hf, beginsLonger_iff hfree, Bool.not_eq_true] at hline
  exact h.fieldAt?_eq hf hline

/-- **The fields under two names** are the same exactly if no line of a field under one of them
    begins with a longer identifier that the other one begins. -/
theorem fieldsOf_eq_iff :
    fieldsOf s (some name₁) (h₁ :: more) k = fieldsOf s (some name₂) (h₂ :: more) k
      ↔ (∀ f ∈ fieldsOf s (some name₁) (h₁ :: more) k,
          ¬ BeginsLonger name₂ (lineAt (h₁ :: more) (f.line - s).toNat))
        ∧ ∀ f ∈ fieldsOf s (some name₂) (h₂ :: more) k,
          ¬ BeginsLonger name₁ (lineAt (h₂ :: more) (f.line - s).toNat) := by
  constructor
  · intro heq
    exact ⟨fun f hf => h.not_beginsLonger (heq ▸ hf),
      fun f hf => h.symm.not_beginsLonger (heq ▸ hf)⟩
  · rintro ⟨h₁₂, h₂₁⟩
    refine fieldsOf_congr fun j hj => Option.ext fun f => ?_
    exact ⟨h.fieldAt?_of_not_beginsLonger h₁₂ hj, h.symm.fieldAt?_of_not_beginsLonger h₂₁ hj⟩

end

end Renames

/-! ## §4. Files. -/

/-- An identifier that begins with an upper-case letter. -/
def isClassName (name : Text) : Bool := name.head?.any Char.isUpper && isIdentifier name

/-- The line that begins the class `name` and opens its body. -/
def classLine (name : Text) : Text := "class " ++ name ++ " \x7b"

/-- A file with one class of this name. -/
def classText (name : Text) (body : List Text) : Text :=
  unlines (classLine name :: (body ++ ["\x7d".toList]))

section

variable {name : Text} {body : List Text}

theorem isHeader_classLine (hn : isClassName name) :
    IsHeader (classLine name) { name := some name } := by
  have hline : classLine name = headLine (plainHead name false false) :=
    (append_assoc _ _ _).trans (headLine_plainHead name false false).symm
  rw [isClassName, Bool.and_eq_true] at hn
  rw [hline]
  exact isHeader_headLine hn.1 hn.2 false false

theorem all_isWord_of_isClassName (hn : isClassName name) : name.all isWord := by
  rw [isClassName, Bool.and_eq_true] at hn
  exact all_isWord_of_isIdentifier hn.2

theorem lines_classText (hn : isClassName name) (hbody : ∀ l ∈ body, '\n' ∉ l) :
    (classText name body).lines = classLine name :: (body ++ ["\x7d".toList]) := by
  refine lines_unlines (cons_ne_nil _ _) fun l hl => ?_
  rcases mem_cons.mp hl with rfl | hl
  · have hname : '\n' ∉ name := not_mem_of_all (all_isWord_of_isClassName hn) (by decide)
    show '\n' ∉ "class " ++ name ++ " \x7b"
    simp [hname]
  · rcases mem_append.mp hl with hl | hl
    · exact hbody l hl
    · rw [mem_singleton.mp hl]
      decide

/-- **A file with one class**: the class comes first, and the others do not depend on its name. -/
theorem scan_classText (hn : isClassName name) (hbody : ∀ l ∈ body, '\n' ∉ l) :
    ∃ c, c.head = { name := some name } ∧ c.first = some 1 ∧ scan (classText name body)
        = (scanAfter 2 { curly := 1, opened := true } (body ++ ["\x7d".toList])).map (c :: ·) := by
  have hscan := scanLines_header (isHeader_classLine hn) 1 none (body ++ ["\x7d".toList])
  obtain ⟨c, hh, hf, hopen⟩ := scanLines_open (body ++ ["\x7d".toList]) 2 (some (classLine name))
    (.inBody
      { head := { name := some name }
        first := some (1 : Nat)
        headLast := some (1 : Nat)
        content := endLines [classLine name] }
      { curly := 1, opened := true } (classLine name).trim) (by simp [OpenClass.inBody]) rfl
  refine ⟨c, hh, hf, ?_⟩
  rw [scan, lines_classText hn hbody, hscan]
  exact hopen

theorem mem_of_hasIdentifier {t : Text} (h : t.HasIdentifier name) {ch : Char} (hch : ch ∈ name) :
    ch ∈ t := by
  obtain ⟨k, -, hstart, -⟩ := h
  exact mem_of_mem_drop ((List.isPrefixOf_iff_prefix.mp hstart).subset hch)

/-- The line below the body has no name. -/
theorem not_hasIdentifier_lineAt (hn : isClassName name)
    (hfree : ∀ l ∈ body, ¬ HasIdentifier l name) (j : Nat) :
    ¬ HasIdentifier (lineAt (body ++ ["\x7d".toList]) j) name := by
  obtain ⟨ch, hch, hup⟩ : ∃ ch ∈ name, isWord ch := by
    cases name with
    | nil => simp [isClassName] at hn
    | cons ch r => exact ⟨ch, mem_cons_self,
        all_eq_true.mp (all_isWord_of_isClassName hn) ch mem_cons_self⟩
  rw [lineAt, getD_eq_getElem?_getD]
  cases hget : (body ++ ["\x7d".toList])[j]? with
  | none =>
    intro h
    have := mem_of_hasIdentifier h hch
    cases this
  | some l =>
    rcases mem_append.mp (mem_of_getElem? hget) with hl | hl
    · exact hfree l hl
    · intro h
      have hmem := mem_of_hasIdentifier h hch
      rw [Option.getD_some, mem_singleton.mp hl] at hmem
      rw [mem_singleton.mp hmem] at hup
      cases hup

end

/-- The fields of the first class of a file, which begins on its first line. -/
theorem fields_of_first {text : Text} {cs : List SourceClass} (h : scan text = .ok cs)
    {c : SourceClass} (hc : c ∈ cs) (hfirst : c.first = some 1) :
    ∃ k, (∀ j, LineOf text.lines j ↔ j < k) ∧ c.fields = fieldsOf 1 c.head.name text.lines k := by
  obtain ⟨s, k, -, hread⟩ := scan_readIn h c hc
  obtain rfl : s = 1 := by
    have := hread.first_eq
    rw [hfirst, Option.some.injEq] at this
    omega
  exact ⟨k, hread.lineOf_iff, hread.fields_eq⟩

/-- **The fields of a class and its name.**  With the same body, which has neither name in it, both
    classes are found or the same fault is, and the rest of the file is read the same.  The fields
    are the same exactly if no line of a field of the one class begins with an identifier that the
    name of the other one is a proper beginning of. -/
theorem scan_renamed_iff {name₁ name₂ : Text} {body : List Text} (hn₁ : isClassName name₁ = true)
    (hn₂ : isClassName name₂ = true) (hbody : ∀ l ∈ body, '\n' ∉ l)
    (hfree₁ : ∀ l ∈ body, ¬ l.HasIdentifier name₁) (hfree₂ : ∀ l ∈ body, ¬ l.HasIdentifier name₂) :
    (∃ f, scan (classText name₁ body) = .error f ∧ scan (classText name₂ body) = .error f)
      ∨ ∃ c₁ c₂ others, scan (classText name₁ body) = .ok (c₁ :: others)
        ∧ scan (classText name₂ body) = .ok (c₂ :: others)
        ∧ c₁.head = { name := some name₁ } ∧ c₂.head = { name := some name₂ }
        ∧ (c₁.fields = c₂.fields
          ↔ (∀ f ∈ c₁.fields,
              ¬ BeginsLonger name₂ (lineAt (classText name₁ body).lines (f.line - 1).toNat))
            ∧ ∀ f ∈ c₂.fields,
              ¬ BeginsLonger name₁ (lineAt (classText name₂ body).lines (f.line - 1).toNat)) := by
  obtain ⟨c₁, hh₁, hf₁, hscan₁⟩ := scan_classText hn₁ hbody
  obtain ⟨c₂, hh₂, hf₂, hscan₂⟩ := scan_classText hn₂ hbody
  cases hr : scanAfter 2 { curly := 1, opened := true } (body ++ ["\x7d".toList]) with
  | error f =>
      rw [hr] at hscan₁ hscan₂
      exact Or.inl ⟨f, hscan₁, hscan₂⟩
  | ok others =>
      rw [hr] at hscan₁ hscan₂
      refine Or.inr ⟨c₁, c₂, others, hscan₁, hscan₂, hh₁, hh₂, ?_⟩
      have hheader₁ := isHeader_classLine hn₁
      have hheader₂ := isHeader_classLine hn₂
      have hren : Renames (classLine name₁) (classLine name₂) name₁ name₂
          (body ++ ["\x7d".toList]) :=
        { brackets_eq := hheader₁.feed_eq.trans hheader₂.feed_eq.symm
          marks_eq := hheader₁.not_marksEnum.trans hheader₂.not_marksEnum.symm
          free₁ := not_hasIdentifier_lineAt hn₁ hfree₁
          free₂ := not_hasIdentifier_lineAt hn₂ hfree₂ }
      obtain ⟨k₁, hk₁, hfields₁⟩ := fields_of_first hscan₁ mem_cons_self hf₁
      obtain ⟨k₂, hk₂, hfields₂⟩ := fields_of_first hscan₂ mem_cons_self hf₂
      rw [lines_classText hn₁ hbody] at hk₁ hfields₁ ⊢
      rw [lines_classText hn₂ hbody] at hk₂ hfields₂ ⊢
      -- both classes end on the same line
      obtain rfl : k₁ = k₂ := by
        refine Nat.le_antisymm (Nat.le_of_not_lt fun hlt => ?_) (Nat.le_of_not_lt fun hlt => ?_)
        · exact Nat.lt_irrefl k₂ ((hk₂ k₂).mp (hren.lineOf ((hk₁ k₂).mpr hlt)))
        · exact Nat.lt_irrefl k₁ ((hk₁ k₁).mp (hren.symm.lineOf ((hk₂ k₁).mpr hlt)))
      rw [hfields₁, hfields₂, hh₁, hh₂]
      exact hren.fieldsOf_eq_iff

/-- A file in which one class is found. -/
theorem exists_only_scanned {t : Text} {P : SourceClass → Prop} [DecidablePred P]
    (h : ((scan t).toOption.any fun cs => cs.length == 1 && cs.all fun c => decide (P c))) :
    ∃ c, scan t = .ok [c] ∧ P c := by
  cases hs : scan t with
  | error f =>
    rw [hs] at h
    cases h
  | ok cs =>
    rw [hs, Except.toOption, Option.any_some, Bool.and_eq_true, beq_iff_eq, all_eq_true] at h
    obtain ⟨c, rfl⟩ := length_eq_one_iff.mp h.1
    exact ⟨c, rfl, of_decide_eq_true (h.2 c mem_cons_self)⟩

/-- The names may stand in longer identifiers: `Foo` and `Bar` have the same two fields here. -/
theorem scan_renamed_two : ∃ (body : List Text) (c₁ c₂ : SourceClass),
      body = ["  final Foobar x;".toList, "  int Barfoo;".toList]
        ∧ scan (classText "Foo".toList body) = .ok [c₁]
        ∧ scan (classText "Bar".toList body) = .ok [c₂]
        ∧ c₁.fields = c₂.fields ∧ c₁.fields.map Field.line = [2, 3] := by
  obtain ⟨body, hbody⟩ : ∃ body : List Text,
    body = ["  final Foobar x;".toList, "  int Barfoo;".toList] := ⟨_, rfl⟩
  obtain ⟨c₁, hc₁, hlines, hnot₁⟩ := exists_only_scanned (t := classText "Foo" body)
    (P := fun c => c.fields.map Field.line = [2, 3] ∧ ∀ f ∈ c.fields, ¬ BeginsLonger "Bar"
      (lineAt (classText "Foo".toList body).lines (f.line - 1).toNat))
        (by subst hbody; decide +kernel)
  obtain ⟨c₂, hc₂, hnot₂⟩ := exists_only_scanned (t := classText "Bar" body)
    (P := fun c => ∀ f ∈ c.fields, ¬ BeginsLonger "Foo"
      (lineAt (classText "Bar".toList body).lines (f.line - 1).toNat))
        (by subst hbody; decide +kernel)
  rcases @scan_renamed_iff "Foo" "Bar" body (by decide) (by decide)
      (by subst hbody; decide) (by subst hbody; decide +kernel)
      (by subst hbody; decide +kernel) with
    ⟨f, hf, -⟩ | ⟨d₁, d₂, others, hd₁, hd₂, -, -, hiff⟩
  · rw [hc₁] at hf
    cases hf
  · rw [hc₁] at hd₁
    rw [hc₂] at hd₂
    cases hd₁
    cases hd₂
    exact ⟨body, c₁, c₂, hbody, hc₁, hc₂, hiff.mpr ⟨hnot₁, hnot₂⟩, hlines⟩

/-- A class `Int` does not see a field of the type `Integer`, which a class `Foo` does, although
    neither name stands in the body. -/
theorem scan_renamed_loses_field :
    ¬ Text.HasIdentifier "  Integer x;" "Int" ∧ ¬ Text.HasIdentifier "  Integer x;" "Foo"
      ∧ (∃ c, scan (classText "Int".toList ["  Integer x;".toList]) = .ok [c] ∧ c.fields = [])
      ∧ ∃ c, scan (classText "Foo".toList ["  Integer x;".toList]) = .ok [c]
        ∧ c.fields.map Field.sourceName = ["x".toList] :=
  ⟨by decide +kernel, by decide +kernel, exists_only_scanned (by decide +kernel),
    exists_only_scanned (by decide +kernel)⟩

end DartData
