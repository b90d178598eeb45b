import DartData.Proofs.Constructor.Placed
import DartData.Proofs.Constructor.Stable
import DartData.Proofs.Generation.Work
import DartData.Proofs.Member.Invariance
import DartData.Proofs.Plain.Head

/-!
# What is written into a plain class

A request fixes what is done with a plain class: whether it gets a constructor, which members are
written into it, and whether it adopts `Equatable`.  `PlainClass.settled` is the class after all of
it, in its parts.
-/

namespace DartData

open List Text

/-! ## §1. The tasks. -/

namespace Request

/-- Whether a plain class gets a constructor. -/
def rebuilds (r : Request) : Bool := r.options (.enabled .constructor) && r.selects .constructor

/-- Whether a plain class adopts `Equatable`. -/
def adopts (r : Request) : Bool := r.options .useEquatable && r.selects .useEquatable

/-- Whether `copyWith` is written into a plain class. -/
def copies (r : Request) : Bool := r.options (.enabled .copyWith) && r.selects .copyWith

/-- The request without the constructor. -/
def sparing (r : Request) : Request :=
  { r with options := fun s => s ≠ .enabled .constructor && r.options s }

/-- The tasks for a plain class besides that of the constructor. -/
def furtherTasks (r : Request) : List Task := r.sparing.plan {}

variable {r : Request}

/-- The plan asks three things of a class. -/
theorem plan_congr {c d : SourceClass} (hw : c.head.isWidget = d.head.isWidget)
    (ha : c.isAbstract = d.isAbstract) (he : r.comparesByEquatable c = r.comparesByEquatable d) :
    r.plan c = r.plan d := by
  unfold plan
  rw [hw, ha, he]

/-- What the plan of a plain class can hold. -/
theorem cases_of_mem_plan {t : Task} (h : t ∈ r.plan {}) : (t = .rebuildConstructor ∧ r.rebuilds)
      ∨ (∃ k, t = .install k ∧ (k = .props → r.adopts) ∧ (k = .copyWith → r.copies))
      ∨ (t = .adoptEquatable ∧ r.adopts) := by
  have hwidget : Declaration.isWidget {} = false := rfl
  have habstract : SourceClass.isAbstract {} = false := rfl
  have huses : Declaration.usesEquatable {} = false := rfl
  simp only [plan, comparesByEquatable, hwidget, habstract, huses, Bool.false_or,
    Bool.false_eq_true, if_false, mem_append, Task.mem_when] at h
  rcases h with ((⟨hr, rfl⟩ | h) | ⟨-, rfl⟩) | h
  · exact .inl ⟨rfl, hr⟩
  · rcases h with (((⟨hc, rfl⟩ | ⟨-, rfl⟩) | ⟨-, rfl⟩) | ⟨-, rfl⟩) | ⟨-, rfl⟩
    · exact .inr (.inl ⟨_, rfl, by simp, fun _ => hc⟩)
    all_goals exact .inr (.inl ⟨_, rfl, by simp, by simp⟩)
  · exact .inr (.inl ⟨_, rfl, by split <;> simp, by split <;> simp⟩)
  · split at h
    · next he =>
      simp only [mem_append, Task.mem_when] at h
      have hadopts : r.selects .useEquatable → r.adopts := by
        intro hs
        simp [adopts, he, hs]
      rcases h with ⟨hs, rfl⟩ | ⟨hs, rfl⟩
      · exact .inr (.inr ⟨rfl, hadopts hs⟩)
      · exact .inr (.inl ⟨_, rfl, fun _ => hadopts hs, by simp⟩)
    · simp only [mem_append, Task.mem_when] at h
      rcases h with ⟨-, rfl⟩ | ⟨-, rfl⟩ <;> exact .inr (.inl ⟨_, rfl, by simp, by simp⟩)

theorem plan_eq (r : Request) :
    r.plan {} = Task.rebuildConstructor.when r.rebuilds ++ r.furtherTasks := by
  have hassoc : ∀ a b c d : List Task, a ++ b ++ c ++ d = a ++ ([] ++ b ++ c ++ d) := by
    simp only [append_assoc, nil_append, implies_true]
  exact hassoc _ _ _ _

theorem cases_of_mem_furtherTasks {t : Task} (h : t ∈ r.furtherTasks) :
    (∃ k, t = .install k ∧ (k = .props → r.adopts) ∧ (k = .copyWith → r.copies))
      ∨ (t = .adoptEquatable ∧ r.adopts) :=
  (cases_of_mem_plan h).resolve_left fun hr => Bool.false_ne_true hr.2

theorem copies_of_mem (h : .install .copyWith ∈ r.furtherTasks) : r.copies := by
  rcases cases_of_mem_furtherTasks h with ⟨k, hk, -, hc⟩ | ⟨hk, -⟩
  · exact hc (Task.install.inj hk).symm
  · simp at hk

theorem adopts_of_mem (h : .install .props ∈ r.furtherTasks) : r.adopts := by
  rcases cases_of_mem_furtherTasks h with ⟨k, hk, ha, -⟩ | ⟨-, ha⟩
  · exact ha (Task.install.inj hk).symm
  · exact ha

theorem adopts_mem_furtherTasks (h : r.adopts) : .adoptEquatable ∈ r.furtherTasks := by
  rw [adopts, Bool.and_eq_true] at h
  have he : r.sparing.comparesByEquatable {} := h.1
  have hadopt : Task.adoptEquatable ∈ Task.adoptEquatable.when (r.sparing.selects .useEquatable) :=
    Task.mem_when.mpr ⟨h.2, rfl⟩
  refine mem_append_right _ ?_
  rw [he]
  exact mem_append_left _ hadopt

/-- `copyWith` is written first. -/
theorem furtherTasks_cons (h : r.copies) : ∃ ts, r.furtherTasks = .install .copyWith :: ts := by
  have h : (r.sparing.options (.enabled .copyWith) && r.sparing.selects .copyWith) := h
  unfold furtherTasks plan
  dsimp only
  rw [h]
  exact ⟨_, rfl⟩

/-- `props` is written last. -/
theorem plan_concat (h : r.adopts) :
    ∃ ts, r.plan {} = ts ++ [.install .props] ∧ .install .props ∉ ts := by
  rw [adopts, Bool.and_eq_true] at h
  have he : r.comparesByEquatable {} := h.1
  have hassoc : ∀ a b c d e : List Task, a ++ b ++ c ++ (d ++ e) = (a ++ b ++ c ++ d) ++ e := by
    simp only [append_assoc, implies_true]
  unfold plan
  dsimp only
  rw [he, h.2, if_neg (by decide), if_neg (by decide), if_pos rfl, if_pos rfl, hassoc]
  refine ⟨_, rfl, ?_⟩
  simp [Task.mem_when]

end Request

/-! ## §2. The class in its parts. -/

/-- What a task puts into the body of a class, if `item` gives the members. -/
def Task.items (item : MemberKind → Item) : Task → List Item
  | .install k => (item k).placed k.isMarked
  | _ => []

namespace PlainClass

/-- The class as it is printed. -/
def parts (c : PlainClass) : ClassParts where
  header := headLine (plainHead c.name false false)
  head := plainHead c.name false false
  fields := c.fields

/-- The constructor that is written into the class. -/
def constructor (c : PlainClass) (r : Request) : Item :=
  constructorItem (constWordFor r.adopts) c.name
    (newParameters (r.options .constructorDefaults) (fieldsFrom 0 c.fields))

/-- The class, beginning on the line `n`, with its constructor written. -/
def rebuilt (c : PlainClass) (r : Request) (n : Int) : SourceClass :=
  if r.rebuilds then
    { c.parts.scanned n with
      constructorText := some (endLines (c.constructor r).lines), constructorChanged := true }
  else c.parts.scanned n

/-- `item` gives the members that are written into the class. -/
def Writes (c : PlainClass) (r : Request) (item : MemberKind → Item) : Prop :=
  ∀ k : MemberKind, (k.build r (c.rebuilt r 0)).Shape (k.signature c.name) k.isMarked (item k)

/-- The class with everything written that the request asks for. -/
def settled (c : PlainClass) (r : Request) (item : MemberKind → Item) : ClassParts where
  header := headLine (plainHead c.name r.adopts (r.options .equatableMixin))
  head := plainHead c.name r.adopts (r.options .equatableMixin)
  fields := c.fields
  constructor := if r.rebuilds then some (c.constructor r) else none
  items := r.furtherTasks.flatMap (Task.items item)

variable (c : PlainClass) {r : Request} {item : MemberKind → Item}

theorem word : c.name.all isWord := all_isWord_of_isIdentifier c.isName

theorem lines_parts : c.parts.lines = c.lines := by
  have hheader : c.parts.header = of ["class ", c.name, " \x7b"] := by
    show headLine (plainHead c.name false false) = _
    rw [headLine_plainHead]
    simp only [of, flatten_cons, flatten_nil]
    rfl
  rw [ClassParts.lines_eq, hheader, lines]
  rfl

/-- The characters of the class are those of its name, of its fields and of a few words. -/
theorem not_mem_lines {d : Char} (hd : isRawTypeChar d = false) (hs : d ∉ [';', '{', '}']) :
    ∀ l ∈ c.lines, d ∉ l := by
  have hfixed : ∀ x ∈ "class ".toList ++ " \x7b".toList, (isRawTypeChar x || x == '{') :=
    List.all_eq_true.mp (by decide)
  have hother : ∀ x, (isRawTypeChar x || x == '{') → d ≠ x := by
    rintro x hx rfl
    rw [hd, Bool.false_or, beq_iff_eq] at hx
    subst hx
    simp at hs
  intro l hl hmem
  rcases mem_cons.mp hl with rfl | hl
  · simp only [of, flatten_cons, flatten_nil, append_nil,
      mem_append] at hmem
    rcases hmem with hmem | hmem | hmem
    · exact hother d (hfixed d (mem_append_left _ hmem)) rfl
    · exact hother d (Bool.or_eq_true_iff.mpr
        (.inl (isRawTypeChar_of_isWord (all_eq_true.mp c.word d hmem)))) rfl
    · exact hother d (hfixed d (mem_append_right _ hmem)) rfl
  · rcases mem_append.mp hl with hl | hl
    · obtain ⟨f, -, rfl⟩ := mem_map.mp hl
      refine f.not_mem_line hd ?_ hmem
      rintro rfl
      simp at hs
    · rw [mem_singleton.mp hl, mem_singleton] at hmem
      subst hmem
      simp at hs

theorem fits_parts : c.parts.Fits c.name where
  header := isHeader_headLine c.upper c.isName false false
  name_eq := rfl
  upper := c.upper
  constructor := by
    intro i hi
    exact absurd hi (by simp [parts])
  items := by
    intro i hi
    exact absurd hi (by simp [parts])

/-- A class put together from the fields of the plain class is plain. -/
theorem isPlain_of {d : SourceClass} (hn : d.head.name = some c.name) (hg : d.head.generics = [])
    (hf : ∃ n, d.fields = fieldsFrom n c.fields) : d.IsPlain c.name c.fields where
  name_eq := hn
  generics_eq := hg
  word := c.word
  upper := c.upper
  fields_eq := hf
  fields_ne := c.fields_ne

theorem isPlain_rebuilt (r : Request) (n : Int) : (c.rebuilt r n).IsPlain c.name c.fields := by
  rw [rebuilt]
  split <;> exact c.isPlain_of rfl rfl ⟨n + 1, rfl⟩

theorem isPlain_settled (r : Request) (item : MemberKind → Item) (n : Int) :
    ((c.settled r item).scanned n).IsPlain c.name c.fields :=
  c.isPlain_of (name_plainHead _ _ _) (generics_plainHead _ _ _) ⟨n + 1, rfl⟩

theorem exists_writes (r : Request) : ∃ item, c.Writes r item :=
  ⟨_, fun k => Classical.choose_spec (k.exists_shape (c.isPlain_rebuilt r 0) r)⟩

/-! ## §3. What does not depend on the place. -/

theorem newParameters_fieldsFrom (defaultValues : Bool) (fs : List PlainField) (n : Int) :
    newParameters defaultValues (fieldsFrom n fs)
      = newParameters defaultValues (fieldsFrom 0 fs) := by
  refine map_eq_of_unplaced (fun f m => ?_) (unplaced_fieldsFrom fs n 0)
  unfold SourceClass.newParameter
  rw [Field.isPrimitive_onLine]
  rfl

theorem text_rebuilt (r : Request) (n : Int) : (c.rebuilt r n).constructorText
      = if r.rebuilds then some (endLines (c.constructor r).lines) else none := by
  rw [rebuilt]
  split <;> rfl

/-- The members of the class do not depend on the line that it begins on. -/
theorem build_rebuilt (r : Request) (n : Int) (k : MemberKind) :
    k.build r (c.rebuilt r n) = k.build r (c.rebuilt r 0) := by
  have h := c.isPlain_rebuilt r n
  have h₀ := c.isPlain_rebuilt r 0
  obtain ⟨a, ha⟩ := h.fields_eq
  obtain ⟨b, hb⟩ := h₀.fields_eq
  refine MemberKind.build_congr (h.type_eq.trans h₀.type_eq.symm)
    (h.shownName_eq.trans h₀.shownName_eq.symm) ?_ ?_ r k
  · simp only [SourceClass.hasNamedConstructor, text_rebuilt, h.shownName_eq, h₀.shownName_eq]
  · rw [ha, hb, unplaced_fieldsFrom]

/-- The members of the class are the same after they have been written. -/
theorem build_settled (r : Request) (item : MemberKind → Item) (n : Int) (k : MemberKind) :
    k.build r ((c.settled r item).scanned n) = k.build r (c.rebuilt r 0) := by
  have h := c.isPlain_settled r item n
  have h₀ := c.isPlain_rebuilt r 0
  obtain ⟨a, ha⟩ := h.fields_eq
  obtain ⟨b, hb⟩ := h₀.fields_eq
  have hshown := h.shownName_eq.trans h₀.shownName_eq.symm
  refine MemberKind.build_congr (h.type_eq.trans h₀.type_eq.symm) hshown ?_ ?_ r k
  -- in the file, the text of the constructor has no line feed at its end
  · have htext : ((c.settled r item).scanned n).constructorText
        = if r.rebuilds then some (unlines (c.constructor r).lines) else none := by
      show (if r.rebuilds then some (c.constructor r) else none).map _ = _
      split <;> rfl
    have htext₀ := c.text_rebuilt r 0
    cases hr : r.rebuilds with
    | false =>
      rw [hr] at htext htext₀
      simp [SourceClass.hasNamedConstructor, htext, htext₀]
    | true =>
      rw [hr, if_pos rfl] at htext htext₀
      rw [endLines_eq_unlines (Item.lines_ne_nil _)] at htext₀
      refine (hasNamedConstructor_concat hshown.symm ?_ htext₀ htext).symm
      rw [h₀.shownName_eq]
      exact not_mem_of_all c.word (by decide)
  · rw [ha, hb, unplaced_fieldsFrom]

/-! ## §4. The parts fit. -/

variable {c}

theorem areParameters (c : PlainClass) (defaultValues : Bool) :
    AreParameters (newParameters defaultValues (fieldsFrom 0 c.fields)) := by
  have hplain : (c.parts.scanned 0).IsPlain c.name c.fields := c.isPlain_of rfl rfl ⟨0 + 1, rfl⟩
  have hps := hplain.areParameters defaultValues
  have hfields : (c.parts.scanned 0).fields = fieldsFrom (0 + 1) c.fields := rfl
  rwa [hfields, newParameters_fieldsFrom] at hps

theorem isConstructor_constructor (c : PlainClass) (r : Request) :
    ∃ mid last, (c.constructor r).rest = mid ++ [last]
      ∧ IsConstructor c.name (c.constructor r).first mid last :=
  ⟨_, _, rfl, isConstructor_constructorItem c.word c.upper (constWordFor_cases _)
    (c.areParameters _)⟩

theorem constructorItems_settled (c : PlainClass) (r : Request) (item : MemberKind → Item) :
    (c.settled r item).constructorItems
      = if r.rebuilds then [Item.blank, c.constructor r] else [] := by
  unfold settled ClassParts.constructorItems
  cases r.rebuilds <;> rfl

theorem exists_task {i : Item} (hi : i ∈ (c.settled r item).items) :
    ∃ k, Task.install k ∈ r.furtherTasks ∧ i ∈ (item k).placed k.isMarked := by
  obtain ⟨t, ht, hi⟩ := mem_flatMap.mp hi
  rcases Request.cases_of_mem_furtherTasks ht with ⟨k, rfl, -⟩ | ⟨rfl, -⟩
  · exact ⟨k, ht, hi⟩
  · exact absurd hi not_mem_nil

/-- A settled class is laid out as it should be. -/
theorem fits_settled (h : c.Writes r item) : (c.settled r item).Fits c.name where
  header := isHeader_headLine c.upper c.isName _ _
  name_eq := name_plainHead _ _ _
  upper := c.upper
  constructor := by
    intro i hi
    have hi : (if r.rebuilds then some (c.constructor r) else none) = some i := hi
    split at hi
    · rw [← Option.some.inj hi]
      exact c.isConstructor_constructor r
    · exact absurd hi (by simp)
  items := by
    intro i hi
    obtain ⟨k, -, hi⟩ := exists_task hi
    exact (h k).silent_placed c.word hi

/-- The lines of a class do without a character if those of its constructor and of its other items
    do. -/
theorem not_mem_of {p : ClassParts} {adopted asMixin : Bool} {c : PlainClass}
    (hh : p.header = headLine (plainHead c.name adopted asMixin)) {d : Char}
    (hd : d ∈ unwrittenChars) (hc : ∀ l ∈ itemLines p.constructorItems, d ∉ l)
    (hi : ∀ l ∈ itemLines p.items, d ∉ l) : ∀ l ∈ p.lines, d ∉ l := by
  intro l hl
  rw [ClassParts.lines, ClassParts.body, itemLines_append, itemLines_append,
    ClassParts.itemLines_fields, mem_cons, mem_append, mem_append,
    mem_append] at hl
  rcases hl with rfl | ((hl | hl) | hl) | hl
  · rw [hh]
    exact not_mem_headLine c.isName adopted asMixin hd
  · obtain ⟨f, -, rfl⟩ := mem_map.mp hl
    exact f.tame_line.not_mem hd
  · exact hc l hl
  · exact hi l hl
  · rw [mem_singleton.mp hl, mem_singleton]
    rintro rfl
    exact absurd hd (by decide)

theorem isLined_parts (c : PlainClass) : c.parts.IsLined :=
  not_mem_of (c := c) rfl (by decide) (fun _ hl => absurd hl not_mem_nil) fun _ hl =>
    absurd hl not_mem_nil

/-- Quotes and the like are not written. -/
theorem not_mem_settled (h : c.Writes r item) {d : Char} (hd : d ∈ unwrittenChars) :
    ∀ l ∈ (c.settled r item).lines, d ∉ l := by
  refine not_mem_of (c := c) rfl hd ?_ ?_
  · intro l hl
    rw [constructorItems_settled] at hl
    split at hl
    · have hl : l = [] ∨ l ∈ (c.constructor r).lines := by
        simpa [itemLines, Item.blank, Item.lines] using hl
      rcases hl with rfl | hl
      · exact not_mem_nil
      · exact not_mem_constructorItem (constWordFor_cases _) c.word (c.areParameters _) hd l hl
    · exact absurd hl not_mem_nil
  · intro l hl
    obtain ⟨i, hi, hl⟩ := mem_flatMap.mp hl
    obtain ⟨k, -, hi⟩ := exists_task hi
    exact (h k).not_mem_placed hd l (mem_flatMap.mpr ⟨i, hi, hl⟩)

theorem isLined_settled (h : c.Writes r item) : (c.settled r item).IsLined :=
  not_mem_settled h (by decide)

end PlainClass

end DartData
