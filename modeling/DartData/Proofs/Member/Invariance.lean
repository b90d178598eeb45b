import DartData.Proofs.Member.Form

/-!
# What members depend on

A member depends on the class as a type, on its name, on its fields apart from the lines they stand
on, and on whether its constructor takes named parameters.  So it stays the same where the fields
move or other parts of the class change.
-/

namespace DartData

/-! ## §1. Fields on other lines. -/

namespace Field

/-- The field on another line. -/
def onLine (f : Field) (n : Int) : Field := { f with line := n }

variable (f : Field) (n : Int)

@[simp] theorem name_onLine : (f.onLine n).name = f.name := rfl

@[simp] theorem sourceName_onLine : (f.onLine n).sourceName = f.sourceName := rfl

@[simp] theorem rawType_onLine : (f.onLine n).rawType = f.rawType := rfl

@[simp] theorem type_onLine : (f.onLine n).type = f.type := rfl

@[simp] theorem isNullable_onLine : (f.onLine n).isNullable = f.isNullable := rfl

@[simp] theorem nullMark_onLine : (f.onLine n).nullMark = f.nullMark := rfl

@[simp] theorem isEnum_onLine : (f.onLine n).isEnum = f.isEnum := rfl

@[simp] theorem isList_onLine : (f.onLine n).isList = f.isList := rfl

@[simp] theorem isMap_onLine : (f.onLine n).isMap = f.isMap := rfl

@[simp] theorem isSet_onLine : (f.onLine n).isSet = f.isSet := rfl

@[simp] theorem isCollection_onLine : (f.onLine n).isCollection = f.isCollection := rfl

@[simp] theorem defaultValue_onLine : (f.onLine n).defaultValue = f.defaultValue := rfl

@[simp] theorem element_onLine : (f.onLine n).element = f.element.onLine n := by
  unfold element
  rw [isSet_onLine, isList_onLine]
  split
  · rfl
  · split
    · rfl
    · rfl

@[simp] theorem isInt_onLine : (f.onLine n).isInt = f.isInt := by simp [isInt]

@[simp] theorem isDouble_onLine : (f.onLine n).isDouble = f.isDouble := by simp [isDouble]

@[simp] theorem isPrimitive_onLine : (f.onLine n).isPrimitive = f.isPrimitive := by
  simp [isPrimitive]

theorem ite_onLine : (if (f.onLine n).isCollection then (f.onLine n).element else f.onLine n)
    = (if f.isCollection then f.element else f).onLine n := by
  rw [isCollection_onLine, element_onLine]
  split <;> rfl

end Field

namespace Member

open DartData.Field

variable (f : Field) (n : Int)

@[simp] theorem plainValue_onLine (x : Text) : plainValue (f.onLine n) x = plainValue f x := by
  unfold plainValue
  rw [ite_onLine]
  simp only [type_onLine, nullMark_onLine, isPrimitive_onLine]

@[simp] theorem storedValue_onLine : storedValue (f.onLine n) = storedValue f := by
  simp only [storedValue, isEnum_onLine, isCollection_onLine, name_onLine, nullMark_onLine,
    isMap_onLine, element_onLine, isPrimitive_onLine, isSet_onLine, plainValue_onLine]
  rfl

@[simp] theorem mapEntry_onLine : mapEntry (f.onLine n) = mapEntry f := rfl

@[simp] theorem readValue_onLine (r : MapReading) (given : Option Text) :
    readValue r (f.onLine n) given = readValue r f given := by
  unfold readValue
  rw [ite_onLine]
  simp only [isCollection_onLine, type_onLine, rawType_onLine, isNullable_onLine,
    isPrimitive_onLine, mapEntry_onLine, isDouble_onLine, isInt_onLine, defaultValue_onLine]
  rfl

@[simp] theorem collectionDefault_onLine (r : MapReading) :
    collectionDefault r (f.onLine n) = collectionDefault r f := by
  simp only [collectionDefault, isNullable_onLine, isMap_onLine, element_onLine, type_onLine,
    isList_onLine]
  rfl

@[simp] theorem readField_onLine (r : MapReading) : readField r (f.onLine n) = readField r f := by
  simp only [readField, isEnum_onLine, isCollection_onLine, type_onLine, element_onLine,
    mapEntry_onLine, isPrimitive_onLine, collectionDefault_onLine, readValue_onLine]

@[simp] theorem mapArgument_onLine (c : SourceClass) (r : MapReading) :
    mapArgument c r (f.onLine n) = mapArgument c r f := by
  simp only [mapArgument, SourceClass.label, name_onLine, isNullable_onLine, mapEntry_onLine,
    readField_onLine]

end Member

/-! ## §2. Members. -/

/-- The fields, all on one line. -/
def unplaced (fs : List Field) : List Field := fs.map (·.onLine 0)

theorem unplaced_fieldsFrom (fs : List PlainField) (n m : Int) :
    unplaced (fieldsFrom n fs) = unplaced (fieldsFrom m fs) := by
  induction fs generalizing n m with
  | nil => rfl
  | cons f fs ih => exact congrArg (f.field 0 :: ·) (ih (n + 1) (m + 1))

variable {fs gs : List Field} {p : Field → Bool}

theorem map_eq_of_unplaced {β : Type} {g : Field → β} (hg : ∀ f n, g (f.onLine n) = g f)
    (h : unplaced fs = unplaced gs) : fs.map g = gs.map g := by
  have heq : ∀ fs : List Field, fs.map g = (unplaced fs).map g := by
    intro fs
    simp [unplaced, hg]
  rw [heq fs, h, ← heq gs]

theorem length_eq_of_unplaced (h : unplaced fs = unplaced gs) : fs.length = gs.length := by
  have := congrArg List.length h
  simpa [unplaced] using this

theorem filter_eq_of_unplaced (hp : ∀ f n, p (f.onLine n) = p f) (h : unplaced fs = unplaced gs) :
    unplaced (fs.filter p) = unplaced (gs.filter p) := by
  have heq : ∀ fs : List Field, unplaced (fs.filter p) = (unplaced fs).filter p := by
    intro fs
    rw [unplaced, unplaced, List.filter_map]
    congr 2
    exact funext fun f => (hp f 0).symm
  rw [heq fs, h, ← heq gs]

theorem all_eq_of_unplaced (hp : ∀ f n, p (f.onLine n) = p f) (h : unplaced fs = unplaced gs) :
    fs.all p = gs.all p := by
  have heq : ∀ fs : List Field, fs.all p = (fs.map p).all id := by
    intro fs
    simp [List.all_map]
  rw [heq fs, heq gs, map_eq_of_unplaced hp h]

theorem isEmpty_eq_of_unplaced (h : unplaced fs = unplaced gs) : fs.isEmpty = gs.isEmpty := by
  have := congrArg List.isEmpty h
  simpa [unplaced] using this

section

variable {c d : SourceClass}

theorem label_eq (hnamed : c.hasNamedConstructor = d.hasNamedConstructor) : c.label = d.label := by
  funext f
  rw [SourceClass.label, SourceClass.label, hnamed]

/-- `==` depends on the type and the fields. -/
theorem Member.equality_congr (htype : c.type = d.type) (h : unplaced c.fields = unplaced d.fields)
    (flutter : Bool) : Member.equality c flutter = Member.equality d flutter := by
  have hcol := filter_eq_of_unplaced (p := Field.isCollection) (fun f n => rfl) h
  have hlocal : localEquals (c.fields.filter Field.isCollection)
      = localEquals (d.fields.filter Field.isCollection) := by
    unfold localEquals
    rw [all_eq_of_unplaced (p := Field.isList) (fun f n => rfl) hcol,
      all_eq_of_unplaced (p := Field.isMap) (fun f n => rfl) hcol,
      all_eq_of_unplaced (p := Field.isSet) (fun f n => rfl) hcol]
  unfold Member.equality
  dsimp only
  rw [isEmpty_eq_of_unplaced hcol, hlocal, isEmpty_eq_of_unplaced h, htype,
    map_eq_of_unplaced (fun f n => rfl) h]

/-- **A member depends on the class as a type, its name, the fields apart from their lines, and the
    kind of constructor.** -/
theorem MemberKind.build_congr (htype : c.type = d.type) (hname : c.shownName = d.shownName)
    (hnamed : c.hasNamedConstructor = d.hasNamedConstructor)
    (h : unplaced c.fields = unplaced d.fields) (r : Request) (k : MemberKind) :
    k.build r c = k.build r d := by
  have hlabel := label_eq hnamed
  have hfew : c.hasFewFields = d.hasFewFields := by
    rw [SourceClass.hasFewFields, SourceClass.hasFewFields, length_eq_of_unplaced h]
  -- the texts are made of these data, so they need only be rewritten
  cases k with
  | copyWith =>
    show Member.copyWith c = Member.copyWith d
    unfold Member.copyWith
    rw [htype, hlabel, map_eq_of_unplaced (fun f n => rfl) h, map_eq_of_unplaced (fun f n => rfl) h]
  | toMap =>
    show Member.toMap c = Member.toMap d
    unfold Member.toMap
    rw [map_eq_of_unplaced
      (fun f n => by rw [Field.sourceName_onLine, Member.storedValue_onLine]) h]
  | fromMap =>
    show Member.fromMap c _ = Member.fromMap d _
    have harg : Member.mapArgument c = Member.mapArgument d := by
      funext r f
      rw [Member.mapArgument, Member.mapArgument, hlabel]
    unfold Member.fromMap
    rw [hname, htype, harg, map_eq_of_unplaced (fun f n => by rw [Member.mapArgument_onLine]) h]
  | toJson => rfl
  | fromJson =>
    show Member.fromJson c = Member.fromJson d
    unfold Member.fromJson
    rw [hname]
  | toString =>
    show Member.toString c = Member.toString d
    unfold Member.toString
    rw [hname, hfew, map_eq_of_unplaced (fun f n => rfl) h]
  | stringify => rfl
  | equality => exact Member.equality_congr htype h _
  | hashCode =>
    show Member.hashCode c _ = Member.hashCode d _
    unfold Member.hashCode
    rw [hfew, map_eq_of_unplaced (fun f n => rfl) h, map_eq_of_unplaced (fun f n => rfl) h]
  | props =>
    show Member.props c = Member.props d
    unfold Member.props
    rw [map_eq_of_unplaced (fun f n => rfl) h]

end

end DartData
