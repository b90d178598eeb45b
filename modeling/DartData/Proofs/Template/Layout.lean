import DartData.Proofs.Constructor.Placed
import DartData.Proofs.Declaration.Print
import DartData.Proofs.Scan.Declared

/-!
# Classes written from the template

The template writes the head and the fields of a class and puts fixed members below them.  If head
and fields can be written at all (`SourceClass.isWritable`), the scanner finds a class on these
lines that has the same head and the same fields (`SourceClass.fits_layout`), and writing that class
from the template gives the same text again (`SourceClass.fromTemplate_rewritten`).
-/

namespace DartData

open List Text

/-! ## §1. Fields without their place. -/

namespace Field

@[simp] theorem name_bare (f : Field) : f.bare.name = f.name :=
  variableName_variableName f.sourceName

theorem bare_bare (f : Field) : f.bare.bare = f.bare := by
  rw [bare, name_bare]
  rfl

theorem declarationLine_bare (f : Field) : f.bare.declarationLine = f.declarationLine := by
  rw [declarationLine_eq, declarationLine_eq, name_bare]
  rfl

/-- The parameter that the template writes for the field. -/
def templateParameter (f : Field) : Text :=
  (if f.isNullable then [] else "required ".toList) ++ ("this.".toList ++ f.name)

theorem templateParameter_bare (f : Field) : f.bare.templateParameter = f.templateParameter := by
  rw [templateParameter, name_bare]
  rfl

end Field

theorem map_bare_fieldsAt (fs : List Field) (n : Int) :
    (fieldsAt n fs).map Field.bare = fs.map Field.bare := by
  induction fs generalizing n with
  | nil => rfl
  | cons f fs ih => exact congrArg (f.bare :: ·) (ih (n + 1))

/-! ## §2. What can be written. -/

/-- Whether a field of the class `className` can be written and read back: its type is a type, its
    name is an identifier, `const` stands alone, and without modifiers the line begins neither like
    a constructor nor like a class. -/
def Field.isWritable (f : Field) (className : Text) : Bool :=
  f.rawType.all isRawTypeChar && isIdentifier f.name && !(f.isConst && (f.isLate || f.isFinal))
    && (!f.modifiers.isEmpty
      || !f.declarationLine.startsWith className && !isClassLine f.declarationLine)

/-- Whether the head and the fields of a class can be written and read back: what is left of the
    class line when comments and strings are taken out opens the body. -/
def SourceClass.isWritable (c : SourceClass) : Bool :=
  c.head.isPrintable && opensBody (c.declarationLine ++ " \x7b")
    && c.fields.all (·.isWritable c.shownName)

variable {f : Field} {className : Text}

/-- A declared field can be printed. -/
theorem Field.IsDeclared.printable (h : f.IsDeclared) (hw : f.isWritable className) :
    f.Printable where
  type_words := h.type_words
  type_chars := by
    simp only [isWritable, Bool.and_eq_true, all_eq_true] at hw
    exact hw.1.1.1
  isName := by
    simp only [isWritable, Bool.and_eq_true] at hw
    exact hw.1.1.2
  const_alone := by
    simp only [isWritable, Bool.and_eq_true, Bool.not_eq_true', Bool.and_eq_false_iff,
      Bool.or_eq_false_iff] at hw
    intro hc
    simpa [hc] using hw.1.2

theorem Field.begins_of_isWritable (hw : f.isWritable className) (hm : f.modifiers = []) :
    f.declarationLine.startsWith className = false ∧ isClassLine f.declarationLine = false := by
  simp only [isWritable, Bool.and_eq_true, hm] at hw
  simpa using hw.2

/-! ## §3. The lines. -/

namespace SourceClass

/-- The line that reads the class from a map. -/
def fromJsonLine (name : Text) : Text :=
  of ["  factory ", name, ".fromJson(Map<String, dynamic> json) => _$", name,
    "FromJson(json);"]

/-- The line that writes the class to a map. -/
def toJsonLine (name : Text) : Text :=
  of ["  Map<String, dynamic> toJson() => _$", name, "ToJson(this);"]

/-- The class as the template lays it out. -/
def templateLayout (c : SourceClass) : ClassLayout where
  header := c.declarationLine ++ " \x7b"
  head := c.head
  fields := c.fields.map fun f => (f.bodyLine, f.bare)
  constructor := some (constructorItem [] c.shownName (c.fields.map Field.templateParameter))
  items := [Item.blank, { first := fromJsonLine c.shownName }, Item.blank,
    { first := toJsonLine c.shownName }]

/-- The line of the annotation, if there is to be one. -/
def markLines (annotate : Bool) : List Text :=
  if annotate then [templateMark ++ "()"] else []

theorem parameterLine_eq (f : Field) :
    of ["    ", if f.isNullable then "" else "required ", "this.", f.name, ","]
      = "    " ++ (f.templateParameter ++ [',']) := by
  unfold Field.templateParameter
  cases f.isNullable <;> (rw [append_assoc, append_assoc]; rfl)

/-- The text from the template is that of a layout. -/
theorem fromTemplate_eq (c : SourceClass) (annotate : Bool) :
    c.fromTemplate annotate = unlines (markLines annotate ++ c.templateLayout.lines) := by
  have hfields : c.templateLayout.fields.map Prod.fst = c.fields.map Field.bodyLine := map_map
  have hparameters : c.fields.map (fun f =>
        of ["    ", if f.isNullable then "" else "required ", "this.", f.name, ","])
      = (c.fields.map Field.templateParameter).map fun p => "    ".toList ++ (p ++ [',']) := by
    rw [map_map]
    exact map_congr_left fun f _ => parameterLine_eq f
  have hconstructor : itemLines c.templateLayout.constructorItems
      = ["".toList, of ["  ", c.shownName, "(\x7b"]]
        ++ ((c.fields.map Field.templateParameter).map (fun p => "    ".toList ++ (p ++ [',']))
          ++ ["  \x7d);".toList]) := by
    show [[], "  ".toList ++ ([] ++ (c.shownName ++ ['(', '{']))] ++ (_ ++ []) = _
    rw [append_nil]
    rfl
  have hitems : itemLines c.templateLayout.items
      = ["".toList, fromJsonLine c.shownName, "".toList, toJsonLine c.shownName] := rfl
  unfold fromTemplate
  dsimp only
  rw [hparameters, ClassLayout.lines, hfields, hconstructor, hitems]
  simp only [append_assoc]
  rfl

/-! ## §4. Scanning the lines. -/

/-- A line that begins with a word other than the name of the class and has an arrow is passed
    over. -/
theorem silent_arrow {name lead rest : Text} {a d : Char} (ha : lead.head? = some a)
    (hblank : isBlank a = false) (hc : a ≠ 'c') (hab : a ≠ 'a') (hparen : '(' ∉ lead)
    (hd : isWord d = false) (hd' : d ≠ '(') (hw : name.all isWord)
    (harrow : "=>" <:+: rest) :
    ({ first := "  " ++ (lead ++ d :: rest) } : Item).Silent name := by
  obtain ⟨r, rfl⟩ : ∃ r, lead = a :: r := by
    cases lead with
    | nil => simp at ha
    | cons b r => exact ⟨r, by simpa using ha⟩
  have hmargin : ∀ c ∈ "  ".toList, isBlank c := List.all_eq_true.mp (by decide)
  have htrim : trimStart ("  " ++ (a :: r ++ d :: rest)) = a :: r ++ d :: rest := by
    rw [trimStart_append_of_blank hmargin]
    exact trimStart_cons_of_not_blank hblank _
  -- it begins no class and no constructor, and the arrow makes it no field
  refine ⟨fun l hl => ?_, ?_, .inr fun seen => ?_⟩
  · rw [mem_singleton.mp hl]
    exact isClassLine_of_head hmargin (c := a) rfl hblank hc hab
  · have hconst : startsWith (a :: r ++ d :: rest) "const " = false :=
      startsWith_eq_false (c := a) rfl rfl hc
    rw [OpenClass.afterConst, htrim]
    simp only [hconst, Bool.false_eq_true, if_false]
    rw [startsWith_eq_false_iff]
    intro hpre
    have hname : d ∉ name ++ ['('] := by simp [not_mem_of_all hw hd, hd']
    exact hparen ((prefix_of_not_mem hname hpre).subset (by simp))
  · have hhas : has ("  " ++ (a :: r ++ d :: rest)) "=>" :=
      has_iff.mpr (harrow.trans ⟨"  " ++ (a :: r ++ [d]), [], by simp⟩)
    have hsymbol : hasOneOf ("  " ++ (a :: r ++ d :: rest)) memberSymbols :=
      any_eq_true.mpr ⟨"=>", by decide, hhas⟩
    rw [isFieldLine, hsymbol]
    simp only [Bool.not_true, Bool.and_false, Bool.false_and]

theorem silent_fromJsonLine (hw : name.all isWord) : ({ first := fromJsonLine name } : Item).Sits
      ∧ ({ first := fromJsonLine name } : Item).Silent name := by
  have hname : Adds '{' '}' name 0 := adds_of_isWord hw (by decide) (by decide)
  have hlead : Adds '{' '}' "  factory ".toList 0 := adds_code (by decide) '{' '}'
  have hmid : Adds '{' '}' ".fromJson(Map<String, dynamic> json) => _$".toList 0 :=
    adds_code (by decide) '{' '}'
  have hlast : Adds '{' '}' "FromJson(json);".toList 0 := adds_code (by decide) '{' '}'
  have harrow : "=>".toList <:+: ".fromJson(Map<String, dynamic> json) => _$".toList :=
    has_iff.mp (by decide)
  have hsplit : ∀ t : Text, "  factory ".toList ++ t
      = "  ".toList ++ ("factory".toList ++ ' ' :: t) := fun t => rfl
  have hline : fromJsonLine name = "  factory ".toList ++ (name
      ++ (".fromJson(Map<String, dynamic> json) => _$".toList
        ++ (name ++ ("FromJson(json);".toList ++ [])))) := rfl
  refine ⟨.inl ⟨rfl, ?_⟩, ?_⟩
  · exact hlead.append (hname.append (hmid.append (hname.append (hlast.append tame_nil.adds))))
  · rw [hline, hsplit]
    exact silent_arrow (a := 'f') rfl (by decide) (by decide) (by decide) (by decide) (by decide)
      (by decide) hw (harrow.trans (infix_append' _ _ _))

theorem silent_toJsonLine (hw : name.all isWord) :
    ({ first := toJsonLine name } : Item).Sits
      ∧ ({ first := toJsonLine name } : Item).Silent name := by
  have hname : Adds '{' '}' name 0 := adds_of_isWord hw (by decide) (by decide)
  have hlead : Adds '{' '}' "  Map<String, dynamic> toJson() => _$".toList 0 :=
    adds_code (by decide) '{' '}'
  have hlast : Adds '{' '}' "ToJson(this);".toList 0 := adds_code (by decide) '{' '}'
  have harrow : "=>".toList <:+: "String, dynamic> toJson() => _$".toList := has_iff.mp (by decide)
  have hsplit : ∀ t : Text, "  Map<String, dynamic> toJson() => _$".toList ++ t
      = "  ".toList ++ ("Map".toList ++ '<' :: ("String, dynamic> toJson() => _$".toList ++ t)) :=
    fun t => rfl
  have hline : toJsonLine name = "  Map<String, dynamic> toJson() => _$".toList
      ++ (name ++ ("ToJson(this);".toList ++ [])) := rfl
  refine ⟨.inl ⟨rfl, ?_⟩, ?_⟩
  · exact hlead.append (hname.append (hlast.append tame_nil.adds))
  · rw [hline, hsplit]
    exact silent_arrow (a := 'M') rfl (by decide) (by decide) (by decide) (by decide) (by decide)
      (by decide) hw (harrow.trans (prefix_append _ _).isInfix)

variable {c : SourceClass} {name : Text}

theorem areParameters_templateParameter (h : ∀ f ∈ c.fields, f.Printable) :
    AreParameters (c.fields.map Field.templateParameter) := by
  intro p hp
  obtain ⟨f, hf, rfl⟩ := mem_map.mp hp
  refine ⟨f.name, ?_, (h f hf).name_word⟩
  unfold Field.templateParameter
  cases f.isNullable with
  | true => exact .bare
  | false => exact .required

/-- What is known of a class that was scanned and can be written. -/
structure Writable (c : SourceClass) (name : Text) : Prop where
  head : c.head.Printable name
  not_state : c.head.isState = false
  opens : opensBody (c.declarationLine ++ " \x7b") = true
  fields : ∀ f ∈ c.fields, f.Printable
  begins : ∀ f ∈ c.fields, f.modifiers = [] →
    f.declarationLine.startsWith name = false ∧ isClassLine f.declarationLine = false

theorem IsDeclared.writable (h : c.IsDeclared) (hw : c.isWritable) : ∃ name, c.Writable name := by
  simp only [isWritable, Bool.and_eq_true, all_eq_true] at hw
  obtain ⟨name, hname⟩ := Declaration.isPrintable_iff.mp hw.1.1
  have hshown : c.shownName = name := hname.shownName_eq
  refine ⟨name, hname, h.not_state, hw.1.2, fun f hf => (h.fields f hf).printable (hw.2 f hf),
    fun f hf => ?_⟩
  exact Field.begins_of_isWritable (hshown ▸ hw.2 f hf)

namespace Writable

theorem shownName_eq (h : c.Writable name) : c.shownName = name := h.head.shownName_eq

theorem name_word (h : c.Writable name) : name.all isWord :=
  all_isWord_of_isIdentifier h.head.identifier

/-- **The layout of the template fits the scanner.** -/
theorem fits (h : c.Writable name) : c.templateLayout.Fits name where
  header := h.head.isHeader_print h.not_state h.opens
  name_eq := h.head.name_eq
  upper := h.head.upper
  fields := by
    intro x hx
    obtain ⟨f, hf, rfl⟩ := mem_map.mp hx
    exact (h.fields f hf).declares h.head.upper (h.begins f hf)
  constructor := by
    intro i hi
    cases hi
    have := isConstructor_constructorItem h.name_word h.head.upper (.inl rfl)
      (areParameters_templateParameter h.fields)
    rw [← h.shownName_eq] at this ⊢
    exact ⟨_, _, rfl, this⟩
  items := by
    intro i hi
    simp only [templateLayout, h.shownName_eq, mem_cons, not_mem_nil, or_false] at hi
    rcases hi with rfl | rfl | rfl | rfl
    · exact ⟨Item.sits_blank, Item.silent_blank name⟩
    · exact silent_fromJsonLine h.name_word
    · exact ⟨Item.sits_blank, Item.silent_blank name⟩
    · exact silent_toJsonLine h.name_word

/-- The lines of the template are single lines. -/
theorem not_mem_lines (h : c.Writable name) : ∀ l ∈ c.templateLayout.lines, '\n' ∉ l := by
  have hname : '\n' ∉ name := not_mem_of_all h.name_word (by decide)
  intro l hl
  rw [ClassLayout.lines, mem_cons, mem_append, mem_append, mem_append] at hl
  rcases hl with rfl | hl | hl | hl | hl
  · exact h.head.not_mem_print c.isAbstract
  · obtain ⟨x, hx, rfl⟩ := mem_map.mp hl
    obtain ⟨f, hf, rfl⟩ := mem_map.mp hx
    exact (h.fields f hf).not_mem_bodyLine (by decide) (by decide)
  · have hl : l = [] ∨ l ∈ (constructorItem [] c.shownName
        (c.fields.map Field.templateParameter)).lines := by
      simpa [templateLayout, ClassLayout.constructorItems, Item.blank, Item.lines] using hl
    rcases hl with rfl | hl
    · exact not_mem_nil
    · rw [h.shownName_eq] at hl
      exact not_mem_constructorItem (.inl rfl) h.name_word
        (areParameters_templateParameter h.fields) (by decide) l hl
  · have hl : l ∈ [[], fromJsonLine name, [], toJsonLine name] := by
      rw [← h.shownName_eq]
      exact hl
    simp only [mem_cons, not_mem_nil, or_false] at hl
    rcases hl with rfl | rfl | rfl | rfl
    · exact not_mem_nil
    · exact List.not_mem_append (by decide) (List.not_mem_append hname
        (List.not_mem_append (by decide) (List.not_mem_append hname (by decide))))
    · exact not_mem_nil
    · exact List.not_mem_append (by decide) (List.not_mem_append hname (by decide))
  · rw [mem_singleton.mp hl]
    decide

end Writable

/-! ## §5. The class that is found. -/

/-- The class as it is found where it was written, if it begins on the line `n`. -/
def rewritten (c : SourceClass) (n : Int) : SourceClass := c.templateLayout.scanned n

theorem map_bare_rewritten (c : SourceClass) (n : Int) :
    (c.rewritten n).fields.map Field.bare = c.fields.map Field.bare := by
  show (fieldsAt (n + 1) (c.templateLayout.fields.map Prod.snd)).map Field.bare = _
  rw [map_bare_fieldsAt, templateLayout, map_map, map_map]
  exact map_congr_left fun f _ => f.bare_bare

theorem map_name_of_bare {fs gs : List Field} (h : fs.map Field.bare = gs.map Field.bare) :
    fs.map Field.name = gs.map Field.name := by
  have := congrArg (List.map Field.name) h
  simpa only [map_map, Function.comp_def, Field.name_bare] using this

theorem isValid_rewritten {n : Int} (h : c.isValid) : (c.rewritten n).isValid := by
  simp only [isValid, hasDistinctNames, Bool.and_eq_true] at h ⊢
  have hfields := c.map_bare_rewritten n
  have hempty : (c.rewritten n).fields.isEmpty = c.fields.isEmpty := by
    rw [← isEmpty_map (f := Field.bare), hfields, isEmpty_map]
  refine ⟨⟨⟨⟨rfl, h.1.1.1.2⟩, rfl⟩, ?_⟩, ?_⟩
  · rw [hempty]
    exact h.1.2
  · rw [map_name_of_bare hfields]
    exact h.2

theorem isAbstract_rewritten (c : SourceClass) (n : Int) :
    (c.rewritten n).isAbstract = c.isAbstract := by
  have hcontent : ∃ t, (c.rewritten n).content
      = (if c.isAbstract then "abstract class ".toList else "class ".toList) ++ t := by
    show ∃ t, unlines (c.templateLayout.header :: _) = _
    rw [unlines, join_cons (by simp)]
    show ∃ t, (Declaration.print c.head c.isAbstract ++ " \x7b".toList) ++ _ ++ _ = _
    unfold Declaration.print
    simp only [append_assoc]
    exact ⟨_, rfl⟩
  obtain ⟨t, ht⟩ := hcontent
  rw [isAbstract, ht]
  cases c.isAbstract <;> rfl

/-- What the template writes depends on the head and the fields alone. -/
theorem templateLayout_congr {d : SourceClass} (hhead : d.head = c.head)
    (habstract : d.isAbstract = c.isAbstract)
    (hfields : d.fields.map Field.bare = c.fields.map Field.bare) :
    d.templateLayout = c.templateLayout := by
  have hmap : ∀ {β : Type} (g : Field → β), (∀ f, g f.bare = g f) →
      d.fields.map g = c.fields.map g := by
    intro β g hg
    have := congrArg (List.map g) hfields
    simpa only [map_map, Function.comp_def, hg] using this
  have hlines : d.fields.map (fun f => (f.bodyLine, f.bare)) = c.fields.map
      fun f => (f.bodyLine, f.bare) :=
    hmap _ fun f => by rw [Field.bodyLine, f.declarationLine_bare, f.bare_bare]; rfl
  unfold templateLayout declarationLine shownName
  rw [hhead, habstract, hlines, hmap Field.templateParameter Field.templateParameter_bare]

/-- **Writing the class that is found gives the same lines.** -/
theorem templateLayout_rewritten (c : SourceClass) (n : Int) :
    (c.rewritten n).templateLayout = c.templateLayout :=
  templateLayout_congr rfl (c.isAbstract_rewritten n) (c.map_bare_rewritten n)

end SourceClass

end DartData
