import DartData.Member.Serialization
import DartData.Proofs.Lexer.Reads

/-!
# The expressions of serialization members

The value that `toMap` stores for a field and the argument that `fromMap` makes of it are written in
many ways, which depend on the type of the field, and for a collection on the type of its elements,
which are a field of another name.  `Measures` says what a property of texts needs for all of these
expressions to have it: it stays when pieces are put together, and the few pieces there are have it.
It may count entries of the map: there is one in an argument, with a test for null two.  And it may
count round brackets: they are closed where they were opened, with one exception, which is the
default for an element that is itself a collection of plain values (`Field.nestsPlain`).
-/

namespace DartData

open List Text

/-- Whether a text is code on one line, without literals, that closes the curly brackets it
    opens. -/
def Text.isPlainCode (t : Text) : Bool :=
  t.all isTame && ((t.count '{' : Int) - t.count '}' == 0)

/-- How many more round brackets a text opens than it closes. -/
def Text.rounds (t : Text) : Int := (t.count '(' : Int) - t.count ')'

/-- A list or set whose elements are not stored as they are, but are collections of values that
    are. -/
def Field.nestsPlain (f : Field) : Bool :=
  !f.isEnum && f.isCollection && !f.isPrimitive && !f.element.isNullable && f.element.isPrimitive

namespace Member

/-- The entry of a field in the map. -/
def entryLine (f : Field) : Text := of ["    '", f.sourceName, "': ", storedValue f, ","]

/-! ## §1. Defaults. -/

/-- Whether the value of a field gets a default. -/
def addsDefault (r : MapReading) (e : Field) : Bool :=
  r.defaultValues && e.rawType != "dynamic" && !e.isNullable && e.isPrimitive

/-- What is made from a number gets no default. -/
theorem addsDefault_of_made (r : MapReading) (e : Field) :
    ∀ t ∈ ["DateTime", "Color", "IconData"].map String.toList, (e.type == t) →
      addsDefault r e = false := by
  intro t h ht
  have ht : e.type = t := eq_of_beq ht
  have hraw : e.rawType = e.type ∨ e.rawType = e.type ++ ['?'] := by
    unfold Field.type removeEnd
    split
    next he =>
      obtain ⟨t, ht⟩ := endsWith_iff.mp he
      exact .inr (by simp [← ht])
    next => exact .inl rfl
  have hprimitive : e.isPrimitive = false := by
    rw [ht] at hraw
    obtain ⟨raw, source, line⟩ := e
    simp only [map_cons, map_nil, mem_cons, not_mem_nil, or_false] at h
    rcases h with rfl | rfl | rfl <;> rcases hraw with hraw | hraw <;> cases hraw <;> rfl
  simp [addsDefault, hprimitive]

/-- The brackets that the default for the elements of a field closes and does not open. -/
def spareBrackets (r : MapReading) (f : Field) : Int :=
  if r.defaultValues && f.nestsPlain then 1 else 0

theorem spareBrackets_eq_zero (r : MapReading) {f : Field} (h : f.nestsPlain = false) :
    spareBrackets r f = 0 := by
  rw [spareBrackets, h, Bool.and_false]
  rfl

/-- The elements that get a default are those of collections of collections. -/
theorem addsDefault_element (r : MapReading) {f : Field}
    (hf : (!f.isEnum && f.isCollection && !f.isPrimitive)) :
    (if addsDefault r f.element then 1 else 0) = spareBrackets r f := by
  have hdynamic : (f.element.rawType != "dynamic") := by
    rw [bne_iff_ne]
    intro he
    have htype : f.element.type = "dynamic" := by
      rw [Field.type, he]
      rfl
    simp [Field.isPrimitive, htype, Field.plainTypes] at hf
  rw [spareBrackets, addsDefault, Field.nestsPlain, hdynamic, hf, Bool.and_true, Bool.true_and,
    Bool.and_assoc]

/-! ## §2. Measures. -/

/-- `P m i t` is a property of the texts `t` with `m` entries of the field `f` and `i` more round
    brackets opened than closed, which holds of the pieces that the expressions for `f` are made of,
    and of pieces put together. -/
structure Measures (P : Nat → Int → Text → Prop) (f : Field) : Prop where
  append : ∀ {m k : Nat} {i j : Int} {t u : Text}, P m i t → P k j u → P (m + k) (i + j) (t ++ u)
  code : ∀ {i : Int} {t : Text}, t.isPlainCode = true → t.rounds = i → P 0 i t
  icon : P 0 (-1) ", fontFamily: 'MaterialIcons')"
  empty : P 0 (-1) " ?? '')"
  type : P 0 0 f.type
  elementType : P 0 0 f.element.type
  name : P 0 0 f.name
  entry : P 1 0 (mapEntry f)

namespace Measures

variable {P : Nat → Int → Text → Prop} {f : Field} {m : Nat} {i j : Int} {t : Text}
  {ts : List Text}

theorem nil (h : Measures P f) : P 0 0 (of []) := h.code rfl rfl

theorem weigh (ht : P m i t) (hij : i = j) : P m j t := hij ▸ ht

theorem skip (h : Measures P f) (ht : P 0 i t) (hts : P m j (of ts)) :
    P m (i + j) (of (t :: ts)) := by
  have hsum : P (0 + m) (i + j) (of (t :: ts)) := h.append ht hts
  rwa [Nat.zero_add] at hsum

/-- A piece with entries, in front of others without. -/
theorem put (h : Measures P f) (ht : P m i t) (hts : P 0 j (of ts)) :
    P m (i + j) (of (t :: ts)) := h.append ht hts

/-- Something in brackets. -/
theorem wrap (h : Measures P f) {o c : Text} (ho : o.isPlainCode) (hc : c.isPlainCode)
    (hoc : o.rounds + c.rounds = 0) (ht : P m i t) : P m i (of [o, t, c]) := by
  refine weigh (h.skip (h.code ho rfl) (h.put ht (h.put (h.code hc rfl) h.nil))) ?_
  omega

theorem parensIf (h : Measures P f) (ht : P m i t) (b : Bool) : P m i (parensIf b t) := by
  unfold Member.parensIf
  split
  · exact h.wrap rfl rfl rfl ht
  · exact ht

/-- A default value with what stands around it. -/
theorem defaultValue (h : Measures P f) {e : Field} (he : P 0 0 e.type) :
    P 0 (-1) (of [" ?? ", e.defaultValue, ")"]) := by
  have hcode : ∀ t : Text, t.isPlainCode → t.rounds = 0 → P 0 (-1) (of [" ?? ", t, ")"]) :=
    fun t ht h0 => weigh (h.skip (h.code rfl rfl) (h.skip (h.code ht h0)
      (h.skip (h.code rfl rfl) h.nil))) rfl
  unfold Field.defaultValue
  split
  · exact hcode _ rfl rfl
  split
  · exact hcode _ rfl rfl
  split
  · -- the empty text is the one default that is a literal
    exact h.empty
  split
  · exact hcode _ rfl rfl
  split
  · exact hcode _ rfl rfl
  split
  · exact hcode _ rfl rfl
  split
  · exact hcode _ rfl rfl
  · have hcall : P 0 0 (e.type ++ ['(', ')']) := h.append (j := 0) he (h.code rfl rfl)
    exact weigh (h.skip (h.code rfl rfl) (h.skip hcall (h.skip (h.code rfl rfl) h.nil))) rfl

/-- A value is read with as many entries as the plain value `x` that it is made from.  A default
    closes the bracket that stands before an entry, and closes one before any other value. -/
theorem readValue (h : Measures P f) (r : MapReading) (given : Option Text) {e : Field}
    (he : (if f.isCollection then f.element else f) = e)
    (hx : P m i (given.getD ((if addsDefault r e then ['('] else []) ++ mapEntry e)))
    (hj : (if addsDefault r e then 1 else 0) = j) : P m (i - j) (readValue r f given) := by
  have htype : P 0 0 e.type := by
    rw [← he]
    split
    · exact h.elementType
    · exact h.type
  have hint : P 0 0 (if f.isCollection then [] else " as int") := by
    split
    · exact h.nil
    · exact h.code rfl rfl
  have hmade := addsDefault_of_made r e
  have hplain : e.isPrimitive = false → addsDefault r e = false := by
    intro hp
    simp [addsDefault, hp]
  unfold Member.readValue
  dsimp only
  rw [he, ← addsDefault]
  generalize addsDefault r e = b at hmade hplain hx hj ⊢
  generalize given.getD ((if b then ['('] else []) ++ mapEntry e) = x at hx ⊢
  have hzero : P m i (if r.defaultValues then of ["(", x, " ?? 0)"] else x) := by
    split
    · exact h.wrap rfl rfl rfl hx
    · exact hx
  have hnone : b = false → i = i - j := by
    rintro rfl
    rw [← hj]
    exact (Int.sub_zero i).symm
  -- dates, colours and icons are made from a number
  have hnumber : ∀ {o c : Text}, o.isPlainCode → o.rounds = 1 → P 0 (-1) c →
      P m i (of [o, if r.defaultValues then of ["(", x, " ?? 0)"] else x,
        if f.isCollection then [] else " as int", c]) := by
    intro o c ho h1 hc
    refine weigh (h.skip (h.code ho rfl) (h.put hzero (h.put hint (h.put hc h.nil)))) ?_
    omega
  split
  next ht => exact weigh (hnumber rfl rfl (h.code rfl rfl)) (hnone (hmade _ (by decide) ht))
  split
  next ht => exact weigh (hnumber rfl rfl (h.code rfl rfl)) (hnone (hmade _ (by decide) ht))
  split
  next ht => exact weigh (hnumber rfl rfl h.icon) (hnone (hmade _ (by decide) ht))
  -- classes by their own `fromMap`
  split
  next hp =>
    have hcall := h.skip htype (h.wrap (o := ".fromMap(")
      (c := " as Map<String, dynamic>)") rfl rfl rfl hx)
    rw [Int.zero_add] at hcall
    exact weigh hcall (hnone (hplain (by simpa using hp)))
  -- and the others are what they are
  have hcoerced : P m i (if r.coerceNumbers && e.isDouble then x ++ ".toDouble()"
      else if r.coerceNumbers && e.isInt then x ++ ".toInt()" else x) := by
    split
    · exact weigh (h.append hx (h.code rfl rfl)) (Int.add_zero i)
    split
    · exact weigh (h.append hx (h.code rfl rfl)) (Int.add_zero i)
    · exact hx
  cases b with
  | true =>
    rw [← hj]
    exact h.put hcoerced (h.defaultValue htype)
  | false => exact weigh hcoerced (hnone rfl)

section

variable (h : Measures P f)
include h

theorem readValue_none (r : MapReading) (hf : f.isCollection = false) :
    P 1 0 (Member.readValue r f none) := by
  have hopen : P 0 (if addsDefault r f then 1 else 0) (if addsDefault r f then ['('] else []) := by
    split
    · exact h.code rfl rfl
    · exact h.nil
  have hself : (if f.isCollection then f.element else f) = f := by
    rw [hf]
    rfl
  exact weigh (h.readValue r none hself (h.append hopen h.entry) rfl) (by omega)

theorem collectionDefault (r : MapReading) : P 0 0 (collectionDefault r f) := by
  have hbrackets : P 0 0 (if f.isList then "[]" else "\x7b\x7d") := by
    split
    · exact h.code rfl rfl
    · exact h.code rfl rfl
  unfold Member.collectionDefault
  split
  · split
    · exact h.code rfl rfl
    · exact weigh (h.skip (h.code rfl rfl) (h.skip h.elementType (h.skip (h.code rfl rfl)
        (h.skip hbrackets h.nil)))) rfl
  · exact h.nil

/-- **Each field is read with one entry of the map**, whatever its type, and closes the brackets
    that it opens, and those of defaults for its elements. -/
theorem readField (r : MapReading) : P 1 (-spareBrackets r f) (readField r f) := by
  have horElse : ∀ default : Text, default.isPlainCode → default.rounds = 0 →
      P 1 0 (Member.parensIf r.defaultValues
        (mapEntry f ++ if r.defaultValues then default else [])) := by
    intro default hdefault h0
    refine h.parensIf ?_ _
    split
    · exact h.append h.entry (h.code hdefault h0)
    · exact h.append h.entry h.nil
  have hnone : f.nestsPlain = false → 0 = -spareBrackets r f := by
    intro hf
    rw [spareBrackets_eq_zero r hf]
    rfl
  unfold Member.readField
  dsimp only
  split
  next he =>
    -- enumeration values
    refine weigh (i := 0) ?_ (hnone (by simp [Field.nestsPlain, he]))
    split
    · exact weigh (h.skip h.type (h.skip (h.code rfl rfl) (h.put (horElse _ rfl rfl)
        (h.put (h.code rfl rfl) (h.put h.elementType (h.put (h.code rfl rfl) (h.put h.elementType
        (h.put (h.code rfl rfl) h.nil)))))))) rfl
    · exact weigh (h.skip h.type (h.skip (h.code rfl rfl) (h.put (horElse _ rfl rfl)
        (h.put (h.code rfl rfl) h.nil)))) rfl
  split
  next he hf =>
    -- collections
    split
    next hp =>
      have hguarded : P 1 0 (mapEntry f ++ Member.collectionDefault r f) :=
        h.append h.entry (h.collectionDefault r)
      exact weigh (h.skip h.type (h.skip (h.code rfl rfl) (h.put (h.parensIf hguarded _)
        (h.put (h.code rfl rfl) (h.put h.type (h.put (h.code rfl rfl) h.nil))))))
        (hnone (by simp [Field.nestsPlain, hp]))
    next hp =>
      have hvalue := h.readValue r (some "x") (if_pos hf) (h.code rfl rfl)
        (addsDefault_element r (by simp [he, hf, hp]))
      refine weigh (h.skip h.type (h.skip (h.code rfl rfl) (h.put h.entry (h.put (h.code rfl rfl)
        (h.put h.elementType (h.put (h.code rfl rfl) (h.put hvalue (h.put (h.code rfl rfl)
        h.nil)))))))) ?_
      generalize spareBrackets r f = d
      show 0 + (2 + (0 + (-1 + (0 + (1 + (0 - d + (-2 + 0))))))) = -d
      omega
  next he hf =>
    -- single values
    have hvalue := h.readValue_none r (Bool.eq_false_iff.mpr hf)
    refine weigh (i := 0) ?_ (hnone (by simp [Field.nestsPlain, hf]))
    split
    · exact weigh (h.put hvalue (h.put (h.code rfl rfl) (h.put h.type h.nil))) rfl
    · exact hvalue

theorem label (c : SourceClass) : P 0 0 (c.label f) := by
  unfold SourceClass.label
  split
  · exact h.append (j := 0) h.name (h.code rfl rfl)
  · exact h.nil

/-- The test for null reads the entry once more. -/
theorem mapArgument (c : SourceClass) (r : MapReading) :
    P (if f.isNullable then 2 else 1) (-spareBrackets r f) (mapArgument c r f) := by
  have hlabel := h.label c
  have hfield := h.readField r
  unfold Member.mapArgument
  split
  · have htested := h.wrap (o := " != null ? ") (c := " : null") rfl rfl rfl hfield
    exact weigh (h.skip hlabel (h.put (h.append h.entry htested) h.nil)) (by omega)
  · exact weigh (h.skip hlabel (h.put hfield h.nil)) (by omega)

theorem nullMark (e : Field) : P 0 0 e.nullMark := by
  unfold Field.nullMark
  split
  · exact h.code rfl rfl
  · exact h.nil

/-- The plain value of something is written without entries. -/
theorem plainValue {x : Text} (hx : P 0 0 x) : P 0 0 (plainValue f x) := by
  have hcall : ∀ (e : Field) (t : Text), t.isPlainCode → t.rounds = 0 →
      P 0 0 (of [x, e.nullMark, t]) := fun e t ht h0 =>
    weigh (h.skip hx (h.skip (h.nullMark e) (h.skip (h.code ht h0) h.nil))) rfl
  unfold Member.plainValue
  dsimp only
  generalize (if f.isCollection then f.element else f) = e
  split
  · exact hcall e _ rfl rfl
  split
  · exact hcall e _ rfl rfl
  split
  · exact hcall e _ rfl rfl
  split
  · exact hx
  · exact hcall e _ rfl rfl

/-- The value that `toMap` stores. -/
theorem storedValue : P 0 0 (storedValue f) := by
  have hmark := h.nullMark f
  have hx : P 0 0 "x" := h.code rfl rfl
  unfold Member.storedValue
  split
  · split
    · exact weigh (h.skip h.name (h.skip hmark (h.skip (h.code rfl rfl) h.nil))) rfl
    · exact weigh (h.skip h.name (h.skip hmark (h.skip (h.code rfl rfl) h.nil))) rfl
  split
  · split
    · refine h.append (k := 0) (j := 0) h.name ?_
      split
      · exact h.append (j := 0) hmark (h.code rfl rfl)
      · exact h.nil
    · exact weigh (h.skip h.name (h.skip hmark (h.skip (h.code rfl rfl) (h.skip (h.plainValue hx)
        (h.skip (h.code rfl rfl) h.nil))))) rfl
  · exact h.plainValue h.name

end

end Measures

end Member

end DartData
