import DartData.Proofs.Field.Print

/-!
# The lines of plain fields

The line of a plain field is the one that is written for it, so that the scanner reads the field
from it and the depth of brackets stays as it is.
-/

namespace DartData

open List Text

/-! ## §1. Characters. -/

theorem isRawTypeChar_of_isTypeChar {c : Char} (h : isTypeChar c) : isRawTypeChar c := by
  simp [isRawTypeChar, h]

theorem isFlat_of_isTypeChar {c : Char} (h : isTypeChar c) : isFlat c :=
  isFlat_of_isRawTypeChar (isRawTypeChar_of_isTypeChar h)

/-! ## §2. Field lines. -/

namespace PlainField

/-- The field that a plain field is on the line `n`. -/
def field (f : PlainField) (n : Int) : Field :=
  { rawType := f.type, sourceName := f.name, line := n }

theorem name_field (f : PlainField) (n : Int) : (f.field n).name = f.name := f.variable_eq

theorem printable_field (f : PlainField) (n : Int) : (f.field n).Printable where
  type_words := by
    intro w hw
    refine ⟨fun hmem => ?_, f.isType.noGap w hw⟩
    have h := f.type_words
    simp only [hasWordOf, any_eq_false, contains_iff_mem] at h
    exact h w hmem hw
  type_chars := fun c hc => isRawTypeChar_of_isTypeChar (f.isType.all_isTypeChar c hc)
  isName := (f.name_field n).symm ▸ f.isName
  const_alone := fun h => absurd h Bool.false_ne_true

theorem line_eq_bodyLine (f : PlainField) (n : Int) : f.line = (f.field n).bodyLine := by
  rw [Field.bodyLine, Field.declarationLine_eq, f.name_field]
  simp [line, of, Field.modifiers, field, join_cons_cons]

theorem not_mem_line (f : PlainField) {c : Char} (hc : isRawTypeChar c = false) (hs : c ≠ ';') :
    c ∉ f.line :=
  f.line_eq_bodyLine 0 ▸ (f.printable_field 0).not_mem_bodyLine hc hs

theorem tame_line (f : PlainField) : Tame f.line 0 :=
  f.line_eq_bodyLine 0 ▸ (f.printable_field 0).tame_bodyLine

end PlainField

/-- A line without a slash has no comment. -/
theorem marksEnum_of_not_mem {line : Text} (h : '/' ∉ line) : marksEnum line = false := by
  induction line with
  | nil => rfl
  | cons c r ih =>
    rw [mem_cons, not_or] at h
    simp [marksEnum, ih h.2, startsWith, isPrefixOf, h.1]

/-- The fields on the lines from `n` on. -/
def fieldsFrom (n : Int) : List PlainField → List Field
  | [] => []
  | f :: fs => f.field n :: fieldsFrom (n + 1) fs

end DartData
