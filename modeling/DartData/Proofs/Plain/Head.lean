import DartData.Proofs.Constructor.Parameter
import DartData.Proofs.Declaration.Print
import DartData.Proofs.Member.Search

/-!
# Class lines of plain classes

The line that begins a plain class, before and after the class has adopted `Equatable`, is read back
as the declaration that it was written from.
-/

namespace DartData

open List Text

/-- The head of a plain class, before and after it has adopted `Equatable`. -/
def plainHead (name : Text) (adopted asMixin : Bool) : Declaration :=
  if !adopted then { name := some name }
  else if asMixin then { name := some name, mixins := ["EquatableMixin"] }
  else { name := some name, superclass := some "Equatable" }

/-- The class line that is written for the head. -/
def headLine (head : Declaration) : Text := head.print false ++ " \x7b"

/-- What follows the name on the class line. -/
def headTail (adopted asMixin : Bool) : Text :=
  if !adopted then "\x7b"
  else if asMixin then "with EquatableMixin \x7b"
  else "extends Equatable \x7b"

variable {name : Text}

section

variable (name : Text) (adopted asMixin : Bool)

@[simp] theorem name_plainHead : (plainHead name adopted asMixin).name = some name := by
  cases adopted <;> cases asMixin <;> rfl

@[simp] theorem generics_plainHead : (plainHead name adopted asMixin).generics = [] := by
  cases adopted <;> cases asMixin <;> rfl

theorem isWidget_plainHead : (plainHead name adopted asMixin).isWidget = false := by
  cases adopted <;> cases asMixin <;> rfl

theorem usesEquatable_plainHead : (plainHead name adopted asMixin).usesEquatable = adopted := by
  cases adopted <;> cases asMixin <;> rfl

theorem superclass_plainHead :
    (plainHead name adopted asMixin).superclass.any (·.has "Base") = false := by
  cases adopted <;> cases asMixin <;> rfl

theorem headLine_plainHead : headLine (plainHead name adopted asMixin)
      = "class " ++ (name ++ ' ' :: headTail adopted asMixin) := by
  cases adopted <;> cases asMixin <;>
    simp only [headLine, Declaration.print, Declaration.shownName, plainHead, Bool.not_false,
      Bool.not_true, if_true, if_false, Bool.false_eq_true, Option.getD_some, isEmpty_nil,
      isEmpty_cons, append_nil, append_assoc, join_singleton] <;> rfl

end

theorem printable_plainHead (hup : name.head?.any Char.isUpper) (hn : isIdentifier name)
    (adopted asMixin : Bool) : (plainHead name adopted asMixin).Printable name := by
  have hmixin : ∀ m ∈ ["EquatableMixin".toList], isSupertype m := by decide
  have hnone : ∀ m ∈ ([] : List Text), isSupertype m := by decide
  have hsuper : (some "Equatable".toList).all isSupertype := by decide
  cases adopted with
  | false => exact ⟨rfl, hn, hup, .inl rfl, rfl, hnone, hnone⟩
  | true =>
    cases asMixin with
    | false => exact ⟨rfl, hn, hup, .inl rfl, hsuper, hnone, hnone⟩
    | true => exact ⟨rfl, hn, hup, .inl rfl, rfl, hmixin, hnone⟩

theorem not_mem_headLine (hn : isIdentifier name) (adopted asMixin : Bool) {d : Char}
    (hd : d ∈ unwrittenChars) : d ∉ headLine (plainHead name adopted asMixin) := by
  have hfixed : ∀ d ∈ unwrittenChars, isWord d = false ∧ d ∉ "class ".toList ∧ d ≠ ' '
      ∧ d ∉ headTail adopted asMixin := by
    cases adopted <;> cases asMixin <;> exact forall_mem_of_all (by decide)
  obtain ⟨hword, hclass, hrest⟩ := hfixed d hd
  have hname : d ∉ name := not_mem_of_all (all_isWord_of_isIdentifier hn) hword
  rw [headLine_plainHead]
  simp only [mem_append, mem_cons, not_or]
  exact ⟨hclass, hname, hrest⟩

/-- **The class line of a plain class begins the class.** -/
theorem isHeader_headLine (hup : name.head?.any Char.isUpper) (hn : isIdentifier name)
    (adopted asMixin : Bool) :
    IsHeader (headLine (plainHead name adopted asMixin)) (plainHead name adopted asMixin) := by
  have hw := all_isWord_of_isIdentifier hn
  -- the tail of the line opens the body, and the name opens nothing
  have hadds : ∀ {o c : Char} {k : Int}, isWord o = false → isWord c = false →
      Adds o c "class " 0 → Adds o c (' ' :: headTail adopted asMixin) k →
      Adds o c (headLine (plainHead name adopted asMixin)) k := by
    intro o c k ho hc hlead htail
    have hline := hlead.append ((adds_of_isWord hw ho hc).append htail)
    rwa [Int.zero_add, Int.zero_add, ← headLine_plainHead] at hline
  have hcurly : Adds '{' '}' (' ' :: headTail adopted asMixin) 1 := by
    cases adopted <;> cases asMixin <;> exact adds_code (by decide) '{' '}'
  have hparen : Adds '(' ')' (' ' :: headTail adopted asMixin) 0 := by
    cases adopted <;> cases asMixin <;> exact adds_code (by decide) '(' ')'
  refine (printable_plainHead hup hn adopted asMixin).isHeader_print
    (by cases adopted <;> cases asMixin <;> rfl) (opensBody_of_adds ?_ ?_ ?_)
  · exact hadds (by decide) (by decide) (adds_code (by decide) '{' '}') hcurly
  · exact hadds (by decide) (by decide) (adds_code (by decide) '(' ')') hparen
  · exact not_mem_headLine hn adopted asMixin (by decide)

end DartData
