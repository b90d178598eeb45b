import DartData.Field
import DartData.Proofs.Text.Lines

/-!
# The type of the elements

The type of the elements of a list or a set is cut out of the type as written: its head `List<`
goes, and so does its first closing bracket.  The bracket that belongs to the head is the last one,
so the cut is right where the closing brackets stand together:

    List<Map<String, Set<int>>>     gives   Map<String, Set<int>>
    List<Map<Set<int>, String>>     gives   Map<Set<int, String>>

`TypeExpr` is the grammar of types.  Main statement: **`element_rawType_iff`**, which says for which
of them the elements have the type that is written, and what the question mark of a nullable
collection does.
-/

namespace DartData

open List Text

/-! ## §1. Type expressions. -/

/-- Whether a character is none of the marks of a type expression. -/
def isTypeNameChar (c : Char) : Bool := !(['<', '>', ',', '?', ' '].contains c)

/-- The name of a type. -/
structure TypeName where
  text : Text
  plain : text.all isTypeNameChar = true

theorem TypeName.not_mem (name : TypeName) {c : Char} (hc : isTypeNameChar c = false) :
    c ∉ name.text :=
  not_mem_of_all name.plain hc

/-- A type: a name, perhaps with type arguments, and perhaps nullable. -/
inductive TypeExpr where
  | mk (name : TypeName) (args : List TypeExpr) (nullable : Bool)

namespace TypeExpr

/-- Whether the type has no type arguments. -/
def isBare : TypeExpr → Bool
  | .mk _ args _ => args.isEmpty

/-- Whether the type ends with a question mark. -/
def isNullable : TypeExpr → Bool
  | .mk _ _ nullable => nullable

/-- Type arguments in their brackets; nothing if there are none. -/
def bracketed (args : List Text) : Text :=
  if args.isEmpty then [] else '<' :: (join ", " args ++ ['>'])

/-- The mark of nullable types. -/
def mark (nullable : Bool) : Text := if nullable then ['?'] else []

mutual

/-- The type as it is written. -/
def print : TypeExpr → Text
  | .mk name args nullable => name.text ++ (bracketed (printAll args) ++ mark nullable)

/-- Types as they are written, one by one. -/
def printAll : List TypeExpr → List Text
  | [] => []
  | e :: es => e.print :: printAll es

end

mutual

/-- Whether the closing brackets stand together at the end: only the last of the type arguments has
    type arguments itself, and no question mark follows them. -/
def closesLast : TypeExpr → Bool
  | .mk _ args nullable => args.isEmpty || (!nullable && lastCloses args)

/-- Whether closing brackets stand only at the end of the last type argument. -/
def lastCloses : List TypeExpr → Bool
  | [] => true
  | e :: es => if es.isEmpty then e.closesLast else e.isBare && lastCloses es

end

theorem printAll_isEmpty (es : List TypeExpr) : (printAll es).isEmpty = es.isEmpty := by
  cases es <;> rfl

end TypeExpr

/-! ## §2. Closing brackets at the end. -/

namespace Text

/-- Whether there is nothing but closing brackets from the first one on. -/
def closesAtEnd (t : Text) : Bool := (t.dropWhile (· != '>')).all (· == '>')

theorem closesAtEnd_append_of_not_mem {a : Text} (h : '>' ∉ a) (b : Text) :
    closesAtEnd (a ++ b) = closesAtEnd b := by
  have hall : ∀ c ∈ a, (c != '>') := fun c hc => bne_iff_ne.mpr fun heq => h (heq ▸ hc)
  rw [closesAtEnd, dropWhile_append_of_pos hall, closesAtEnd]

theorem closesAtEnd_of_not_mem {t : Text} (h : '>' ∉ t) : closesAtEnd t := by
  have hnil : closesAtEnd (t ++ []) := closesAtEnd_append_of_not_mem h []
  rwa [append_nil] at hnil

theorem closesAtEnd_append_of_mem {a : Text} (h : '>' ∈ a) (b : Text) :
    closesAtEnd (a ++ b) = (closesAtEnd a && b.all (· == '>')) := by
  obtain ⟨u, v, rfl, hu⟩ := eq_append_cons_of_mem h
  rw [append_assoc, closesAtEnd_append_of_not_mem hu, closesAtEnd_append_of_not_mem hu]
  simp [closesAtEnd]

/-- One more closing bracket at the end changes nothing. -/
theorem closesAtEnd_concat (t : Text) : closesAtEnd (t ++ ['>']) = closesAtEnd t := by
  by_cases h : '>' ∈ t
  · rw [closesAtEnd_append_of_mem h]
    exact Bool.and_true _
  · rw [closesAtEnd_append_of_not_mem h, closesAtEnd_of_not_mem h]
    rfl

/-- Erasing one character erases its first occurrence. -/
theorem eraseFirst_singleton (t : Text) (c : Char) : t.eraseFirst [c] = t.erase c := by
  induction t with
  | nil => rfl
  | cons d r ih =>
    by_cases h : d = c
    · subst h
      simp [eraseFirst, cut?, isPrefixOf]
    · have hcut : eraseFirst (d :: r) [c] = d :: eraseFirst r [c] := by
        have hne : c ≠ d := fun heq => h heq.symm
        rw [eraseFirst, cut?, eraseFirst]
        cases cut? r [c] <;> simp [isPrefixOf, hne]
      rw [hcut, ih, erase_cons_tail (by simpa using h)]

theorem concat_eq_cons_iff {r : Text} {c : Char} : r ++ [c] = c :: r ↔ ∀ d ∈ r, d = c := by
  induction r with
  | nil => simp
  | cons d r ih =>
    rw [cons_append, List.cons.injEq, forall_mem_cons]
    constructor
    · rintro ⟨rfl, hr⟩
      exact ⟨rfl, ih.mp hr⟩
    · rintro ⟨rfl, hr⟩
      exact ⟨rfl, ih.mpr hr⟩

/-- What is left of `t` if, of all closing brackets up to the one behind `t`, the first goes. -/
def cutBracket (t : Text) : Text := (t ++ ['>']).erase '>'

theorem cutBracket_of_mem {t : Text} (h : '>' ∈ t) : t.cutBracket = t.erase '>' ++ ['>'] :=
  erase_append_left _ h

theorem cutBracket_of_not_mem {t : Text} (h : '>' ∉ t) : t.cutBracket = t := by
  rw [cutBracket, erase_append_right _ h, erase_cons_head, append_nil]

theorem length_cutBracket (t : Text) : t.cutBracket.length = t.length := by
  rw [cutBracket, length_erase_of_mem (by simp), length_append, length_singleton,
    Nat.add_sub_cancel]

/-- **The first closing bracket may go for the last one** just where all of them are at the end. -/
theorem cutBracket_eq_self_iff (t : Text) : t.cutBracket = t ↔ closesAtEnd t := by
  unfold cutBracket
  induction t with
  | nil => simp [closesAtEnd]
  | cons c r ih =>
    by_cases h : c = '>'
    · subst h
      rw [cons_append, erase_cons_head, concat_eq_cons_iff]
      simp [closesAtEnd]
    · rw [cons_append, erase_cons_tail (by simpa using h), List.cons.injEq, ih]
      simp [closesAtEnd, h]

end Text

/-! ## §3. Brackets of type expressions. -/

namespace TypeExpr

theorem not_mem_bare {e : TypeExpr} (h : e.isBare) : '>' ∉ e.print := by
  obtain ⟨name, args, nullable⟩ := e
  obtain rfl : args = [] := List.isEmpty_iff.mp h
  have hname : '>' ∉ name.text := name.not_mem rfl
  have hmark : '>' ∉ mark nullable := by cases nullable <;> decide
  rw [print, mem_append, not_or]
  exact ⟨hname, hmark⟩

theorem mem_not_bare {e : TypeExpr} (h : e.isBare = false) : '>' ∈ e.print := by
  obtain ⟨name, args, nullable⟩ := e
  have hargs : args.isEmpty = false := h
  rw [print, bracketed, printAll_isEmpty, hargs]
  simp

/-- The type arguments decide, and a question mark behind them does not go with them. -/
theorem closesAtEnd_bracketed {name : TypeName} {args : List Text} (hargs : args.isEmpty = false)
    (nullable : Bool) :
    closesAtEnd (name.text ++ (bracketed args ++ mark nullable))
      = (!nullable && closesAtEnd (join ", " args)) := by
  have hname : '>' ∉ name.text := name.not_mem rfl
  have hlist : closesAtEnd (bracketed args) = closesAtEnd (join ", " args) := by
    have hopen : bracketed args = ['<'] ++ (join ", " args ++ ['>']) := by
      rw [bracketed, hargs]
      rfl
    rw [hopen, closesAtEnd_append_of_not_mem (by decide), closesAtEnd_concat]
  have hmem : '>' ∈ bracketed args := by
    rw [bracketed, hargs]
    simp
  rw [closesAtEnd_append_of_not_mem hname, closesAtEnd_append_of_mem hmem, hlist, Bool.and_comm]
  cases nullable <;> rfl

mutual

/-- **The closing brackets of a type stand at its end just where its last arguments close last.** -/
theorem closesAtEnd_print (e : TypeExpr) : closesAtEnd e.print = e.closesLast := by
  obtain ⟨name, args, nullable⟩ := e
  cases hargs : args.isEmpty with
  | true =>
    have hbare : isBare (.mk name args nullable) := hargs
    rw [closesAtEnd_of_not_mem (not_mem_bare hbare), closesLast, hargs]
    rfl
  | false =>
    have hall : (printAll args).isEmpty = false := (printAll_isEmpty args).trans hargs
    have hne : args ≠ [] := isEmpty_eq_false_iff.mp hargs
    rw [print, closesAtEnd_bracketed hall, closesAtEnd_join args hne, closesLast, hargs]
    rfl

/-- Of a list of types the last one tells. -/
theorem closesAtEnd_join (es : List TypeExpr) (hne : es ≠ []) :
    closesAtEnd (join ", " (printAll es)) = lastCloses es := by
  cases es with
  | nil => exact absurd rfl hne
  | cons e es =>
    cases hes : es.isEmpty with
    | true =>
      obtain rfl := List.isEmpty_iff.mp hes
      rw [printAll, printAll, join_singleton, closesAtEnd_print e]
      rfl
    | false =>
      have hes' : es ≠ [] := isEmpty_eq_false_iff.mp hes
      have hall : printAll es ≠ [] := by
        rw [← isEmpty_eq_false_iff, printAll_isEmpty, hes]
      have hrest := closesAtEnd_join es hes'
      rw [printAll, join_cons hall, append_assoc, lastCloses, hes]
      cases hbare : e.isBare with
      | true =>
        rw [closesAtEnd_append_of_not_mem (not_mem_bare hbare),
          closesAtEnd_append_of_not_mem (by decide), hrest]
        rfl
      | false =>
        -- a comma comes after the brackets of `e`
        rw [closesAtEnd_append_of_mem (mem_not_bare hbare)]
        simp

end

end TypeExpr

/-! ## §4. The elements of a collection. -/

/-- The type of a collection whose elements have the type `t`. -/
def Collection.of (k : Collection) (t : Text) : Text := k.typeName ++ '<' :: (t ++ ['>'])

namespace Field

/-- The same field with another type. -/
def withType (f : Field) (t : Text) : Field := { f with rawType := t }

/-- The head goes, and the first closing bracket after it. -/
theorem elementType_eq {f : Field} {k : Collection} {t : Text}
    (h : f.rawType = k.typeName ++ '<' :: t) : f.elementType k = t.erase '>' := by
  have hne : f.rawType ≠ k.typeName := by
    intro heq
    have hlen := congrArg length (h.symm.trans heq)
    simp at hlen
  have hhead : f.rawType = (k.typeName ++ ['<']) ++ t := by rw [h, append_assoc]; rfl
  have hcut : ((k.typeName ++ ['<']) ++ t).eraseFirst (k.typeName ++ ['<']) = t := by
    rw [eraseFirst, cut?_append_self (by simp)]
    rfl
  rw [elementType, if_neg (by simpa using hne), hhead, hcut, eraseFirst_singleton]

/-- The first closing bracket goes. -/
theorem rawType_element {f : Field} {k : Collection} (hk : k ≠ .map) {t : Text}
    (h : f.rawType = k.typeName ++ '<' :: t) : f.element.rawType = t.erase '>' := by
  have hof : f.isOf k := by
    rw [isOf, Bool.or_eq_true, startsWith_iff, h]
    exact .inr ⟨t, append_assoc _ _ _⟩
  cases k with
  | map => exact absurd rfl hk
  | set =>
    have hset : f.isSet := hof
    rw [element, if_pos hset]
    exact elementType_eq h
  | list =>
    -- a list is no set: the first letters differ
    have hset : f.isSet = false := by
      rw [isSet, isOf, h]
      rfl
    have hlist : f.isList := hof
    rw [element, if_neg (by simp [hset]), if_pos hlist]
    exact elementType_eq h

variable {f : Field} {k : Collection} (hk : k ≠ .map) (t : Text)

include hk

theorem rawType_element_of : (f.withType (k.of t)).element.rawType = t.cutBracket :=
  rawType_element hk rfl

/-- The question mark of a nullable collection goes to its elements. -/
theorem rawType_element_nullable :
    (f.withType (k.of t ++ ['?'])).element.rawType = t.cutBracket ++ ['?'] := by
  have hmark : k.of t ++ ['?'] = k.typeName ++ '<' :: ((t ++ ['>']) ++ ['?']) := by
    rw [Collection.of, append_assoc]
    rfl
  rw [rawType_element hk (f := f.withType (k.of t ++ ['?'])) hmark,
    erase_append_left _ (by simp), cutBracket]

end Field

/-- What the cut leaves ends with a question mark just where it is a nullable name. -/
theorem TypeExpr.endsWith_cutBracket (e : TypeExpr) :
    e.print.cutBracket.endsWith "?" = (e.isBare && e.isNullable) := by
  cases hbare : e.isBare with
  | true =>
    rw [cutBracket_of_not_mem (not_mem_bare hbare)]
    obtain ⟨name, args, nullable⟩ := e
    obtain rfl : args = [] := List.isEmpty_iff.mp hbare
    have hname : '?' ∉ name.text := name.not_mem rfl
    cases nullable with
    | true => exact endsWith_iff.mpr (suffix_append name.text ['?'])
    | false =>
      refine endsWith_eq_false_of_not_mem (c := '?') (by decide) ?_
      simpa [print, printAll, bracketed, mark] using hname
  | false =>
    -- it ends with the bracket that was meant to go
    rw [cutBracket_of_mem (mem_not_bare hbare), Bool.false_and, Bool.eq_false_iff, ne_eq,
      endsWith_iff]
    intro hsuffix
    exact absurd (eq_of_singleton_suffix hsuffix) (by decide)

namespace Field

/-- **When the elements have the type that is written.**  For a list or set of the type `e` it is so
    just where the closing brackets of `e` stand together at its end.  If the collection is
    nullable, its question mark is taken for one of the elements: they never have the type that is
    written, and apart from question marks they have the type they have without it, unless `e` is a
    nullable name. -/
theorem element_rawType_iff (f : Field) {k : Collection} (hk : k ≠ .map) (e : TypeExpr) :
    ((f.withType (k.of e.print)).element.rawType = e.print ↔ e.closesLast = true)
      ∧ (f.withType (k.of e.print ++ ['?'])).element.rawType
        = (f.withType (k.of e.print)).element.rawType ++ ['?']
      ∧ (f.withType (k.of e.print ++ ['?'])).element.rawType ≠ e.print
      ∧ ((f.withType (k.of e.print ++ ['?'])).element.type
        = (f.withType (k.of e.print)).element.type ↔ (e.isBare && e.isNullable) = false) := by
  rw [type, type, rawType_element_of hk, rawType_element_nullable hk]
  refine ⟨?_, rfl, fun heq => ?_, ?_⟩
  · rw [cutBracket_eq_self_iff, TypeExpr.closesAtEnd_print]
  · have hlength := congrArg length heq
    rw [length_append, length_cutBracket] at hlength
    simp at hlength
  · have hmarked : removeEnd (e.print.cutBracket ++ ['?']) "?" = e.print.cutBracket :=
      removeEnd_append _ ['?']
    rw [hmarked, ← TypeExpr.endsWith_cutBracket, ← removeEnd_eq_self_iff (by decide)]
    exact eq_comm

/-- A nested type at the end. -/
theorem element_rawType_of_nested_last :
    ∃ (f : Field) (k : Collection) (e : TypeExpr), k ≠ .map ∧ e.closesLast = true
      ∧ e.print = "Map<String, Set<int?>>".toList
      ∧ (f.withType (k.of e.print)).element.rawType = e.print
      ∧ (f.withType (k.of e.print ++ ['?'])).element.rawType = e.print ++ ['?'] := by
  let f : Field := { rawType := [], sourceName := "xs" }
  let e : TypeExpr := .mk ⟨"Map", rfl⟩
    [.mk ⟨"String", rfl⟩ [] false, .mk ⟨"Set", rfl⟩ [.mk ⟨"int", rfl⟩ [] true] false] false
  obtain ⟨hiff, hmark, -, -⟩ := element_rawType_iff f (k := .list) (by decide) e
  have hplain := hiff.mpr rfl
  exact ⟨f, .list, e, by decide, rfl, rfl, hplain, by rw [hmark, hplain]⟩

/-- A type argument that is not the last one loses its bracket, so does a nullable type with type
    arguments, and the elements of a nullable list become nullable. -/
theorem element_rawType_of_nested_first :
    (∃ (f : Field) (e : TypeExpr), e.print = "A<B<C>, D>".toList
      ∧ (f.withType (Collection.list.of e.print)).element.rawType = "A<B<C, D>>".toList)
    ∧ (∃ (f : Field) (e : TypeExpr), e.print = "A<B>?".toList
      ∧ (f.withType (Collection.set.of e.print)).element.rawType = "A<B?>".toList)
    ∧ ∃ (f : Field) (e : TypeExpr), e.print = "int".toList
      ∧ (f.withType (Collection.list.of e.print ++ ['?'])).element.rawType = "int?".toList :=
  ⟨⟨{ rawType := [], sourceName := "x" },
      .mk ⟨"A", rfl⟩ [.mk ⟨"B", rfl⟩ [.mk ⟨"C", rfl⟩ [] false] false,
        .mk ⟨"D", rfl⟩ [] false] false,
      rfl, by decide +kernel⟩,
    ⟨{ rawType := [], sourceName := "x" }, .mk ⟨"A", rfl⟩ [.mk ⟨"B", rfl⟩ [] false] true, rfl,
      by decide +kernel⟩,
    ⟨{ rawType := [], sourceName := "x" }, .mk ⟨"int", rfl⟩ [] false, rfl, by decide +kernel⟩⟩

end Field

end DartData
