import DartData.Proofs.Member.Piece

/-!
# How generated lines begin

No line of a generated member is taken for the start of a class.  Most lines begin with a word that
is followed by something else than a blank, which the keyword of a class is not.
-/

namespace DartData

open List Text

/-! ## §1. Words at the start. -/

/-- The text begins with a word, which may be empty, and after it with something that is neither
    part of the word nor blank. -/
def Breaks (t : Text) : Prop :=
  ∃ w d u, t = w ++ d :: u ∧ w.all isWord = true ∧ isWord d = false ∧ isBlank d = false

variable {b t w : Text} {d : Char}

theorem Breaks.append (h : Breaks t) (u : Text) : Breaks (t ++ u) := by
  obtain ⟨w, d, v, rfl, hw, hd, hb⟩ := h
  exact ⟨w, d, v ++ u, by simp, hw, hd, hb⟩

theorem Breaks.ite {p : Prop} [Decidable p] {u : Text} (ht : Breaks t) (hu : Breaks u) :
    Breaks (if p then t else u) := by
  split
  · exact ht
  · exact hu

theorem Breaks.of (h : Breaks t) (ts : List Text) : Breaks (of (t :: ts)) :=
  h.append _

theorem breaks_word (hw : w.all isWord) (hd : isWord d = false) (hb : isBlank d = false)
    (u : Text) : Breaks (w ++ d :: u) := ⟨w, d, u, rfl, hw, hd, hb⟩

/-- If a text begins with a word and something else after it, that word is its first one. -/
theorem prefix_word {p q : Text} {e : Char} (hp : p.all isWord) (hw : w.all isWord)
    (he : isWord e = false) (hd : isWord d = false) (h : p ++ e :: q <+: w ++ d :: t) :
    p = w ∧ e = d ∧ q <+: t := by
  obtain ⟨s, hs⟩ := h
  have hsplit : ∀ (v : Text) (e : Char) (r : Text), v.all isWord → isWord e = false →
      (v ++ e :: r).takeWhile isWord = v := by
    intro v e r hv he
    rw [takeWhile_append_of_pos (all_eq_true.mp hv),
      takeWhile_cons_of_neg (by simp [he]), append_nil]
  have hpw : p = w := by
    have := congrArg (takeWhile isWord) hs
    rwa [append_assoc, cons_append, hsplit p e _ hp he, hsplit w d t hw hd] at this
  subst hpw
  rw [append_assoc, append_cancel_left_eq, cons_append, List.cons.injEq] at hs
  exact ⟨rfl, hs.1, s, hs.2⟩

/-- No class begins on such a line. -/
theorem isClassLine_of_breaks (hb : ∀ c ∈ b, isBlank c) (ht : Breaks t) :
    isClassLine (b ++ t) = false := by
  obtain ⟨w, d, u, rfl, hw, hd, hblank⟩ := ht
  have htrim : (b ++ (w ++ d :: u)).trimStart = w ++ d :: u := by
    rw [trimStart_append_of_blank hb]
    cases w with
    | nil => exact trimStart_cons_of_not_blank hblank u
    | cons c w =>
      rw [all_cons, Bool.and_eq_true] at hw
      exact trimStart_cons_of_not_blank (isBlank_of_isWord hw.1) _
  have hne : ' ' ≠ d := by
    rintro rfl
    revert hblank
    decide
  rw [isClassLine, htrim, Bool.or_eq_false_iff]
  constructor
  · rw [startsWith_eq_false_iff]
    exact fun h => hne (prefix_word (p := "class") (q := []) (by decide) hw (by decide) hd
      h).2.1
  · rw [startsWith_eq_false_iff]
    exact fun h => hne (prefix_word (p := "abstract") (q := "class ") (by decide) hw
      (by decide) hd h).2.1

/-- A line that begins with neither a `c` nor an `a`, blanks apart. -/
theorem isClassLine_of_head {c : Char} (hb : ∀ c ∈ b, isBlank c) (ht : t.head? = some c)
    (hc : isBlank c = false) (h₁ : c ≠ 'c') (h₂ : c ≠ 'a') :
    isClassLine (b ++ t) = false := by
  have htrim : (b ++ t).trimStart.head? = some c := by
    rw [trimStart_append_of_blank hb]
    cases t with
    | nil => simp at ht
    | cons d t =>
      simp only [head?_cons, Option.some.injEq] at ht
      subst ht
      rw [trimStart_cons_of_not_blank hc]
      rfl
  have hclass : (b ++ t).trimStart.startsWith "class " = false :=
    startsWith_eq_false htrim rfl h₁
  have habstract : (b ++ t).trimStart.startsWith "abstract class " = false :=
    startsWith_eq_false htrim rfl h₂
  rw [isClassLine, hclass, habstract]
  rfl

/-- A field name is no keyword, so a line that begins with one begins no class. -/
theorem isClassLine_of_name {f : PlainField} (hb : ∀ c ∈ b, isBlank c) (t : Text) :
    isClassLine (b ++ (f.name ++ ' ' :: '?' :: t)) = false := by
  have hw := all_isWord_of_isIdentifier f.isName
  have htrim : (b ++ (f.name ++ ' ' :: '?' :: t)).trimStart = f.name ++ ' ' :: '?' :: t := by
    rw [trimStart_append_of_blank hb]
    cases hn : f.name with
    | nil => exact absurd hn (ne_nil_of_isIdentifier f.isName)
    | cons c w =>
      rw [hn, all_cons, Bool.and_eq_true] at hw
      exact trimStart_cons_of_not_blank (isBlank_of_isWord hw.1) _
  rw [isClassLine, htrim, Bool.or_eq_false_iff]
  constructor
  -- no field has the name `class`, which is reserved
  · rw [startsWith_eq_false_iff]
    intro h
    have hname := (prefix_word (p := "class") (q := []) (by decide) hw (by decide) (by decide)
      h).1
    have hvar := f.variable_eq
    rw [← hname] at hvar
    revert hvar
    decide
  -- after `abstract` there is a question mark where `class` would stand
  · rw [startsWith_eq_false_iff]
    intro h
    have hq := (prefix_word (p := "abstract") (q := "class ") (by decide) hw (by decide)
      (by decide) h).2.2
    have : ("class ".toList).head? = some '?' := by
      obtain ⟨s, hs⟩ := hq
      have := congrArg head? hs
      rwa [show ("class ".toList ++ s).head? = "class ".toList.head? from rfl] at this
    revert this
    decide

/-! ## §2. Types at the start. -/

/-- Without its question mark a type is a name, or a name and type arguments. -/
theorem IsType.removeEnd_cases (h : IsType t) :
    ∃ n u, t.removeEnd ['?'] = n ++ u ∧ n.all isWord ∧ (u = [] ∨ ∃ v, u = '<' :: v) := by
  have hend : ∀ {s : Text} {c : Char}, c ≠ '?' → (s ++ [c]).removeEnd ['?'] = s ++ [c] := by
    intro s c hc
    have : (s ++ [c]).endsWith ['?'] = false := by
      rw [Bool.eq_false_iff, ne_eq, endsWith_iff]
      intro h
      have := List.IsSuffix.getLast h (by simp)
      simp at this
      exact hc this.symm
    rw [removeEnd, this]
    rfl
  cases h with
  | @name n m hn hm =>
    have hw := all_isWord_of_isIdentifier hn
    refine ⟨n, [], ?_, hw, .inl rfl⟩
    rcases hm with rfl | rfl
    · obtain ⟨i, d, he⟩ : ∃ i d, n = i ++ [d] :=
        ⟨_, _, (dropLast_concat_getLast (ne_nil_of_isIdentifier hn)).symm⟩
      have hd : d ≠ '?' := by
        rintro rfl
        exact not_mem_of_all hw (show isWord '?' = false by decide) (by simp [he])
      rw [append_nil, he, hend hd]
    · rw [removeEnd_append, append_nil]
  | @generic n m args hn hm hne ha =>
    refine ⟨n, '<' :: (join ", " args ++ ['>']), ?_, all_isWord_of_isIdentifier hn, .inr ⟨_, rfl⟩⟩
    have hassoc : ∀ m : Text, n ++ '<' :: (join ", " args ++ '>' :: m)
        = (n ++ '<' :: join ", " args) ++ ['>'] ++ m := by simp
    rcases hm with rfl | rfl
    · rw [hassoc, append_nil, hend (by decide), append_assoc, cons_append]
    · rw [hassoc, removeEnd_append]
      simp

theorem PlainField.breaks_type (f : PlainField) (n : Int) (hd : isWord d = false)
    (hb : isBlank d = false) (u : Text) : Breaks ((f.field n).type ++ d :: u) := by
  obtain ⟨w, v, hv, hw, rfl | ⟨x, rfl⟩⟩ := f.isType.removeEnd_cases
  · have : (f.field n).type = w ++ [] := hv
    rw [this, append_nil]
    exact breaks_word hw hd hb u
  · have : (f.field n).type = w ++ '<' :: x := hv
    rw [this]
    exact (breaks_word hw (by decide) (by decide) x).append _

/-! ## §3. Expressions at the start. -/

namespace Member

theorem breaks_mapEntry (f : Field) : Breaks (mapEntry f) :=
  breaks_word (w := "map") (d := '[') (by decide) (by decide) (by decide) _

/-- What is read from a map begins no class. -/
theorem breaks_readValue (r : MapReading) (f : PlainField) (n : Int)
    (hc : (f.field n).isCollection = false) : Breaks (readValue r (f.field n) none) := by
  have hentry : ∀ b : Bool, Breaks ((if b then ['('] else []) ++ mapEntry (f.field n)) := by
    intro b
    cases b with
    | false => exact breaks_mapEntry _
    | true => exact breaks_word (w := []) (d := '(') rfl (by decide) (by decide) _
  have hcall : ∀ (w : Text) (ts : List Text), w.all isWord →
      Breaks (of ((w ++ ['(']) :: ts)) := by
    intro w ts hw
    exact (breaks_word hw (d := '(') (by decide) (by decide) []).of ts
  unfold readValue
  dsimp only
  rw [hc, Option.getD_none, if_neg Bool.false_ne_true, if_neg Bool.false_ne_true]
  refine Breaks.ite ?_ (Breaks.ite ?_ (Breaks.ite ?_ (Breaks.ite ?_ (Breaks.ite ?_ (Breaks.ite ?_
    (Breaks.ite ?_ (hentry _)))))))
  · exact breaks_word (w := "DateTime") (d := '.') (by decide) (by decide) (by decide) _
  · exact hcall "Color" _ (by decide)
  · exact hcall "IconData" _ (by decide)
  · exact f.breaks_type n (d := '.') (by decide) (by decide) _
  · exact Breaks.of
      (Breaks.ite ((hentry _).append _) (Breaks.ite ((hentry _).append _) (hentry _))) _
  · exact (hentry _).append _
  · exact (hentry _).append _

theorem breaks_readField (r : MapReading) (f : PlainField) (n : Int) :
    Breaks (readField r (f.field n)) := by
  have htype : ∀ ts, Breaks (of ((f.field n).type :: ".from((" :: ts)) := fun ts =>
    f.breaks_type n (d := '.') (by decide) (by decide) _
  unfold readField
  dsimp only
  rw [show (f.field n).isEnum = false from rfl, if_neg Bool.false_ne_true]
  split
  · exact Breaks.ite (htype _) (htype _)
  next hc =>
    have hc : (f.field n).isCollection = false := by simpa using hc
    exact Breaks.ite ((breaks_readValue r f n hc).of _) (breaks_readValue r f n hc)

theorem breaks_mapArgument (c : SourceClass) (r : MapReading) (f : PlainField) (n : Int) :
    Breaks (mapArgument c r (f.field n)) := by
  have hw := (f.regular_field n).name_word
  rw [mapArgument, SourceClass.label]
  split
  · exact (breaks_word hw (d := ':') (by decide) (by decide) [' ']).of _
  · have := Breaks.ite (p := (f.field n).isNullable)
      ((breaks_mapEntry (f.field n)).of [" != null ? ", readField r (f.field n), " : null"])
      (breaks_readField r f n)
    simpa [of] using this.append []

end Member

end DartData
