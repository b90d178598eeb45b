import DartData.Proofs.Constructor.Tail
import DartData.Proofs.Lexer.Line
import DartData.Proofs.Scan.Fields

/-!
# Fields and the lines that begin a declaration

A line that stands inside of a comment or of a literal, or that goes on with an arrow member from a
line above, declares nothing.  The shape by which the scanner knows a field says nothing of this, so
such a line is taken for a field like any other: the fields of a class all begin a declaration
exactly if all its lines of this shape do (`scan_fields_begin_iff`).  This is so if none of its
lines leaves anything open for the next one.
-/

namespace DartData

open List

/-- The line `k` goes on with an arrow member: a line above it, directly in the body, has an arrow,
    and no statement ends on that line or between the two. -/
def ContinuesArrow (ls : List Text) (k : Nat) : Prop :=
  ∃ j, j < k ∧ depthBefore ls j = 1 ∧ (codeAt ls j).has "=>" = true
    ∧ ∀ i, i < k → j ≤ i → endsStatement (codeAt ls i) = false

instance (ls : List Text) (k : Nat) : Decidable (ContinuesArrow ls k) :=
  inferInstanceAs (Decidable (∃ _, _))

/-- The line `k` begins in code, outside of comments, literals and interpolations, and does not go
    on with an arrow member. -/
def BeginsDeclaration (ls : List Text) (k : Nat) : Prop :=
  (bracketsBefore ls k).lexer = {} ∧ ¬ ContinuesArrow ls k

instance (ls : List Text) (k : Nat) : Decidable (BeginsDeclaration ls k) :=
  inferInstanceAs (Decidable (_ ∧ _))

/-- The line `k` leaves nothing open: it has no mark of what may run over its end, and a statement
    ends on it if it has an arrow directly in the body. -/
def LeavesNothingOpen (ls : List Text) (k : Nat) : Prop :=
  (lineAt ls k).EndsOnLine
    ∧ (depthBefore ls k = 1 → (codeAt ls k).has "=>" = true → endsStatement (codeAt ls k) = true)

section

variable {ls : List Text} {k : Nat}

theorem LineOf.of_le {j : Nat} (h : LineOf ls k) (hjk : j ≤ k) : LineOf ls j :=
  ⟨Nat.lt_of_le_of_lt hjk h.1, fun i hi hij => h.2 i hi (Nat.le_trans hij hjk)⟩

/-- Below lines that leave nothing open the lexer is in code. -/
theorem lexer_of_endsOnLine (hk : k ≤ ls.length) (h : ∀ j, j < k → (lineAt ls j).EndsOnLine) :
    (bracketsBefore ls k).lexer = {} := by
  induction k with
  | zero => rfl
  | succ k ih =>
    have hdrop : ls.drop k = lineAt ls k :: ls.drop (k + 1) := by
      rw [drop_eq_getElem_cons (by omega), lineAt, getD_eq_getElem?_getD,
        getElem?_eq_getElem (by omega), Option.getD_some]
    rw [bracketsBefore_succ hdrop]
    show ((bracketsBefore ls k).lexer.feed (lineAt ls k)).2 = {}
    rw [ih (by omega) fun j hj => h j (by omega)]
    exact Lexer.feed_of_endsOnLine (h k (by omega))

theorem beginsDeclaration_of_leavesNothingOpen (hk : LineOf ls k)
    (h : ∀ j, LineOf ls j → LeavesNothingOpen ls j) : BeginsDeclaration ls k := by
  refine ⟨lexer_of_endsOnLine (Nat.le_of_lt hk.1) fun j hj => (h j (hk.of_le (by omega))).1, ?_⟩
  rintro ⟨j, hj, hdepth, harrow, hopen⟩
  have hends := (h j (hk.of_le (by omega))).2 hdepth harrow
  rw [hopen j hj (Nat.le_refl j)] at hends
  cases hends

end

/-- **The fields of a class, and whether they begin declarations.**  They are those of the lines
    that have the shape of a field, and all of them begin a declaration exactly if these lines do.
    They do so if no line of the class leaves anything open. -/
theorem scan_fields_begin_iff {text : Text} {cs : List SourceClass} (h : scan text = .ok cs)
    {c : SourceClass} (hc : c ∈ cs) :
    ∃ (s : Nat) (ls : List Text), c.first = some (s : Int) ∧ ls = text.lines.drop (s - 1)
      ∧ (∀ f, f ∈ c.fields ↔ ∃ k, LineOf ls k ∧ fieldAt? s c.head.name ls k = some f)
      ∧ ((∀ f ∈ c.fields, BeginsDeclaration ls (f.line - s).toNat)
        ↔ ∀ k, LineOf ls k → (fieldAt? s c.head.name ls k).isSome → BeginsDeclaration ls k)
      ∧ ((∀ k, LineOf ls k → LeavesNothingOpen ls k) →
        ∀ f ∈ c.fields, BeginsDeclaration ls (f.line - s).toNat) := by
  obtain ⟨s, n, -, hfirst, hlines, hfields⟩ := scan_readIn h c hc
  have hmem : ∀ f, f ∈ c.fields
      ↔ ∃ k, LineOf (text.lines.drop (s - 1)) k
        ∧ fieldAt? s c.head.name (text.lines.drop (s - 1)) k = some f := by
    intro f
    simp only [hfields, fieldsOf, mem_filterMap, mem_range, hlines]
  have hall : (∀ f ∈ c.fields, BeginsDeclaration (text.lines.drop (s - 1)) (f.line - s).toNat)
      ↔ ∀ k, LineOf (text.lines.drop (s - 1)) k →
        (fieldAt? s c.head.name (text.lines.drop (s - 1)) k).isSome →
        BeginsDeclaration (text.lines.drop (s - 1)) k := by
    constructor
    · intro hbegin k hk hsome
      obtain ⟨f, hf⟩ := Option.isSome_iff_exists.mp hsome
      have := hbegin f ((hmem f).mpr ⟨k, hk, hf⟩)
      rwa [line_of_fieldAt? hf] at this
    · intro hbegin f hf
      obtain ⟨k, hk, hf⟩ := (hmem f).mp hf
      rw [line_of_fieldAt? hf]
      exact hbegin k hk (by simp [hf])
  exact ⟨s, _, hfirst, rfl, hmem, hall, fun hopen =>
    hall.mpr fun k hk _ => beginsDeclaration_of_leavesNothingOpen hk hopen⟩

/-- In a class with a comment over two lines and a wrapped arrow member, neither of which has a line
    of the shape of a field, both fields begin their declaration. -/
theorem scan_fields_begin_two :
    ∃ (t : Text) (cs : List SourceClass) (c : SourceClass),
      t
        = "class A \x7b\n  /* a\n  b */\n  int x;\n  int f() =>\n      1;
  final int y;\n\x7d".toList
        ∧ scan t = .ok cs ∧ c ∈ cs ∧ c.fields.map Field.line = [4, 7]
        ∧ ∀ f ∈ c.fields, BeginsDeclaration t.lines (f.line - 1).toNat := by
  obtain ⟨t, ht⟩ : ∃ t : Text, t
      = "class A \x7b\n  /* a\n  b */\n  int x;\n  int f() =>\n      1;\n  final int y;\n\x7d" :=
    ⟨_, rfl⟩
  obtain ⟨cs, c, hcs, hc, hs, hname, hlines⟩ := SourceClass.exists_scanned (t := t)
    (P := fun c => c.first = some 1 ∧ c.head.name = some "A"
      ∧ c.fields.map Field.line = [4, 7]) (by subst ht; decide +kernel)
  obtain ⟨s, ls, hs', rfl, -, hiff, -⟩ := scan_fields_begin_iff hcs hc
  obtain rfl : s = 1 := by
    rw [hs] at hs'
    injection hs' with hs'
    omega
  rw [hname, Nat.sub_self, drop_zero] at hiff
  have hbegin : ∀ k, k < t.lines.length → (fieldAt? (1 : Nat) (some "A") t.lines k).isSome →
      BeginsDeclaration t.lines k := by
    subst ht
    decide +kernel
  exact ⟨t, cs, c, ht, hcs, hc, hlines, hiff.mpr fun k hk => hbegin k hk.1⟩

/-- The line `n` of the text is taken for a field, though it does not begin a declaration. -/
def TakesOpenLine (t : Text) (n : Int) : Prop :=
  ∃ cs c, scan t = .ok cs ∧ c ∈ cs
    ∧ ∃ f ∈ c.fields, f.line = n ∧ ¬ BeginsDeclaration t.lines (n - 1).toNat

/-- A line of a comment, a line of a literal and the second line of an arrow member are taken for
    fields. -/
theorem scan_takes_open_lines :
    TakesOpenLine "class A \x7b\n  int y;\n  /*\n  int x;\n  */\n\x7d" 4
      ∧ TakesOpenLine
        "class A \x7b\n  int y;\n  var s = \x27\x27\x27\n  int x;\n  \x27\x27\x27;\n\x7d" 4
      ∧ TakesOpenLine "class A \x7b\n  int y;\n  int f() =>\n    y + 1;\n\x7d" 4 :=
  ⟨SourceClass.exists_scanned (by decide +kernel), SourceClass.exists_scanned (by decide +kernel),
    SourceClass.exists_scanned (by decide +kernel)⟩

end DartData
