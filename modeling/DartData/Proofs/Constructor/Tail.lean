import DartData.Proofs.Constructor.Layout

/-!
# What follows the parameter list

When a constructor is rebuilt, what follows its parameter list is looked for in the whole text: the
first colon between blanks counts as the start of an initializer list, and without one a brace at
the end as the start of a body.  This finds the tail of the constructor exactly if the colon is the
first thing after the list, or if there is no such colon and the list is followed by a semicolon or
an opening brace alone (`newConstructor_tail_iff`).
-/

namespace DartData

open List Text

/-! ## §1. The place of the tail. -/

/-- The tail of the constructor `t` is what is looked for: either it begins with the first colon
    between blanks, or there is none and the tail is a semicolon or an opening brace. -/
def CarriesOver (t tail : Text) : Prop :=
  (∃ front b initializers, t = front ++ tail ∧ b.allBlank = true
      ∧ t.trimEnd.cut? " : " = some (front ++ b, initializers))
    ∨ (t.trimEnd.has " : " = false ∧ (tail.squeeze = [';'] ∨ tail.squeeze = ['{']))

/-- If what stands before a piece is, up to white space, a text that ends with a bracket, it is that
    text with blanks after it. -/
theorem eq_append_blank_of_squeeze {u pre t : Text} (hu : u ++ [')'] <+: t) (hpre : pre <+: t)
    (h : squeeze (u ++ [')']) = pre.squeeze) :
    ∃ b : Text, b.allBlank ∧ pre = u ++ [')'] ++ b := by
  rcases prefix_or_prefix_of_prefix hu hpre with ⟨b, hb⟩ | ⟨b, hb⟩
  · rw [← hb, squeeze_append (u ++ [')']) b, self_eq_append_right] at h
    exact ⟨b, all_eq_true.mpr (squeeze_eq_nil_iff.mp h), hb.symm⟩
  · rw [← hb, squeeze_append, append_right_eq_self] at h
    have hblank := squeeze_eq_nil_iff.mp h
    -- blanks cannot reach up to the bracket
    rcases eq_nil_or_concat b with rfl | ⟨b', e, rfl⟩
    · exact ⟨[], rfl, by rw [append_nil, ← hb, append_nil]⟩
    · rw [concat_eq_append, ← append_assoc] at hb
      have he : e = ')' := by simpa using (append_inj' hb rfl).2
      have := hblank e (by simp)
      rw [he] at this
      exact absurd this (by decide)

/-- The first colon between blanks begins the tail exactly if all that stands from it on is, up to
    white space, the tail. -/
theorem squeeze_tail_iff {t u tail pre initializers : Text} (ht : t = u ++ ')' :: tail)
    (hcut : t.trimEnd.cut? " : " = some (pre, initializers)) :
    tail.squeeze = ':' :: initializers.squeeze ↔ ∃ front b : Text, t = front ++ tail
      ∧ b.allBlank ∧ pre = front ++ b := by
  have hcolon : squeeze (" : " ++ initializers) = ':' :: initializers.squeeze :=
    squeeze_append " : " initializers
  have hsplit : t.squeeze = pre.squeeze ++ ':' :: initializers.squeeze := by
    rw [← squeeze_trimEnd, append_of_cut? _ hcut, squeeze_append, hcolon]
  constructor
  · intro h
    have hfront : t = (u ++ [')']) ++ tail := by rw [ht, append_assoc]; rfl
    have hpre : pre <+: t := by
      obtain ⟨b, -, hb⟩ := exists_trimEnd t
      rw [hb, append_of_cut? _ hcut, append_assoc]
      exact prefix_append _ _
    have hsame : squeeze (u ++ [')']) = pre.squeeze := by
      rw [hfront, squeeze_append, h] at hsplit
      exact append_cancel_right hsplit
    obtain ⟨b, hb, heq⟩ := eq_append_blank_of_squeeze ⟨tail, hfront.symm⟩ hpre hsame
    exact ⟨u ++ [')'], b, hfront, hb, heq⟩
  · rintro ⟨front, b, hfront, hb, rfl⟩
    rw [hfront, squeeze_append, squeeze_append, squeeze_of_allBlank hb, append_nil] at hsplit
    exact append_cancel_left hsplit

/-- The last character that is no blank stands in the tail, if anything does. -/
theorem endsWith_brace_iff {t u tail : Text} (ht : t = u ++ ')' :: tail) :
    t.trimEnd.endsWith "\x7b" ↔ tail.squeeze.getLast? = some '{' := by
  have hlast : t.trimEnd.getLast? = (')' :: tail.squeeze).getLast? := by
    rw [getLast?_trimEnd, ht, squeeze_append, getLast?_append]
    show (')' :: tail.squeeze).getLast?.or _ = _
    rw [getLast?_cons, Option.some_or]
  have hends : t.trimEnd.endsWith "\x7b" ↔ t.trimEnd.getLast? = some '{' := by
    rw [endsWith_iff, getLast?_eq_some_iff]
    constructor
    · rintro ⟨x, hx⟩
      exact ⟨x, hx.symm⟩
    · rintro ⟨x, hx⟩
      exact ⟨x, hx.symm⟩
  rw [hends, hlast]
  cases htail : tail.squeeze with
  | nil => simp
  | cons a r => rw [getLast?_cons_cons]

/-! ## §2. The tail that is written. -/

namespace SourceClass

variable {c : SourceClass} {t u tail : Text}

theorem constructorTail_of_cut {pre initializers : Text} (ht : c.constructorText = some t)
    (hcut : t.trimEnd.cut? " : " = some (pre, initializers)) (ps : List Parameter) :
    c.constructorTail ps = ' ' :: trim (": " ++ initializers) := by
  unfold constructorTail
  rw [ht]
  simp only [Option.bind_some, hcut]
  rfl

theorem constructorTail_of_brace (ht : c.constructorText = some t)
    (hcut : t.trimEnd.cut? " : " = none) (hend : t.trimEnd.endsWith "\x7b")
    (ps : List Parameter) : c.constructorTail ps = " \x7b" := by
  unfold constructorTail
  rw [ht]
  simp only [Option.bind_some, hcut, hend, if_true]

theorem constructorTail_of_end (ht : c.constructorText = some t)
    (hcut : t.trimEnd.cut? " : " = none) (hend : t.trimEnd.endsWith "\x7b" = false)
    (ps : List Parameter) : c.constructorTail ps
      = if c.head.isWidget && !ps.any (·.text.startsWith "super.") then " : super(key: key);".toList
        else ";".toList := by
  unfold constructorTail
  rw [ht]
  simp only [Option.bind_some, hcut, hend, Bool.false_eq_true, if_false]

/-- The tail that is written is the one that was there exactly if it is what is looked for. -/
theorem squeeze_constructorTail_iff (hw : c.head.isWidget = false) (ht : c.constructorText = some t)
    (hu : t = u ++ ')' :: tail) (ps : List Parameter) :
    (c.constructorTail ps).squeeze = tail.squeeze ↔ CarriesOver t tail := by
  cases hcut : t.trimEnd.cut? " : " with
  | some x =>
    obtain ⟨pre, initializers⟩ := x
    have hhas : t.trimEnd.has " : " := by rw [← isSome_cut?, hcut]; rfl
    have hnew : (c.constructorTail ps).squeeze = ':' :: initializers.squeeze := by
      rw [constructorTail_of_cut ht hcut]
      show squeeze (trim (": ".toList ++ initializers)) = _
      rw [squeeze_trim]
      exact squeeze_append ": ".toList initializers
    rw [hnew, eq_comm, squeeze_tail_iff hu hcut, CarriesOver, hhas, hcut]
    simp only [Option.some.injEq, Prod.mk.injEq, Bool.true_eq_false, false_and, or_false]
    constructor
    · rintro ⟨front, b, hfront, hb, rfl⟩
      exact ⟨front, b, initializers, hfront, hb, rfl, rfl⟩
    · rintro ⟨front, b, -, hfront, hb, hpre, -⟩
      exact ⟨front, b, hfront, hb, hpre⟩
  | none =>
    have hhas : t.trimEnd.has " : " = false := by rw [← isSome_cut?, hcut]; rfl
    have hcarries : CarriesOver t tail ↔ tail.squeeze = [';'] ∨ tail.squeeze = ['{'] := by
      rw [CarriesOver, hhas, hcut]
      simp
    rw [hcarries]
    -- the last character decides which of the two tails is written
    by_cases hend : t.trimEnd.endsWith "\x7b"
    · have hlast := (endsWith_brace_iff hu).mp hend
      rw [constructorTail_of_brace ht hcut hend]
      constructor
      · exact fun h => .inr h.symm
      · rintro (h | h)
        · rw [h] at hlast
          exact absurd hlast (by decide)
        · exact h.symm
    · have hlast : tail.squeeze.getLast? ≠ some '{' := fun h => hend ((endsWith_brace_iff hu).mpr h)
      rw [constructorTail_of_end ht hcut (by simpa using hend), hw]
      constructor
      · exact fun h => .inl h.symm
      · rintro (h | h)
        · exact h.symm
        · rw [h] at hlast
          exact absurd rfl hlast

/-! ## §3. The constructor. -/

/-- What a run of the scanner on a given text finds. -/
theorem exists_scanned {t : Text} {P : SourceClass → Prop} [DecidablePred P]
    (h : ((scan t).toOption.any fun cs => cs.any fun c => decide (P c))) :
    ∃ cs c, scan t = .ok cs ∧ c ∈ cs ∧ P c := by
  cases hs : scan t with
  | error e =>
    rw [hs] at h
    cases h
  | ok cs =>
    rw [hs] at h
    obtain ⟨c, hc, hp⟩ := any_eq_true.mp h
    exact ⟨cs, c, rfl, hc, of_decide_eq_true hp⟩

/-- A constructor that was found is rebuilt, and what follows its parameter list is the tail that
    was put there. -/
theorem exists_newConstructor (hv : c.isValid) (hc : c.hasConstructor)
    (hnames : c.HasBareNames) (hclosed : c.AllParameters Text.Closed)
    (defaultValues makeConst : Bool) :
    ∃ ps out, c.parameters = .ok ps ∧ c.newConstructor defaultValues makeConst = .ok out
      ∧ out.afterParens = some (c.constructorTail ps) := by
  obtain ⟨name, t, d, ps, hname, -, hd, hps⟩ := exists_of_hasConstructor hv hc
  exact ⟨ps, _, hps, newConstructor_eq hname hd hps, afterParens_newConstructor
    (hnames.1 name hname) hd hnames.2 (hclosed ps hps) _ _ _ _⟩

/-- **What follows the parameter list is carried over exactly if it is what is looked for.**  The
    class has names without brackets, and the parameters as found close the brackets they open. -/
theorem newConstructor_tail_iff (hv : c.isValid = true) (hw : c.head.isWidget = false)
    (hc : c.hasConstructor = true) (hnames : c.HasBareNames) (hclosed : c.AllParameters Text.Closed)
    (ht : c.constructorText = some t) (htail : t.afterParens = some tail)
    (defaultValues makeConst : Bool) :
    ∃ out new, c.newConstructor defaultValues makeConst = .ok out ∧ out.afterParens = some new
      ∧ (new.sameUpToBlanks tail = true ↔ CarriesOver t tail) := by
  obtain ⟨ps, out, -, hout, hnew⟩ :=
    exists_newConstructor hv hc hnames hclosed defaultValues makeConst
  obtain ⟨u, hu⟩ := exists_of_afterParens htail
  refine ⟨out, _, hout, hnew, ?_⟩
  rw [sameUpToBlanks, beq_iff_eq]
  exact squeeze_constructorTail_iff hw ht hu ps

/-- An initializer on the line of the list is kept. -/
theorem newConstructor_tail_initializers :
    ∃ (cs : List SourceClass) (c : SourceClass) (out new : Text),
      scan "class A \x7b\n  int x;\n  int y;\n  const A(this.x) : y = f(x);\n\x7d" = .ok cs ∧ c ∈ cs
        ∧ c.newConstructor true false = .ok out ∧ out.afterParens = some new
        ∧ new.sameUpToBlanks " : y = f(x);" = true := by
  let t : Text := "  const A(this.x) : y = f(x);"
  obtain ⟨cs, c, hcs, hmem, hv, hw, hc, hnames, hclosed, ht⟩ := exists_scanned
    (t := "class A \x7b\n  int x;\n  int y;\n  const A(this.x) : y = f(x);\n\x7d")
    (P := fun c => c.isValid = true ∧ c.head.isWidget = false ∧ c.hasConstructor = true
      ∧ c.HasBareNames ∧ c.AllParameters Text.Closed ∧ c.constructorText = some t)
        (by decide +kernel)
  have htail : t.afterParens = some " : y = f(x);" := by decide +kernel
  obtain ⟨out, new, hout, hnew, hiff⟩ := newConstructor_tail_iff hv hw hc hnames hclosed ht htail
    true false
  exact ⟨cs, c, out, new, hcs, hmem, hout, hnew, hiff.mpr (Or.inl ⟨"  const A(this.x)", [],
    "y = f(x);", by decide, by decide, by decide⟩)⟩

/-- The tail of the constructor as found, and as it is rebuilt. -/
def tails (c : SourceClass) : Option Text × Option Text :=
  (c.constructorText.bind afterParens, (c.newConstructor false false).toOption.bind afterParens)

/-- A body on the line of the constructor is lost, and so is an initializer list after a colon
    without a blank in front; where the list is on the next line, a semicolon is put before it; and
    a colon in a default value counts as the start of a list. -/
theorem scan_tails_changed :
    (scan "class A \x7b\n  int x;\n  A(this.x) \x7b x++; \x7d\n\x7d").toOption.map (·.map tails)
        = some [(some " \x7b x++; \x7d".toList, some ";".toList)]
      ∧ (scan "class A \x7b\n  int x;\n  A(this.x): assert(x > 0);\n\x7d").toOption.map
        (·.map tails)
        = some [(some ": assert(x > 0);".toList, some ";".toList)]
      ∧ (scan "class A \x7b\n  int x;\n  A(this.x)\n      : assert(x > 0);\n\x7d").toOption.map
          (·.map tails)
        = some [(some [], some ";".toList)]
      ∧ (scan "class A \x7b\n  int x;\n  A(\x7bthis.x = a ? b : c\x7d);\n\x7d").toOption.map
          (·.map tails)
        = some [(some ";".toList, some " : c\x7d);".toList)] :=
  ⟨by decide +kernel, by decide +kernel, by decide +kernel, by decide +kernel⟩

end SourceClass

end DartData
