import DartData.Proofs.Constructor.Tail

/-!
# The bracket depth of a constructor

The brackets around a parameter list are chosen separately: the opening one from the start of the
constructor, the closing one from whatever stands anywhere in it.  A constructor that is rebuilt
keeps the depth of brackets exactly if the two match (`newConstructor_depth_iff`), so it does not
where positional parameters are followed by named ones, or where `])` stands in an initializer list.
-/

namespace DartData

open List Text

/-! ## §1. Delimiters. -/

/-- The pairs of brackets that go around a parameter list. -/
def Delimiters.Match (d : Delimiters) : Prop :=
  d ∈ [⟨"(", ")"⟩, ⟨"([", "])"⟩, ⟨"(\x7b", "\x7d)"⟩]

instance (d : Delimiters) : Decidable d.Match := inferInstanceAs (Decidable (_ ∈ _))

/-- The delimiters of a constructor match exactly if they add nothing to the depth. -/
theorem SourceClass.match_iff {c : SourceClass} {d : Delimiters} (h : c.delimiters = .ok d) :
    d.Match ↔ ∀ k : Bracket, k.excess d.opening + k.excess d.closing = 0 := by
  have hall : ∀ o ∈ ["(".toList, "([".toList, "(\x7b".toList],
      ∀ e ∈ [")".toList, "])".toList, "\x7d)".toList],
        ((Delimiters.mk o e).Match ↔ Bracket.curly.excess o + Bracket.curly.excess e = 0
          ∧ Bracket.round.excess o + Bracket.round.excess e = 0
          ∧ Bracket.square.excess o + Bracket.square.excess e = 0) := by
    decide
  obtain ⟨ho, he⟩ := SourceClass.delimiters_cases h
  rw [Bracket.forall_iff]
  exact hall _ ho _ he

/-! ## §2. The tail. -/

theorem Bracket.net_of_squeeze {t : Text} {e : Char} (h : t.squeeze = [e]) (k : Bracket) :
    k.net t = k.net [e] := by
  obtain ⟨a, b, ha, hb, rfl⟩ := exists_of_squeeze_eq_singleton h
  rw [net_blank_append ha]
  exact net_append_blank hb k [e]

namespace SourceClass

variable {c : SourceClass} {t tail : Text}

/-- A tail that is carried over keeps its brackets, also in a widget, where a call of the
    superclass may take the place of a semicolon. -/
theorem net_constructorTail {u : Text} (ht : c.constructorText = some t) (hu : t = u ++ ')' :: tail)
    (h : CarriesOver t tail) (ps : List Parameter) (k : Bracket) :
    k.net (c.constructorTail ps) = k.net tail := by
  rcases h with ⟨front, b, initializers, hfront, hb, hcut⟩ | ⟨hhas, hend⟩
  · -- the initializer list is that of the tail, with other blanks around it
    obtain ⟨b', hb', hend⟩ := exists_trimEnd t
    have htail : tail = b ++ (" " ++ ((": " ++ initializers) ++ b')) := by
      rw [append_of_cut? _ hcut, hfront, append_assoc, append_assoc,
        append_cancel_left_eq] at hend
      rw [hend, append_assoc]
      rfl
    have hblank : ∀ d ∈ " ".toList, isBlank d := List.all_eq_true.mp (by decide)
    rw [constructorTail_of_cut ht hcut, htail, Bracket.net_blank_append (all_eq_true.mp hb),
      Bracket.net_blank_append hblank, Bracket.net_append_blank hb',
      ← Bracket.net_trim k (": " ++ _)]
    exact Bracket.net_blank_append hblank k _
  · have hcut := cut?_eq_none hhas
    rcases hend with hend | hend
    · have hno : t.trimEnd.endsWith "\x7b" = false := by
        rw [Bool.eq_false_iff, ne_eq, endsWith_brace_iff hu, hend]
        decide
      rw [constructorTail_of_end ht hcut hno, Bracket.net_of_squeeze hend]
      split <;> cases k <;> decide
    · have hbrace : t.trimEnd.endsWith "\x7b" := by
        rw [endsWith_brace_iff hu, hend]
        rfl
      rw [constructorTail_of_brace ht hcut hbrace, Bracket.net_of_squeeze hend]
      cases k <;> decide

/-! ## §3. The constructor. -/

/-- **A constructor is rebuilt with the brackets around its parameter list and those of its tail**,
    if the parameters as found close theirs.  Where the tail is carried over and the parameter list
    is balanced, the depth is kept exactly if the delimiters match. -/
theorem newConstructor_depth_iff (hv : c.isValid = true) (hc : c.hasConstructor = true)
    (hnames : c.HasBareNames) (heven : c.AllParameters Text.Even) (ht : c.constructorText = some t)
    (htail : t.afterParens = some tail) (defaultValues makeConst : Bool) :
    ∃ d out new, c.delimiters = .ok d ∧ c.newConstructor defaultValues makeConst = .ok out
      ∧ out.afterParens = some new
      ∧ (∀ k : Bracket, k.net out = k.excess d.opening + k.excess d.closing + k.net new)
      ∧ (CarriesOver t tail → (∀ k : Bracket, k.net t = k.net tail) →
        ((∀ k : Bracket, k.net out = k.net t) ↔ d.Match)) := by
  obtain ⟨name, t', d, ps, hname, ht', hd, hps⟩ := exists_of_hasConstructor hv hc
  obtain rfl : t' = t := Option.some.inj (ht'.symm.trans ht)
  obtain ⟨u, hu⟩ := exists_of_afterParens htail
  have hbare := hnames.1 name hname
  have hclosed : ∀ p ∈ ps, p.line.Closed := fun p hp => (heven ps hps p hp).closed
  have hnet : ∀ k : Bracket, _ := net_newConstructor hbare hd hnames.2 (heven ps hps)
    (d == Delimiters.named) defaultValues makeConst (c.constructorTail ps)
  refine ⟨d, _, _, hd, newConstructor_eq hname hd hps, afterParens_newConstructor hbare hd hnames.2
    hclosed _ _ _ _, hnet, fun hcarry hbalanced => ?_⟩
  rw [match_iff hd]
  refine forall_congr' fun k => ?_
  rw [hnet, net_constructorTail ht hu hcarry, hbalanced]
  omega

/-- Initializers that close what they open. -/
theorem newConstructor_depth_kept :
    ∃ (cs : List SourceClass) (c : SourceClass) (t out : Text),
      scan "class A \x7b\n  int x;\n  A([this.x = 1]) : super(f(\x7b'a': [1]\x7d));\n\x7d" = .ok cs
        ∧ c ∈ cs ∧ c.constructorText = some t ∧ c.newConstructor true false = .ok out
        ∧ ∀ k : Bracket, k.net out = k.net t := by
  let t : Text := "  A([this.x = 1]) : super(f(\x7b'a': [1]\x7d));"
  obtain ⟨cs, c, hcs, hmem, hv, hc, hnames, heven, ht, hd⟩ := exists_scanned
    (t := "class A \x7b\n  int x;\n  A([this.x = 1]) : super(f(\x7b'a': [1]\x7d));\n\x7d")
    (P := fun c => c.isValid = true ∧ c.hasConstructor = true ∧ c.HasBareNames
      ∧ c.AllParameters Text.Even ∧ c.constructorText = some t
      ∧ c.delimiters.toOption = some ⟨"([", "])"⟩) (by decide +kernel)
  have htail : t.afterParens = some " : super(f(\x7b'a': [1]\x7d));" := by decide +kernel
  obtain ⟨d, out, new, hdel, hout, -, -, hiff⟩ :=
    newConstructor_depth_iff hv hc hnames heven ht htail
    true false
  rw [hdel] at hd
  obtain rfl : d = ⟨"([", "])"⟩ := Option.some.inj hd
  exact ⟨cs, c, t, out, hcs, hmem, ht, hout, (hiff (Or.inl ⟨"  A([this.x = 1])", [],
    "super(f(\x7b'a': [1]\x7d));", by decide, by decide, by decide⟩)
    (Bracket.forall_iff.mpr (by decide +kernel))).mpr (by decide)⟩

/-- How many more brackets of each kind the constructor opens than it closes, as found and as it is
    rebuilt. -/
def depths (c : SourceClass) : List (Option Int × Option Int) :=
  [Bracket.curly, .round, .square].map fun k =>
    (c.constructorText.map k.net, (c.newConstructor false false).toOption.map k.net)

/-- Named parameters after positional ones lose the brace in front of them, and the end of a list in
    an initializer counts as the end of the parameters. -/
theorem scan_depths_changed :
    (scan "class A \x7b\n  int x;\n  int y;\n  A(this.x, \x7bthis.y = 1\x7d);\n\x7d").toOption.map
          (·.map depths)
        = some [[(some 0, some (-1)), (some 0, some 0), (some 0, some 0)]]
      ∧ (scan "class A \x7b\n  int x;\n  A(\x7bthis.x\x7d) : y = f([1]);\n\x7d").toOption.map
          (·.map depths)
        = some [[(some 0, some 1), (some 0, some 0), (some 0, some (-1))]] :=
  ⟨by decide +kernel, by decide +kernel⟩

end SourceClass

end DartData
