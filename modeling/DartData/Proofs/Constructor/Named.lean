import DartData.Proofs.Constructor.Tail
import DartData.Proofs.Generation.Frame
import DartData.Proofs.Lexer.Indent
import DartData.Proofs.Scan.Constructor

/-!
# Named parameters

Two tests tell whether a constructor takes named parameters.  The calls that are generated go by the
beginning of its text, the constructor itself is rebuilt by the delimiters found in it.  On a
constructor as found, and on one that has been rebuilt, the tests are right together unless the
constructor is misread (`named_iff_not_misread`): where the word `const` stands in the name of the
class, where a list ends in the initializers, or where `const` stands before the brace.  A
constructor that is written anew is misread only for the first two reasons.
-/

namespace DartData

open List Text

/-! ## §1. Named parameters. -/

/-- The constructor `t` of the class `name` declares its parameters between `({` and `})`. -/
def TakesNamed (name t : Text) : Prop :=
  ∃ isConst rest, OpensList name t isConst rest ∧ rest.startsWith ['\x7b'] = true ∧ t.ClosesBraced

theorem OpensList.takesNamed_iff {name t rest : Text} {isConst : Bool}
    (h : OpensList name t isConst rest) :
    TakesNamed name t ↔ rest.startsWith ['\x7b'] ∧ t.ClosesBraced := by
  constructor
  · rintro ⟨isConst', rest', h', hbrace, hclosed⟩
    rw [(h.unique h').2]
    exact ⟨hbrace, hclosed⟩
  · rintro ⟨hbrace, hclosed⟩
    exact ⟨isConst, rest, h, hbrace, hclosed⟩

/-- Calls of the constructor name the fields. -/
def SourceClass.PassesNamed (c : SourceClass) : Prop :=
  ∀ f : Field, c.label f = f.name ++ ": "

theorem SourceClass.passesNamed_iff (c : SourceClass) : c.PassesNamed ↔ c.hasNamedConstructor := by
  unfold PassesNamed label
  cases c.hasNamedConstructor with
  | true => simp
  | false =>
    -- without a label nothing is in front of the argument, whatever the field
    refine iff_of_false (fun h => ?_) Bool.false_ne_true
    have hfield := h { rawType := [], sourceName := [] }
    simp at hfield

/-! ## §2. A constructor that is written anew. -/

/-- What follows the bracket on the first line is a bracket of another kind, or nothing. -/
theorem SourceClass.exists_opening {c : SourceClass} {d : Delimiters} (h : c.delimiters = .ok d) :
    ∃ o ∈ [[], ['['], ['\x7b']], d.opening = '(' :: o := by
  have hopen := (delimiters_cases h).1
  simp only [mem_cons, not_mem_nil, or_false] at hopen
  rcases hopen with hopen | hopen | hopen
  · exact ⟨[], by simp, hopen⟩
  · exact ⟨['['], by simp, hopen⟩
  · exact ⟨['\x7b'], by simp, hopen⟩

/-- A parameter list that begins on a line of its own is not misread for a `const` in it. -/
theorem misread_line_iff {o x name : Text} {isConst : Bool} {closes : Prop}
    (ho : o ∈ [[], ['['], ['\x7b']]) :
    Misread isConst name (o ++ '\n' :: x) closes
      ↔ o = ['\x7b'] ∧ ¬ ((isConst ∨ name.has "const" = false) ↔ closes) := by
  have hconst : startsWith (o ++ '\n' :: x) "const\x7b" = false := by
    simp only [mem_cons, not_mem_nil, or_false] at ho
    rcases ho with rfl | rfl | rfl <;> rfl
  have hbrace : startsWith (o ++ '\n' :: x) ['\x7b'] ↔ o = ['\x7b'] := by
    simp only [mem_cons, not_mem_nil, or_false] at ho
    rcases ho with rfl | rfl | rfl <;> simp [startsWith, isPrefixOf]
  cases isConst with
  | true =>
    rw [misread_const_iff, hbrace]
    simp
  | false =>
    rw [misread_plain_iff, hconst, hbrace]
    cases name.has "const" <;> simp

namespace SourceClass

variable {c : SourceClass} {name tail : Text} {d : Delimiters} {ps : List Parameter}

/-- **A constructor that is written anew begins with the name**, after `const` if it is constant. -/
theorem opensList_indent (hd : c.delimiters = .ok d)
    (hsolid : ∀ e, (name ++ ['(']).head? = some e → isBlank e = false) (hfeed : '\n' ∉ name)
    (makeConst : Bool) (body : Text) :
    ∃ isConst, ∃ o ∈ [[], ['['], ['\x7b']], ∃ x, d.opening = '(' :: o
      ∧ OpensList name
        (indent ((c.constWord makeConst ++ (name ++ d.opening)) ++ '\n' :: body))
        isConst (o ++ '\n' :: x) := by
  obtain ⟨o, ho, hopen⟩ := exists_opening hd
  have hline : '\n' ∉ c.constWord makeConst ++ (name ++ d.opening) := by
    have hword : '\n' ∉ c.constWord makeConst := by
      rcases c.constWord_cases makeConst with h | h <;> rw [h] <;> decide
    have hbracket : ∀ o ∈ [[], ['['], ['\x7b']], '\n' ∉ '(' :: o := by decide
    simp [hword, hfeed, hopen ▸ hbracket o ho]
  have hne : c.constWord makeConst ++ (name ++ d.opening) ≠ [] := by simp [hopen]
  obtain ⟨isConst, hlead⟩ : ∃ isConst, IsLead isConst ("  " ++ c.constWord makeConst) := by
    rcases c.constWord_cases makeConst with h | h
    · exact ⟨false, "  ", [], by decide, rfl, by rw [h]; rfl⟩
    · exact ⟨true, "  ", [], by decide, rfl, by rw [h]; rfl⟩
  refine ⟨isConst, o, ho, endLines (body.lines.map indentLine), hopen, hsolid, _, hlead, ?_⟩
  rw [indent_line_append hline hne, hopen]
  simp

/-- Before the tail stands a brace exactly if the list is closed with one. -/
theorem closesBraced_iff_closing (hd : c.delimiters = .ok d) {u : Text}
    (hparens : afterParens (u ++ '\n' :: (d.closing ++ tail)) = some tail) :
    ClosesBraced (u ++ '\n' :: (d.closing ++ tail)) ↔ d.closing = "\x7d)" := by
  constructor
  · rintro ⟨v, tail', hparens', heq⟩
    obtain rfl : tail = tail' := Option.some.inj (hparens.symm.trans hparens')
    -- the brace is the last character before the bracket
    have hlast : u ++ '\n' :: d.closing = v ++ ['\x7d', ')'] := by
      refine (append_left_inj tail).mp ?_
      simpa using heq
    rcases closing_cases hd with h | h | h
    · rw [h] at hlast
      exact absurd (append_inj' hlast rfl).2 (by decide)
    · rw [h, append_cons] at hlast
      exact absurd (append_inj' hlast rfl).2 (by decide)
    · exact h
  · intro h
    exact ⟨u ++ ['\n'], tail, hparens, by simp [h]⟩

/-- **Where the list of a constructor that is written anew ends with a brace**, if the parameters as
    found close their brackets. -/
theorem closesBraced_newConstructor (hn : name.isBare) (hd : c.delimiters = .ok d)
    (hfields : ∀ f ∈ c.fields, f.name.isBare) (hclosed : ∀ p ∈ ps, p.line.Closed)
    (named defaultValues makeConst : Bool) :
    ClosesBraced (indent ((c.constWord makeConst ++ (name ++ d.opening)) ++ '\n'
        :: (endLines (c.listLines ps named defaultValues) ++ (d.closing ++ tail))))
      ↔ d.closing = "\x7d)" := by
  have hparens :=
    afterParens_newConstructor hn hd hfields hclosed named defaultValues makeConst tail
  generalize c.constWord makeConst ++ (name ++ d.opening) = first at hparens ⊢
  generalize c.listLines ps named defaultValues = ls at hparens ⊢
  -- the closing delimiter begins a line
  obtain ⟨u, hu⟩ : ∃ u, first ++ '\n' :: (endLines ls ++ (d.closing ++ tail))
      = u ++ '\n' :: (d.closing ++ tail) := by
    rcases endsLine_endLines ls with h | ⟨v, h⟩
    · exact ⟨first, by rw [h]; rfl⟩
    · exact ⟨first ++ '\n' :: v, by rw [h]; simp⟩
  rw [closesBraced_indent]
  rw [hu] at hparens ⊢
  exact closesBraced_iff_closing hd hparens

/-! ## §3. The two tests. -/

/-- A constructor that was found may be left as it is; else the text that is stored is a new one. -/
theorem run_rebuildConstructor_cases (hc : c.Workable) (r : Request) (ds : Directives) :
    ∃ name d ps, c.head.name = some name ∧ c.delimiters = .ok d ∧ c.parameters = .ok ps
      ∧ ((c.hasConstructor ∧ (Work.rebuildConstructor r).run ⟨c, ds⟩ = .ok () ⟨c, ds⟩)
        ∨ ∃ c' makeConst, (Work.rebuildConstructor r).run ⟨c, ds⟩ = .ok () ⟨c', ds⟩
          ∧ c'.head = c.head ∧ c'.constructorText
            = some (indent ((c.constWord makeConst ++ (name ++ d.opening)) ++ '\n'
              :: (endLines (c.listLines ps (d == Delimiters.named) (r.options .constructorDefaults))
                ++ (d.closing ++ c.constructorTail ps))))) := by
  obtain ⟨name, hname⟩ := Option.isSome_iff_exists.mp hc.name_some
  obtain ⟨d, hd⟩ := hc.delimiters_ok
  obtain ⟨ps, hps⟩ := hc.parameters_ok
  refine ⟨name, d, ps, hname, hd, hps, ?_⟩
  rw [Work.run_rebuildConstructor, newConstructor_eq hname hd hps]
  dsimp only
  split
  next hsame =>
    rw [Bool.and_eq_true] at hsame
    exact .inl ⟨hsame.1, rfl⟩
  next => exact .inr ⟨_, _, rfl, rfl, rfl⟩

theorem takesNamed_iff_not_misread {s rest : Text} {isConst : Bool}
    (h : OpensList name s isConst rest) (hs : c.constructorText = some s)
    (hname : c.head.name = some name) :
    (c.hasNamedConstructor ↔ TakesNamed name s) ↔ ¬ Misread isConst name rest s.ClosesBraced := by
  rw [h.hasNamedConstructor_eq hs hname, h.takesNamed_iff]
  exact readsNamed_iff_iff isConst name rest s.ClosesBraced

/-- A constructor that is found in full begins with the name of its class. -/
theorem constructorSeen_of_scan {text : Text} {cs : List SourceClass} (h : scan text = .ok cs)
    (hc : c ∈ cs) (hcon : c.hasConstructor) : c.ConstructorSeen := by
  obtain ⟨a, -, ha, -⟩ := exists_constructor_lines hcon
  refine (scan_introduced h c hc).resolve_left fun hnone => ?_
  rw [hnone.1] at ha
  cases ha

/-- The two tests on a constructor as found. -/
theorem ConstructorSeen.named_iff (hseen : c.ConstructorSeen) :
    ∃ name t isConst rest d, c.head.name = some name ∧ c.constructorText = some t
      ∧ OpensList name t isConst rest ∧ c.delimiters = .ok d
      ∧ ((c.hasNamedConstructor ↔ d = Delimiters.named)
        ↔ ¬ Misread isConst name rest (seemsClosed isConst name rest)) := by
  obtain ⟨-, name, t, isConst, rest, hname, ht, hopens⟩ := hseen
  obtain ⟨d, hd⟩ : ∃ d, c.delimiters = .ok d := by
    unfold delimiters
    rw [ht, hname]
    exact ⟨_, rfl⟩
  refine ⟨name, t, isConst, rest, d, hname, ht, hopens, hd, ?_⟩
  rw [hopens.hasNamedConstructor_eq ht hname, hopens.delimiters_named_iff ht hname hd]
  exact readsNamed_iff_iff isConst name rest _

/-- **The two tests for named parameters agree exactly on constructors that are not misread.**

    On a constructor as found, the first test says what the delimiters say.  After the constructor
    of a complete class has been rebuilt, the first test, and with it every call of the constructor,
    goes by whether the text that is stored then declares its parameters between `({` and `})`.  If
    that text was written anew, from parameters that close their brackets, this depends on the name
    of the class and on the closing delimiter. -/
theorem named_iff_not_misread {text : Text} {cs : List SourceClass} (h : scan text = .ok cs)
    {c : SourceClass} (hc : c ∈ cs) :
    (c.hasConstructor = true → ∃ name t isConst rest d, c.head.name = some name
        ∧ c.constructorText = some t ∧ OpensList name t isConst rest ∧ c.delimiters = .ok d
        ∧ ((c.hasNamedConstructor = true ↔ d = Delimiters.named)
          ↔ ¬ Misread isConst name rest (seemsClosed isConst name rest = true)))
      ∧ (c.isValid = true → ∀ (r : Request) (ds : Directives), ∃ name d c' s isConst rest,
        c.head.name = some name ∧ c.delimiters = .ok d
          ∧ (Work.rebuildConstructor r).run ⟨c, ds⟩ = .ok () ⟨c', ds⟩
          ∧ c'.constructorText = some s ∧ OpensList name s isConst rest
          ∧ (c'.PassesNamed ↔ c'.hasNamedConstructor = true)
          ∧ ((c'.hasNamedConstructor = true ↔ TakesNamed name s)
            ↔ ¬ Misread isConst name rest s.ClosesBraced)
          ∧ (c'.constructorChanged = true → c.HasBareNames → c.AllParameters Text.Closed →
            ((c'.hasNamedConstructor = true ↔ TakesNamed name s)
              ↔ (d.opening = "(\x7b".toList → ((isConst = true ∨ name.has "const" = false)
                ↔ d.closing = "\x7d)".toList))))) := by
  refine ⟨fun hcon => (constructorSeen_of_scan h hc hcon).named_iff, fun hv r ds => ?_⟩
  obtain ⟨s, -, hrep⟩ := (scan_laid h).2 c hc
  obtain ⟨name, d, ps, hname, hd, hps, ⟨hcon, hrun⟩ | ⟨c', makeConst, hrun, hhead, htext⟩⟩ :=
    run_rebuildConstructor_cases (hrep.workable hv) r ds
  · -- the constructor stays as it was found
    obtain ⟨-, name', t, isConst, rest, hname', ht, hopens⟩ := constructorSeen_of_scan h hc hcon
    obtain rfl : name = name' := Option.some.inj (hname.symm.trans hname')
    refine ⟨name, d, c, t, isConst, rest, hname, hd, hrun, ht, hopens, c.passesNamed_iff,
      takesNamed_iff_not_misread hopens ht hname, fun hchanged => ?_⟩
    rw [hrep.unedited.1] at hchanged
    cases hchanged
  · -- it is written anew, its first line up to the bracket
    obtain ⟨e, he⟩ := exists_last hv
    obtain ⟨hsolid, hfeed⟩ := scan_name h hc (by simp [he]) hname
    obtain ⟨isConst, o, ho, x, hopen, hopens⟩ := opensList_indent hd hsolid hfeed makeConst
      (endLines (c.listLines ps (d == Delimiters.named) (r.options .constructorDefaults))
        ++ (d.closing ++ c.constructorTail ps))
    have hnamed := takesNamed_iff_not_misread hopens htext (hhead ▸ hname)
    refine ⟨name, d, c', _, isConst, _, hname, hd, hrun, htext, hopens, c'.passesNamed_iff, hnamed,
      fun _ hnames hclosed => hnamed.trans ?_⟩
    rw [misread_line_iff ho,
      closesBraced_newConstructor (hnames.1 name hname) hd hnames.2 (hclosed ps hps), hopen,
      not_and, not_not, show "(\x7b" = '(' :: ['\x7b'] from rfl, cons_inj_right]

/-- The class with its constructor rebuilt, with the settings as they are by default. -/
def rebuilt (c : SourceClass) : Option SourceClass :=
  match (Work.rebuildConstructor {}).run ⟨c, {}⟩ with
  | .ok _ s => some s.subject
  | .error _ _ => none

/-- Braces in an initializer make no difference. -/
theorem named_iff_not_misread_initializers :
    ∃ (cs : List SourceClass) (c c' : SourceClass) (d : Delimiters) (s : Text),
      scan "class A \x7b\n  int x;\n  A(\x7bthis.x = 1\x7d) : y = f(\x7b1\x7d);\n\x7d" = .ok cs
        ∧ c ∈ cs ∧ c.delimiters = .ok d ∧ (c.hasNamedConstructor = true ↔ d = Delimiters.named)
        ∧ c.rebuilt = some c' ∧ c'.constructorText = some s
        ∧ (c'.PassesNamed ↔ TakesNamed "A" s) := by
  let t : Text := "  A(\x7bthis.x = 1\x7d) : y = f(\x7b1\x7d);"
  let rest : Text := "\x7bthis.x = 1\x7d) : y = f(\x7b1\x7d);"
  have hbegins : OpensList "A" t false rest :=
    ⟨fun e he => by cases he; decide, _, ⟨"  ", [], by decide, rfl, rfl⟩, rfl⟩
  obtain ⟨cs, c, hcs, hmem, hv, hcon, hname, ht, hdel, hnames, hclosed, hchanged⟩ := exists_scanned
    (t := "class A \x7b\n  int x;\n  A(\x7bthis.x = 1\x7d) : y = f(\x7b1\x7d);\n\x7d")
    (P := fun c => c.isValid = true ∧ c.hasConstructor = true ∧ c.head.name = some "A"
      ∧ c.constructorText = some t ∧ c.delimiters.toOption = some .named ∧ c.HasBareNames
      ∧ c.AllParameters Text.Closed ∧ c.rebuilt.any constructorChanged = true) (by decide +kernel)
  obtain ⟨hfound, hrebuilt⟩ := named_iff_not_misread hcs hmem
  obtain ⟨name, t', isConst, rest', d, hname', ht', hopens, hd, htests⟩ := hfound hcon
  obtain rfl := Option.some.inj (hname.symm.trans hname')
  obtain rfl := Option.some.inj (ht.symm.trans ht')
  -- a constructor begins in one way only, so the theorem speaks of `rest`
  obtain ⟨rfl, rfl⟩ := hbegins.unique hopens
  rw [hd] at hdel
  obtain rfl : d = .named := Option.some.inj hdel
  obtain ⟨name, d', c', s, isConst, rest', hname'', hd', hrun, hs, -, hpasses, -, hnew⟩ :=
    hrebuilt hv {} {}
  obtain rfl := Option.some.inj (hname.symm.trans hname'')
  obtain rfl := Except.ok.inj (hd.symm.trans hd')
  have hc' : c.rebuilt = some c' := by rw [rebuilt, hrun]
  rw [hc'] at hchanged
  refine ⟨cs, c, c', .named, s, hcs, hmem, hd, htests.mpr ?_, hc', hs, hpasses.trans
    ((hnew hchanged hnames hclosed).mpr fun _ => iff_of_true (Or.inr (by decide)) rfl)⟩
  rw [misread_plain_iff]
  decide

/-- The end of a list in an initializer counts as the end of the parameters for one test only; and a
    class whose name has the word `const` in it gets a constructor with named parameters, and calls
    of it with positional arguments. -/
theorem named_tests_disagree :
    (∃ cs c, scan "class A \x7b\n  int x;\n  A(\x7bthis.x\x7d) : y = f([1]);\n\x7d" = .ok cs
        ∧ c ∈ cs ∧ c.hasConstructor = true ∧ c.hasNamedConstructor = true
        ∧ c.delimiters.toOption = some ⟨"(\x7b", "])"⟩)
      ∧ ∃ cs c c' s, scan "class Deconstruct \x7b\n  int x;\n\x7d" = .ok cs ∧ c ∈ cs
        ∧ c.isValid = true ∧ c.rebuilt = some c' ∧ c'.constructorText = some s
        ∧ TakesNamed "Deconstruct" s ∧ ¬ c'.PassesNamed := by
  let s : Text := "  Deconstruct(\x7b\n    required this.x,\n  \x7d);\n"
  refine ⟨exists_scanned (by decide +kernel), ?_⟩
  obtain ⟨cs, c, hcs, hmem, hv, hsome, htext, hnamed⟩ := exists_scanned
    (t := "class Deconstruct \x7b\n  int x;\n\x7d")
    (P := fun c => c.isValid = true ∧ c.rebuilt.isSome = true
      ∧ c.rebuilt.bind constructorText = some s
      ∧ c.rebuilt.any hasNamedConstructor = false) (by decide +kernel)
  obtain ⟨c', hc'⟩ := Option.isSome_iff_exists.mp hsome
  rw [hc'] at htext hnamed
  refine ⟨cs, c, c', s, hcs, hmem, hv, hc', htext, ?_, ?_⟩
  · exact ⟨false, "\x7b\n    required this.x,\n  \x7d);\n", ⟨fun e he => by cases he; decide, _,
      ⟨"  ", [], by decide, rfl, rfl⟩, rfl⟩, by decide, by decide +kernel⟩
  · rw [passesNamed_iff]
    exact Bool.eq_false_iff.mp hnamed

end SourceClass

end DartData
