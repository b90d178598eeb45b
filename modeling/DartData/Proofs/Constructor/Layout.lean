import DartData.Proofs.Constructor.Parameter
import DartData.Proofs.Lexer.Marks

/-!
# The layout of a new constructor

A constructor is written as a line that opens the parameter list, one line for each parameter, and
the bracket that closes the list with all that follows it (`newConstructor_eq`).  A line is that of
a parameter as found or of one made for a field; the latter close all their brackets
(`even_newParameter`), so where the former do, the bracket is the one that matches the first
(`afterParens_newConstructor`), and the brackets of the constructor are those around the list and
those after it (`net_newConstructor`).
-/

namespace DartData

open List Text

/-! ## §1. Lines. -/

/-- The line of a parameter as found, without its line feed. -/
def Parameter.line (p : Parameter) : Text := p.text.dropLast

theorem Parameter.text_of_ofText? {written : Text} {p : Parameter}
    (h : Parameter.ofText? written = some p) : p.text = p.line ++ ['\n'] := by
  unfold ofText? at h
  dsimp only at h
  split at h
  · cases h
  · rw [← Option.some.inj h, line, dropLast_concat]

namespace SourceClass

variable {c : SourceClass} {name t : Text} {d : Delimiters} {ps : List Parameter}
  {defaultValues makeConst : Bool}

/-- A parameter that was read has its line for a text. -/
theorem text_of_mem_parameters (h : c.parameters = .ok ps) :
    ∀ p ∈ ps, p.text = p.line ++ ['\n'] := by
  unfold parameters at h
  split at h
  next =>
    intro p hp
    rw [← Except.ok.inj h] at hp
    obtain ⟨written, -, hw⟩ := mem_filterMap.mp hp
    exact Parameter.text_of_ofText? hw
  next => cases h
  next =>
    intro p hp
    rw [← Except.ok.inj h] at hp
    cases hp

/-- The line for a field, if there is one. -/
def fieldLine? (ps : List Parameter) (named defaultValues : Bool) (f : Field) : Option Text :=
  match ps.reverse.find? (·.name == f.name) with
  | some p => if p.setsField then some ("  " ++ p.line) else none
  | none => some ("  " ++ (newParameter f named defaultValues ++ [',']))

/-- The lines of the parameter list. -/
def listLines (c : SourceClass) (ps : List Parameter) (named defaultValues : Bool) : List Text :=
  (if c.head.isWidget && !hasKey ps then ["  Key? key,".toList] else [])
    ++ ((ps.filter fun p => !p.setsField).map (fun p => "  ".toList ++ p.line)
      ++ c.fields.filterMap (fieldLine? ps named defaultValues))

theorem of_foundLines (h : ∀ p ∈ ps, p.text = p.line ++ ['\n']) :
    of (ps.map fun p => "  " ++ p.text)
      = endLines (ps.map fun p => "  " ++ p.line) := by
  have hmap : (ps.map fun p => "  ".toList ++ p.text)
      = ps.map ((· ++ ['\n']) ∘ fun p => "  ".toList ++ p.line) :=
    List.map_congr_left fun p hp => by rw [h p hp]; simp
  rw [hmap, of, endLines, map_map]

/-- What is written for the fields is made of whole lines. -/
theorem of_fieldLines (h : ∀ p ∈ ps, p.text = p.line ++ ['\n']) (named defaultValues : Bool)
    (fs : List Field) : of (fs.map (parameterLine ps named defaultValues))
      = endLines (fs.filterMap (fieldLine? ps named defaultValues)) := by
  have hline : ∀ f, parameterLine ps named defaultValues f
      = endLines (fieldLine? ps named defaultValues f).toList := by
    intro f
    cases hfind : ps.reverse.find? (·.name == f.name) with
    | some p =>
      have hmem : p ∈ ps := mem_reverse.mp (mem_of_find?_eq_some hfind)
      simp only [parameterLine, fieldLine?, hfind]
      split
      · rw [h p hmem]
        simp [endLines]
      · rfl
    | none => simp [parameterLine, fieldLine?, hfind, of, endLines]
  induction fs with
  | nil => rfl
  | cons f fs ih =>
    rw [map_cons, show of (parameterLine ps named defaultValues f
        :: fs.map (parameterLine ps named defaultValues)) = parameterLine ps named defaultValues f
          ++ of (fs.map (parameterLine ps named defaultValues)) from rfl, ih, hline]
    cases hf : fieldLine? ps named defaultValues f with
    | none => rw [filterMap_cons_none hf]; rfl
    | some l => rw [filterMap_cons_some hf]; simp [endLines]

/-- **A constructor is written line by line**: a line up to the bracket that opens the parameter
    list, one line for each parameter, and what follows them. -/
theorem newConstructor_eq (hname : c.head.name = some name) (hd : c.delimiters = .ok d)
    (hps : c.parameters = .ok ps) : c.newConstructor defaultValues makeConst
      = .ok ((c.constWord makeConst ++ (name ++ d.opening)) ++ '\n'
        :: (endLines (c.listLines ps (d == Delimiters.named) defaultValues)
          ++ (d.closing ++ c.constructorTail ps))) := by
  have htext := text_of_mem_parameters hps
  have hkey : (if c.head.isWidget && !hasKey ps then "  Key? key,\n".toList else [])
      = endLines (if c.head.isWidget && !hasKey ps then ["  Key? key,"] else []) := by
    split <;> rfl
  have hfound : ∀ p ∈ ps.filter fun p => !p.setsField, p.text = p.line ++ ['\n'] :=
    fun p hp => htext p (mem_filter.mp hp).1
  -- what remains is a text put together from known pieces
  unfold newConstructor
  rw [hd, hname, hps]
  show Except.ok (of [c.constWord makeConst, name, d.opening, "\n",
    if c.head.isWidget && !hasKey ps then "  Key? key,\n" else [],
    of ((ps.filter fun p => !p.setsField).map fun p => "  " ++ p.text),
    of (c.fields.map (parameterLine ps (d == Delimiters.named) defaultValues)), d.closing,
    c.constructorTail ps]) = _
  rw [hkey, of_foundLines hfound, of_fieldLines htext, listLines, endLines_append, endLines_append]
  simp only [of, flatten_cons, flatten_nil, append_nil, append_assoc]
  rfl

/-- What holds of the lines of the parameters as found and of those made for fields holds of all. -/
theorem forall_mem_listLines {P : Text → Prop} {named : Bool} (hkey : P "  Key? key,".toList)
    (hfound : ∀ p ∈ ps, P ("  ".toList ++ p.line))
    (hnew : ∀ f ∈ c.fields, P ("  ".toList ++ (newParameter f named defaultValues ++ [',']))) :
    ∀ l ∈ c.listLines ps named defaultValues, P l := by
  intro l hl
  rcases List.mem_append.mp hl with hl | hl
  · split at hl
    · rw [mem_singleton.mp hl]
      exact hkey
    · cases hl
  · rcases mem_append.mp hl with hl | hl
    · obtain ⟨p, hp, rfl⟩ := mem_map.mp hl
      exact hfound p (mem_filter.mp hp).1
    · obtain ⟨f, hf, hl⟩ := mem_filterMap.mp hl
      unfold fieldLine? at hl
      split at hl
      next p hp =>
        split at hl
        · rw [← Option.some.inj hl]
          exact hfound p (mem_reverse.mp (mem_of_find?_eq_some hp))
        · cases hl
      next =>
        rw [← Option.some.inj hl]
        exact hnew f hf

/-! ## §2. What is found. -/

theorem exists_constructor_lines (hc : c.hasConstructor) :
    ∃ a b, c.constructorFirst = some a ∧ c.constructorLast = some b := by
  simp only [hasConstructor, Bool.and_eq_true] at hc
  obtain ⟨a, ha⟩ := Option.isSome_iff_exists.mp hc.1.1
  obtain ⟨b, hb⟩ := Option.isSome_iff_exists.mp hc.1.2
  exact ⟨a, b, ha, hb⟩

/-- A constructor that was found can be read. -/
theorem exists_of_hasConstructor (hv : c.isValid) (hc : c.hasConstructor) :
    ∃ name t d ps, c.head.name = some name ∧ c.constructorText = some t ∧ c.delimiters = .ok d
      ∧ c.parameters = .ok ps := by
  simp only [isValid, Bool.and_eq_true] at hv
  simp only [hasConstructor, Bool.and_eq_true] at hc
  obtain ⟨name, hname⟩ := Option.isSome_iff_exists.mp hv.1.1.1.2
  obtain ⟨⟨ha, hb⟩, ht⟩ := hc
  obtain ⟨a, ha⟩ := Option.isSome_iff_exists.mp ha
  obtain ⟨b, hb⟩ := Option.isSome_iff_exists.mp hb
  obtain ⟨t, ht⟩ := Option.isSome_iff_exists.mp ht
  have hd : ∃ d, c.delimiters = .ok d := by
    unfold delimiters
    rw [ht, hname]
    exact ⟨_, rfl⟩
  have hps : ∃ ps, c.parameters = .ok ps := by
    unfold parameters
    rw [ha, hb, ht]
    exact ⟨_, rfl⟩
  obtain ⟨d, hd⟩ := hd
  obtain ⟨ps, hps⟩ := hps
  exact ⟨name, t, d, ps, hname, ht, hd, hps⟩

/-- The brackets that a parameter list can have around it. -/
theorem delimiters_cases (h : c.delimiters = .ok d) :
    d.opening ∈ ["(".toList, "([".toList, "(\x7b".toList]
      ∧ d.closing ∈ [")".toList, "])".toList, "\x7d)".toList] := by
  unfold delimiters at h
  split at h
  · rw [← Except.ok.inj h]
    decide
  · cases h
  · rw [← Except.ok.inj h]
    constructor <;> dsimp only <;> split
    · decide
    · split <;> decide
    · decide
    · split <;> decide

theorem closing_cases (h : c.delimiters = .ok d) :
    d.closing = ")" ∨ d.closing = "])" ∨ d.closing = "\x7d)" := by
  simpa using (delimiters_cases h).2

theorem constWord_cases (c : SourceClass) (makeConst : Bool) :
    c.constWord makeConst = [] ∨ c.constWord makeConst = "const " := by
  unfold constWord
  split <;> split <;> simp

end SourceClass

/-! ## §3. Brackets of the lines. -/

namespace Text

/-- A character of code that is no bracket and ends no line. -/
def isBareChar (c : Char) : Bool :=
  Lexer.isCode c && !(['(', ')', '[', ']', '{', '}', '\n'].contains c)

/-- Whether a text is a piece of one line of code, without quotes, slashes and brackets, as a name
    is. -/
def isBare (t : Text) : Bool := t.all isBareChar

/-- A text that closes the brackets it opens, round ones in order. -/
structure Even (t : Text) : Prop where
  closed : t.Closed
  net_eq : ∀ k : Bracket, k.net t = 0

instance (t : Text) : Decidable t.Even :=
  decidable_of_iff (t.Closed ∧ Bracket.curly.net t = 0 ∧ Bracket.round.net t = 0
      ∧ Bracket.square.net t = 0)
    ⟨fun h => ⟨h.1, Bracket.forall_iff.mpr h.2⟩,
      fun h => ⟨h.closed, Bracket.forall_iff.mp h.net_eq⟩⟩

variable {code l t : Text}

theorem isCode_of_isBare (h : t.isBare) : t.all Lexer.isCode := by
  rw [all_eq_true]
  intro c hc
  have := all_eq_true.mp h c hc
  rw [isBareChar, Bool.and_eq_true] at this
  exact this.1

theorem not_mem_of_isBare (h : t.isBare) {d : Char}
    (hd : d ∈ ['(', ')', '[', ']', '{', '}', '\n']) : d ∉ t :=
  not_mem_of_all h (by rw [isBareChar, contains_iff_mem.mpr hd]; simp)

theorem excess_of_isBare (h : t.isBare) (k : Bracket) : k.excess t = 0 := by
  cases k <;> exact Bracket.excess_of_not_mem (not_mem_of_isBare h (by decide))
    (not_mem_of_isBare h (by decide))

theorem nest_of_not_mem (ho : '(' ∉ code) (hc : ')' ∉ code) (d : Nat) : nest d code = some d := by
  induction code with
  | nil => rfl
  | cons c r ih =>
    rw [mem_cons, not_or] at ho hc
    rw [nest, if_neg (Ne.symm ho.1), if_neg (Ne.symm hc.1)]
    exact ih ho.2 hc.2

theorem even_of_reads (h : Lexer.Reads l code) (hn : '\n' ∉ l) (hround : '(' ∉ code ∧ ')' ∉ code)
    (hex : ∀ k : Bracket, k.excess code = 0) : l.Even := by
  obtain ⟨hs, hcode⟩ := settles_of_reads h hn
  refine ⟨⟨hs, ?_⟩, fun k => ?_⟩
  · rw [hcode]
    exact nest_of_not_mem hround.1 hround.2 0
  · rw [Bracket.net, hcode]
    exact hex k

theorem Closed.margin (h : l.Closed) : Closed ("  " ++ l) := by
  obtain ⟨hcode, hsettles⟩ := code_leads (u := "  ") (by decide) l
  refine ⟨hsettles.mpr h.settles, ?_⟩
  rw [hcode]
  exact h.nest_eq

theorem Even.margin (h : l.Even) : Even ("  " ++ l) where
  closed := h.closed.margin
  net_eq k := by
    rw [Bracket.net_blank_append (all_eq_true.mp (by decide))]
    exact h.net_eq k

end Text

/-- The class and its fields have names without brackets. -/
def SourceClass.HasBareNames (c : SourceClass) : Prop :=
  (∀ name, c.head.name = some name → name.isBare = true) ∧ ∀ f ∈ c.fields, f.name.isBare = true

instance (c : SourceClass) : Decidable c.HasBareNames := inferInstanceAs (Decidable (_ ∧ _))

/-- The line of every parameter as found is `P`. -/
def SourceClass.AllParameters (c : SourceClass) (P : Text → Prop) : Prop :=
  ∀ ps, c.parameters = .ok ps → ∀ p ∈ ps, P p.line

instance (c : SourceClass) (P : Text → Prop) [DecidablePred P] : Decidable (c.AllParameters P) :=
  match h : c.parameters with
  | .ok ps => decidable_of_iff (∀ p ∈ ps, P p.line)
      ⟨fun hp _ hqs => Except.ok.inj (h.symm.trans hqs) ▸ hp, fun hp => hp ps h⟩
  | .error _ => isTrue fun _ hqs => nomatch h.symm.trans hqs

/-- The code of a default. -/
theorem reads_default {d : Text} (hd : d ∈ plainDefaults) :
    ∃ code, Lexer.Reads (' ' :: d) code ∧ '(' ∉ code ∧ ')' ∉ code
      ∧ ∀ k : Bracket, k.excess code = 0 := by
  have hall : ∀ d ∈ plainDefaults, d ≠ "''" → (' ' :: d).all Lexer.isCode
      ∧ '(' ∉ ' ' :: d ∧ ')' ∉ ' ' :: d ∧ Bracket.curly.excess (' ' :: d) = 0
      ∧ Bracket.round.excess (' ' :: d) = 0 ∧ Bracket.square.excess (' ' :: d) = 0 := by decide
  by_cases hq : d = "''"
  · subst hq
    refine ⟨[' '], ?_, by decide, by decide, fun k => by cases k <;> decide⟩
    exact Lexer.reads_quoted (c := ' ') (w := []) (by decide) (by decide) rfl
  · obtain ⟨hcode, ho, hc, hk⟩ := hall d hd hq
    exact ⟨_, Lexer.reads_code hcode, ho, hc, Bracket.forall_iff.mpr hk⟩

/-- **A parameter made for a field closes its brackets.** -/
theorem even_newParameter {f : Field} (hf : f.name.isBare) (named defaultValues : Bool) :
    Even (SourceClass.newParameter f named defaultValues ++ [',']) := by
  have hname := Lexer.reads_code (isCode_of_isBare hf)
  have hfeed := not_mem_of_isBare hf (d := '\n') (by decide)
  have ho := not_mem_of_isBare hf (d := '(') (by decide)
  have hc := not_mem_of_isBare hf (d := ')') (by decide)
  have hcomma := Lexer.reads_code (t := [',']) (by decide)
  -- a word in front of the name and something after it
  have hform : ∀ w v code : Text, w.isBare → Lexer.Reads v code → '\n' ∉ v → '(' ∉ code →
      ')' ∉ code → (∀ k : Bracket, k.excess code = 0) → Even (w ++ (f.name ++ (v ++ [',']))) := by
    intro w v code hw hv hvn hvo hvc hvk
    refine even_of_reads ((Lexer.reads_code (isCode_of_isBare hw)).append
      (hname.append (hv.append hcomma))) ?_ ⟨?_, ?_⟩ fun k => ?_
    · simp [hfeed, hvn, not_mem_of_isBare hw (d := '\n') (by decide)]
    · simp [ho, hvo, not_mem_of_isBare hw (d := '(') (by decide)]
    · simp [hc, hvc, not_mem_of_isBare hw (d := ')') (by decide)]
    · rw [Bracket.excess_append, Bracket.excess_append, Bracket.excess_append, excess_of_isBare hw,
        excess_of_isBare hf, hvk, show k.excess [','] = 0 by cases k <;> rfl]
      rfl
  have hbare : ∀ w : Text, w.isBare → Even ((w ++ f.name) ++ [',']) := by
    intro w hw
    rw [append_assoc]
    exact hform w [] [] hw Lexer.reads_nil (by simp) (by simp) (by simp) fun k => by cases k <;> rfl
  unfold SourceClass.newParameter
  dsimp only
  split
  · exact hbare "this." (by decide)
  · split
    next h =>
      simp only [Bool.and_eq_true] at h
      have hd := defaultValue_mem h.1.2
      obtain ⟨code, hcode, hco, hcc, hck⟩ := reads_default hd
      have hequals := (Lexer.reads_code (t := " =") (by decide)).append hcode
      have hdn : '\n' ∉ f.defaultValue := by
        have hall : ∀ d ∈ plainDefaults, '\n' ∉ d := by decide
        exact hall _ hd
      have := hform "this." (" =" ++ (' ' :: f.defaultValue)) (" =" ++ code)
        (by decide) hequals (by simp [hdn]) (by simp [hco]) (by simp [hcc]) fun k => by
          rw [Bracket.excess_append, hck, show k.excess " =" = 0 by cases k <;> rfl]
          rfl
      simpa [of] using this
    next =>
      split
      · rw [show "required " ++ ("this." ++ f.name)
            = "required this." ++ f.name from rfl]
        exact hbare "required this." (by decide)
      · exact hbare "this." (by decide)

/-! ## §4. Brackets of the constructor. -/

/-- The net of lines that close their brackets, and of what follows them. -/
theorem Bracket.net_endLines {ls : List Text} (h : ∀ l ∈ ls, l.Even) (k : Bracket) (w : Text) :
    k.net (endLines ls ++ w) = k.net w := by
  induction ls with
  | nil => rfl
  | cons l ls ih =>
    have hl := h l mem_cons_self
    rw [endLines_cons, append_assoc, cons_append, net_append_line hl.closed.settles,
      hl.net_eq k, Int.zero_add]
    exact ih (forall_mem_cons.mp h).2

namespace SourceClass

variable {c : SourceClass} {name : Text} {d : Delimiters} {ps : List Parameter}

section

variable (hn : name.isBare = true) (hd : c.delimiters = .ok d)
include hn hd

/-- The line that opens the parameter list is code. -/
theorem settles_firstLine (makeConst : Bool) :
    Settles (c.constWord makeConst ++ (name ++ d.opening))
      ∧ code (c.constWord makeConst ++ (name ++ d.opening))
        = c.constWord makeConst ++ (name ++ d.opening) := by
  have hword : (c.constWord makeConst).all Lexer.isCode ∧ '\n' ∉ c.constWord makeConst := by
    rcases c.constWord_cases makeConst with h | h <;> rw [h] <;> decide
  have hopen : d.opening.all Lexer.isCode ∧ '\n' ∉ d.opening := by
    have hall : ∀ o ∈ ["(".toList, "([".toList, "(\x7b".toList], o.all Lexer.isCode
        ∧ '\n' ∉ o := by decide
    exact hall _ (delimiters_cases hd).1
  refine settles_of_reads (Lexer.reads_code ?_) ?_
  · rw [all_append, all_append, hword.1, hopen.1, isCode_of_isBare hn]
    rfl
  · simp [hword.2, hopen.2, not_mem_of_isBare hn (d := '\n') (by decide)]

/-- **The bracket in front of the tail is the one that matches the first**, if the parameters as
    found close their brackets. -/
theorem afterParens_newConstructor (hfields : ∀ f ∈ c.fields, f.name.isBare)
    (hclosed : ∀ p ∈ ps, p.line.Closed) (named defaultValues makeConst : Bool) (tail : Text) :
    afterParens ((c.constWord makeConst ++ (name ++ d.opening)) ++ '\n'
      :: (endLines (c.listLines ps named defaultValues) ++ (d.closing ++ tail))) = some tail := by
  obtain ⟨hsettles, hcode⟩ := settles_firstLine hn hd makeConst
  have hlines : ∀ l ∈ c.listLines ps named defaultValues, l.Closed :=
    forall_mem_listLines (by decide) (fun p hp => (hclosed p hp).margin)
      fun f hf => (even_newParameter (hfields f hf) named defaultValues).closed.margin
  -- the first line opens one round bracket and closes none
  have hword : '(' ∉ c.constWord makeConst ∧ ')' ∉ c.constWord makeConst := by
    rcases c.constWord_cases makeConst with h | h <;> rw [h] <;> decide
  have hopen : d.opening.count '(' = 1 ∧ ')' ∉ d.opening := by
    have hall : ∀ o ∈ ["(".toList, "([".toList, "(\x7b".toList], o.count '(' = 1 ∧ ')' ∉ o := by
      decide
    exact hall _ (delimiters_cases hd).1
  have hnone : ')' ∉ c.constWord makeConst ++ (name ++ d.opening) := by
    simp [hword.2, hopen.2, not_mem_of_isBare hn (d := ')') (by decide)]
  have hone : (c.constWord makeConst ++ (name ++ d.opening)).count '(' = 1 := by
    rw [count_append, count_append, hopen.1, count_eq_zero.mpr hword.1,
      count_eq_zero.mpr (not_mem_of_isBare hn (by decide))]
  -- the closing brackets are code, and the round one is the last of them
  have hlast : afterClose 1 (d.closing ++ tail).marked = some tail := by
    have hround : afterClose 1 ((')', true) :: tail.marked) = some (tail.marked.map Prod.fst) := rfl
    rw [marked_text] at hround
    rcases closing_cases hd with h | h | h <;> rw [h]
    · show afterClose 1 (marked (')' :: tail)) = _
      rw [marked_lead (by decide)]
      exact hround
    · show afterClose 1 (marked (']' :: ')' :: tail)) = _
      rw [marked_lead (by decide), marked_lead (by decide)]
      exact hround
    · show afterClose 1 (marked ('}' :: ')' :: tail)) = _
      rw [marked_lead (by decide), marked_lead (by decide)]
      exact hround
  rw [afterParens, hsettles.marked_append, afterClose_of_not_mem _ (by rwa [marked_code, hcode]),
    marked_code, hcode, hone]
  show afterClose 1
    (marked (endLines (c.listLines ps named defaultValues) ++ (d.closing ++ tail))) = _
  rw [afterClose_endLines hlines, hlast]

/-- **The brackets of a constructor are those around its parameter list and those of the tail**, if
    the parameters as found close theirs. -/
theorem net_newConstructor (hfields : ∀ f ∈ c.fields, f.name.isBare)
    (heven : ∀ p ∈ ps, p.line.Even) (named defaultValues makeConst : Bool) (tail : Text)
    (k : Bracket) :
    k.net ((c.constWord makeConst ++ (name ++ d.opening)) ++ '\n'
      :: (endLines (c.listLines ps named defaultValues) ++ (d.closing ++ tail)))
      = k.excess d.opening + k.excess d.closing + k.net tail := by
  obtain ⟨hsettles, hcode⟩ := settles_firstLine hn hd makeConst
  have hlines : ∀ l ∈ c.listLines ps named defaultValues, l.Even :=
    forall_mem_listLines (by decide) (fun p hp => (heven p hp).margin)
      fun f hf => (even_newParameter (hfields f hf) named defaultValues).margin
  have hword : k.excess (c.constWord makeConst) = 0 := by
    rcases c.constWord_cases makeConst with h | h <;> rw [h] <;> cases k <;> rfl
  have hlead : d.closing.all Lexer.isLead := by
    have hall : ∀ o ∈ [")".toList, "])".toList, "\x7d)".toList], o.all Lexer.isLead := by
      decide
    exact hall _ (delimiters_cases hd).2
  have hlast : k.net (d.closing ++ tail) = k.excess d.closing + k.net tail := by
    rw [Bracket.net, (code_leads hlead tail).1, Bracket.excess_append]
    rfl
  rw [Bracket.net_append_line hsettles, Bracket.net_endLines hlines, hlast, Bracket.net, hcode,
    Bracket.excess_append, Bracket.excess_append, hword, excess_of_isBare hn]
  omega

end

end SourceClass

end DartData
