import DartData.Proofs.Constructor.Kept
import DartData.Proofs.Constructor.Opening

/-!
# The constructor is rebuilt as it is

A class of plain fields without a constructor gets one with named parameters, one a line
(`newConstructor_of_none`).  In the class it stands with its lines moved to the right, and is a
named parameter list like any other (`NamedConstructor.print_onLines`).  So its parameters are read
back, and with the delimiters, the word in front of it and what follows it the same constructor is
built again (`IsPlain.newConstructor_of_written`).
-/

namespace DartData

open List Text

/-! ## §1. The constructor as a parameter list. -/

/-- A parameter as it is written for a field, on a line of its own. -/
def FieldParameter.onLine (name : Text) (hname : isIdentifier name = true) (required : Bool)
    (value : Option Text) (hvalue : ∀ d ∈ value, d ∈ plainDefaults) : FieldParameter where
  before := "\n    "
  modifier := if required then some " " else none
  name := name
  value := value.map fun d => (" ", ' ' :: d)
  after := []
  before_blank := by decide
  modifier_blank := by cases required <;> simp [allBlank, isBlank]
  name_identifier := hname
  value_blank := by
    intro b d h
    obtain ⟨e, -, heq⟩ := Option.map_eq_some_iff.mp h
    injection heq with hb
    rw [← hb]
    decide
  value_nested := by
    have hall : ∀ d ∈ plainDefaults, nestedFrom [] (some '=') (' ' :: d) = true := by decide
    intro b d h
    obtain ⟨e, he, heq⟩ := Option.map_eq_some_iff.mp h
    injection heq with _ hd
    rw [← hd]
    exact hall e (hvalue e he)
  value_end := by
    have hall : ∀ d ∈ plainDefaults, (' ' :: d).getLast?.any (fun e => !isBlank e) = true := by
      decide
    intro b d h
    obtain ⟨e, he, heq⟩ := Option.map_eq_some_iff.mp h
    injection heq with _ hd
    rw [← hd]
    exact hall e (hvalue e he)
  after_blank := rfl

/-- The parameter stands on a line of its own, with the comma directly after it. -/
def FieldParameter.IsOnLine (p : FieldParameter) : Prop := p.before = "\n    " ∧ p.after = []

variable {name : Text} {items : List FieldParameter}

theorem IsParameter.exists_onLine {p : Text} (h : IsParameter name p) (hname : isIdentifier name) :
    ∃ q : FieldParameter, q.name = name ∧ q.core = p ∧ q.IsOnLine := by
  have hnone : ∀ d ∈ (none : Option Text), d ∈ plainDefaults := by simp
  cases h with
  | bare => exact ⟨.onLine name hname false none hnone, rfl, by simp [FieldParameter.onLine,
      FieldParameter.core, FieldParameter.word, FieldParameter.valueText], rfl, rfl⟩
  | required => exact ⟨.onLine name hname true none hnone, rfl, by simp [FieldParameter.onLine,
      FieldParameter.core, FieldParameter.word, FieldParameter.valueText], rfl, rfl⟩
  | @withDefault d hd =>
    exact ⟨.onLine name hname false (some d) (by simpa using hd), rfl, rfl, rfl, rfl⟩

/-- A constructor in the body of its class, with each parameter on a line of its own. -/
def NamedConstructor.onLines (lead : Text) (hlead : '(' ∉ lead ∧ ')' ∉ lead)
    (items : List FieldParameter) (hne : items ≠ []) (hnd : (items.map FieldParameter.name).Nodup) :
    NamedConstructor where
  lead := lead
  opening := []
  list :=
    { items, comma := true, close := "\n  "
      items_ne_nil := hne, distinct := hnd, close_blank := by decide }
  closing := []
  tail := ";"
  lead_flat := hlead
  opening_blank := rfl
  closing_blank := rfl

/-- The lines of the parameters, and their list with commas in between. -/
theorem endLines_onLines (hne : items ≠ []) (hitems : ∀ p ∈ items, p.IsOnLine) :
    '\n' :: endLines (items.map fun p => "    " ++ (p.core ++ [',']))
      = join [','] (items.map FieldParameter.text) ++ [',', '\n'] := by
  have htext : ∀ p ∈ items, p.text = "\n    " ++ p.core := by
    intro p hp
    rw [FieldParameter.text, (hitems p hp).1, (hitems p hp).2, append_nil]
  induction items with
  | nil => exact absurd rfl hne
  | cons p ps ih =>
    rw [map_cons, map_cons, endLines_cons, htext p mem_cons_self]
    cases ps with
    | nil => simp [join]
    | cons q qs =>
      have hrest := ih (cons_ne_nil q qs) (forall_mem_cons.mp hitems).2
        fun x hx => htext x (mem_cons_of_mem _ hx)
      rw [map_cons (f := FieldParameter.text), join_cons_cons, ← map_cons,
        append_assoc (_ ++ [',']), ← hrest]
      simp

/-- **The constructor that is written is a parameter list as it may stand in a class.** -/
theorem NamedConstructor.print_onLines {word : Text} (hitems : ∀ p ∈ items, p.IsOnLine) (hlead : _)
    (hne : items ≠ []) (hnd : _) :
    (onLines ("  " ++ (word ++ name)) hlead items hne hnd).print
      = unlines (constructorItem word name (items.map FieldParameter.core)).lines := by
  have hlines := endLines_onLines hne hitems
  have hmap : (items.map FieldParameter.core).map (fun p => "    " ++ (p ++ [',']))
      = items.map fun p => "    " ++ (p.core ++ [',']) := map_map
  show _ = unlines (_ :: (_ ++ ["  \x7d);".toList]))
  rw [hmap, unlines_constructor, ← cons_append, hlines]
  simp [print, onLines, NamedList.print, NamedList.ending, constructorItem]

/-- The list ends with a comma, so with no square bracket. -/
theorem NamedList.endsWith_of_comma {l : NamedList} (h : l.comma) :
    l.print.trim.endsWith "]" = false := by
  have hprint : l.print = join [','] (l.items.map FieldParameter.text) ++ ',' :: l.close := by
    simp [print, ending, h]
  have hlast : l.print.trim.getLast? = some ',' := by
    have hsqueeze : l.print.trimStart.squeeze = l.print.squeeze :=
      (squeeze_trimEnd _).symm.trans (squeeze_trim l.print)
    rw [trim, getLast?_trimEnd, hsqueeze, hprint, squeeze_append, getLast?_append,
      squeeze_cons (by decide), squeeze_eq_nil_iff.mpr l.blank_close]
    rfl
  rw [Bool.eq_false_iff, ne_eq, endsWith_iff]
  rintro ⟨u, hu⟩
  rw [← hu, getLast?_append] at hlast
  exact absurd (Option.some.inj hlast) (by decide)

namespace SourceClass

variable {c : SourceClass} {name : Text} {fs : List PlainField}

theorem IsPlain.areParameters (h : c.IsPlain name fs) (defaultValues : Bool) :
    AreParameters (newParameters defaultValues c.fields) := by
  intro p hp
  obtain ⟨f, hf, rfl⟩ := mem_map.mp hp
  obtain ⟨q, n, rfl⟩ := h.mem_fields hf
  exact ⟨q.name, q.isParameter_new n defaultValues, all_isWord_of_isIdentifier q.isName⟩

/-- The parameters for the fields of the class. -/
theorem IsPlain.exists_items (h : c.IsPlain name fs) (defaultValues : Bool) :
    ∃ items : List FieldParameter, items.map (fun p => (p.name, p.core))
        = c.fields.map (fun f => (f.name, newParameter f true defaultValues))
      ∧ ∀ p ∈ items, p.IsOnLine ∧ p.IsClear := by
  have hfields : ∀ f ∈ c.fields, ∃ (q : PlainField) (n : Int), f = q.field n := fun f hf =>
    h.mem_fields hf
  generalize c.fields = fields at hfields ⊢
  induction fields with
  | nil => exact ⟨[], rfl, by simp⟩
  | cons f fields ih =>
    obtain ⟨items, hmap, hitems⟩ := ih fun g hg => hfields g (mem_cons_of_mem _ hg)
    obtain ⟨q, n, rfl⟩ := hfields f mem_cons_self
    obtain ⟨p, hname, hcore, hline⟩ := (q.isParameter_new n defaultValues).exists_onLine q.isName
    refine ⟨p :: items, ?_, fun x hx => ?_⟩
    · rw [map_cons, map_cons, hmap, hname, hcore, q.name_field]
    · rcases mem_cons.mp hx with rfl | hx
      · exact ⟨hline, fun _ => hname ▸ q.not_required⟩
      · exact hitems x hx

/-- The constructor of the class is the one that was written for it. -/
structure HasWritten (c : SourceClass) (word name : Text) (defaultValues : Bool) : Prop where
  text_eq : c.constructorText = some (unlines
    (constructorItem word name (newParameters defaultValues c.fields)).lines)
  lines_eq : ∃ a b : Int, c.constructorFirst = some a ∧ c.constructorLast = some b ∧ a ≠ b
  word_eq : word = [] ∨ word = "const "

variable {word : Text} {defaultValues : Bool}

section

variable (h : c.IsPlain name fs)
include h

/-- It is a parameter list as it may stand in a class. -/
theorem IsPlain.exists_named (hnd : (c.fields.map Field.name).Nodup)
    (hc : c.HasWritten word name defaultValues) :
    ∃ n : NamedConstructor, c.constructorText = some n.print ∧ n.list.comma
      ∧ n.list.items.map (fun p => (p.name, p.core))
        = c.fields.map (fun f => (f.name, newParameter f true defaultValues))
      ∧ ∀ p ∈ n.list.items, p.IsOnLine ∧ p.IsClear := by
  obtain ⟨items, hmap, hitems⟩ := h.exists_items defaultValues
  have hnames : items.map FieldParameter.name = c.fields.map Field.name := by
    have hfst := congrArg (List.map Prod.fst) hmap
    rwa [map_map, map_map] at hfst
  have hcores : items.map FieldParameter.core = newParameters defaultValues c.fields := by
    have hsnd := congrArg (List.map Prod.snd) hmap
    rwa [map_map, map_map] at hsnd
  have hne : items ≠ [] := by
    rintro rfl
    exact h.fields_ne_nil (map_eq_nil_iff.mp hnames.symm)
  have hlead : '(' ∉ "  " ++ (word ++ name) ∧ ')' ∉ "  " ++ (word ++ name) := by
    have ho := not_mem_of_all h.word (d := '(') (by decide)
    have hcl := not_mem_of_all h.word (d := ')') (by decide)
    rcases hc.word_eq with rfl | rfl <;> simp [ho, hcl]
  refine ⟨.onLines _ hlead items hne (hnames ▸ hnd), ?_, rfl, hmap, hitems⟩
  rw [hc.text_eq, ← hcores, NamedConstructor.print_onLines fun p hp => (hitems p hp).1]

/-- The parameters are read back. -/
theorem IsPlain.exists_parameters (hnd : (c.fields.map Field.name).Nodup)
    (hc : c.HasWritten word name defaultValues) :
    ∃ ps, c.parameters = .ok ps ∧ SetsOnly ps ∧ ∀ f ∈ c.fields, fieldLine? ps true defaultValues f
      = some ("  " ++ (newParameter f true defaultValues ++ [','])) := by
  obtain ⟨n, htext, hcomma, hmap, hitems⟩ := h.exists_named hnd hc
  obtain ⟨a, b, ha, hb, hab⟩ := hc.lines_eq
  -- each parameter has a line to itself
  have hlines : n.list.OneALine := by
    refine ⟨fun p hp => ⟨?_, ?_, fun _ => (hitems p hp).1.2⟩, fun p hp => ?_⟩
    · obtain ⟨f, hf, heq⟩ := mem_map.mp (hmap ▸ mem_map_of_mem hp)
      obtain ⟨q, hq, hw⟩ := h.areParameters defaultValues _ (mem_map_of_mem hf)
      rw [← (Prod.mk.inj heq).2]
      exact hq.not_mem hw (by decide)
    · rw [(hitems p hp).1.2]
      exact not_mem_nil
    · rw [(hitems p (mem_of_mem_tail hp)).1.1]
      decide
  have hread := n.list.readAs_lines (fun p hp => (hitems p hp).2) hlines
  refine ⟨_, ?_, setsOnly_of_readAs hread, fun f hf => ?_⟩
  · unfold parameters
    rw [ha, hb, htext]
    dsimp only
    rw [if_neg hab, n.parameterList_print (NamedList.endsWith_of_comma hcomma)]
    rfl
  · obtain ⟨b, hb, hline⟩ := exists_fieldLine hread true defaultValues f
    have hnil : b = [] := by
      rcases hb with hb | ⟨p, hp, hb⟩
      · exact hb
      · exact hb.trans (hitems p hp).1.2
    obtain ⟨p, hp, heq⟩ := mem_map.mp (hmap ▸ mem_map_of_mem hf)
    obtain ⟨hname, hcore⟩ := Prod.mk.inj heq
    rw [hline, hnil, NamedList.parameterFor, n.list.find?_name hp hname, ← hcore]
    rfl

/-! ## §2. What stands around the parameters. -/

/-- The constructor with what stands between its braces. -/
theorem IsPlain.exists_text (hc : c.HasWritten word name defaultValues) :
    ∃ body : Text, ')' ∉ body ∧ ':' ∉ body ∧ c.constructorText
        = some ("  " ++ (word ++ (name ++ '(' :: '{' :: (body ++ ['}', ')', ';'])))) := by
  have hbody : ∀ d ∈ ['(', ')', ':', ';'], d ∉ '\n' :: (endLines
      ((newParameters defaultValues c.fields).map fun p => "    " ++ (p ++ [',']))
      ++ "  ") := by
    intro d hd
    have hfixed : ∀ d ∈ ['(', ')', ':', ';'], d ≠ '\n' ∧ d ≠ ' ' ∧ d ≠ ',' :=
      forall_mem_of_all (by decide)
    have hfixed := hfixed d hd
    have hlines : d ∉ endLines ((newParameters defaultValues c.fields).map fun p =>
        "    " ++ (p ++ [','])) := by
      refine not_mem_endLines hfixed.1 fun l hl => ?_
      obtain ⟨p, hp, rfl⟩ := mem_map.mp hl
      obtain ⟨n, hn, hw⟩ := h.areParameters defaultValues p hp
      have hno := hn.not_mem hw (mem_append_left _ hd)
      simp [hno, hfixed]
    rw [mem_cons, mem_append, not_or, not_or]
    exact ⟨hfixed.1, hlines, by simp [hfixed]⟩
  refine ⟨_, hbody ')' (by decide), hbody ':' (by decide), ?_⟩
  rw [hc.text_eq]
  show some (unlines (_ :: (_ ++ [_]))) = _
  rw [unlines_constructor]
  simp [constructorItem]

theorem IsPlain.startsWith_const : name.startsWith "const" = false := by
  obtain ⟨a, ha, hup⟩ := h.head_name
  have hname := startsWith_name ha hup [] (p := "const") rfl
  rwa [append_nil] at hname

theorem IsPlain.opensList (hword : word = [] ∨ word = "const ") (rest : Text) :
    ∃ isConst, OpensList name ("  " ++ (word ++ (name ++ '(' :: rest))) isConst rest
      ∧ word = if isConst then "const ".toList else [] := by
  obtain ⟨a, ha, hup⟩ := h.head_name
  have hsolid : ∀ e, (name ++ ['(']).head? = some e → isBlank e = false := by
    intro e he
    rw [head?_append, ha] at he
    exact Option.some.inj he ▸ isBlank_of_isWord (isWord_of_isUpper hup)
  rcases hword with rfl | rfl
  · exact ⟨false, ⟨hsolid, "  ", ⟨"  ", [], by decide, rfl, rfl⟩, rfl⟩, rfl⟩
  · exact ⟨true, ⟨hsolid, "  const ", ⟨"  ", [], by decide, rfl, rfl⟩, rfl⟩, rfl⟩

/-- The list is read as one of named parameters. -/
theorem IsPlain.delimiters_eq (hc : c.HasWritten word name defaultValues) :
    c.delimiters = .ok .named := by
  obtain ⟨body, hround, -, htext⟩ := h.exists_text hc
  obtain ⟨isConst, hopens, -⟩ := h.opensList hc.word_eq ('{' :: (body ++ ['}', ')', ';']))
  obtain ⟨d, hd⟩ : ∃ d, c.delimiters = .ok d := by
    unfold delimiters
    rw [htext, h.name_eq]
    exact ⟨_, rfl⟩
  have happ : name ++ '(' :: '{' :: (body ++ ['}', ')', ';'])
      = (name ++ '(' :: '{' :: (body ++ ['}'])) ++ ')' :: [';'] := by simp
  have hclose : has (name ++ '(' :: '{' :: (body ++ ['}', ')', ';'])) "\x7d)" :=
    has_iff.mpr ⟨name ++ '(' :: '{' :: body, [';'], by simp⟩
  -- the only closing round bracket stands after a brace
  have hnot : has (name ++ '(' :: '{' :: (body ++ ['}', ')', ';'])) "])" = false := by
    rw [Bool.eq_false_iff, happ]
    intro hhas
    have honly : ')' ∉ name ++ '(' :: '{' :: (body ++ ['}']) := by
      simp [not_mem_of_all h.word (d := ')') (by decide), hround]
    have hend := suffix_of_has (q := [']']) honly (by decide) hhas
    rw [← cons_append, ← cons_append, ← append_assoc] at hend
    exact absurd (eq_of_singleton_suffix hend) (by decide)
  rw [hd, (hopens.delimiters_named_iff htext h.name_eq hd).mpr ⟨rfl, ?_⟩]
  rw [seemsClosed, hclose, hnot, h.startsWith_const]
  cases isConst <;> rfl

/-- The word in front is read again. -/
theorem IsPlain.constWord_eq (hc : c.HasWritten word name defaultValues) (makeConst : Bool) :
    c.constWord makeConst = word := by
  obtain ⟨body, -, -, htext⟩ := h.exists_text hc
  obtain ⟨isConst, hopens, rfl⟩ := h.opensList hc.word_eq ('{' :: (body ++ ['}', ')', ';']))
  unfold constWord
  rw [htext]
  dsimp only
  cases isConst with
  | true =>
    obtain ⟨b, -, htrim⟩ := hopens.trimStart_const
    rw [htrim]
    rfl
  | false =>
    rw [hopens.trimStart_plain, OpensList.startsWith_const, h.startsWith_const]

/-- Nothing but a semicolon follows. -/
theorem IsPlain.constructorTail_eq (hc : c.HasWritten word name defaultValues)
    (hw : c.head.isWidget = false) (ps : List Parameter) : c.constructorTail ps = ";" := by
  obtain ⟨body, -, hcolon, htext⟩ := h.exists_text hc
  have happ : "  " ++ (word ++ (name ++ '(' :: '{' :: (body ++ ['}', ')', ';'])))
      = ("  " ++ (word ++ (name ++ '(' :: '{' :: (body ++ ['}', ')'])))) ++ [';'] := by simp
  have hno : ':' ∉ "  " ++ (word ++ (name ++ '(' :: '{' :: (body ++ ['}', ')', ';']))) := by
    have hname := not_mem_of_all h.word (d := ':') (by decide)
    rcases hc.word_eq with rfl | rfl <;> simp [hname, hcolon]
  rw [happ] at htext hno
  have htrim := trimEnd_append_of_not_blank (c := ';') (by decide)
    ("  " ++ (word ++ (name ++ '(' :: '{' :: (body ++ ['}', ')']))))
  rw [constructorTail_of_end htext, hw]
  · rfl
  · rw [htrim]
    exact cut?_eq_none (has_eq_false_of_not_mem (p := " : ") (by decide) hno)
  · rw [htrim, Bool.eq_false_iff, ne_eq, endsWith_iff]
    exact fun hend => absurd (eq_of_singleton_suffix hend) (by decide)

end

/-! ## §3. The constructor. -/

/-- A constructor with named parameters that has one line for each field. -/
theorem newConstructor_lines {ps : List Parameter} (hname : c.head.name = some name)
    (hd : c.delimiters = .ok .named) (hps : c.parameters = .ok ps) (hsets : SetsOnly ps)
    (hw : c.head.isWidget = false) (htail : c.constructorTail ps = ";")
    (hlines : ∀ f ∈ c.fields, fieldLine? ps true defaultValues f
      = some ("  " ++ (newParameter f true defaultValues ++ [',']))) (makeConst : Bool) :
    c.newConstructor defaultValues makeConst = .ok (unlines
      (constructorLines (c.constWord makeConst) name (newParameters defaultValues c.fields))) := by
  have hlist : c.listLines ps true defaultValues
      = (newParameters defaultValues c.fields).map fun p => "  " ++ (p ++ [',']) := by
    rw [hsets.listLines_eq, hw, newParameters, map_map, filterMap_congr hlines]
    exact congrFun filterMap_eq_map c.fields
  rw [newConstructor_eq hname hd hps, constructorLines, unlines_constructor, htail,
    show (Delimiters.named == Delimiters.named) = true from rfl, hlist]
  simp [Delimiters.named]

/-- **A class without a constructor gets one.** -/
theorem newConstructor_of_none (h : c.IsPlain name fs) (ht : c.constructorText = none)
    (hf : c.constructorFirst = none) (hw : c.head.isWidget = false)
    (defaultValues makeConst : Bool) :
    c.newConstructor defaultValues makeConst = .ok (unlines
      (constructorLines (constWordFor makeConst) name (newParameters defaultValues c.fields))) := by
  have hword : c.constWord makeConst = constWordFor makeConst := by
    simp only [constWord, ht, hw, Bool.false_or]
    rfl
  have hps : c.parameters = .ok [] := by simp [parameters, hf]
  rw [← hword]
  exact newConstructor_lines h.name_eq (by simp [delimiters, ht]) hps (by simp [SetsOnly]) hw
    (by simp [constructorTail, ht, hw]) (fun f _ => rfl) makeConst

/-- **The constructor that was written is built again**, whatever is wanted of a new one. -/
theorem IsPlain.newConstructor_of_written (h : c.IsPlain name fs)
    (hc : c.HasWritten word name defaultValues) (hw : c.head.isWidget = false)
    (hnd : (c.fields.map Field.name).Nodup) (makeConst : Bool) :
    c.newConstructor defaultValues makeConst = .ok (unlines
      (constructorLines word name (newParameters defaultValues c.fields))) := by
  obtain ⟨ps, hps, hsets, hlines⟩ := h.exists_parameters hnd hc
  have hnew := newConstructor_lines h.name_eq (h.delimiters_eq hc) hps hsets hw
    (h.constructorTail_eq hc hw ps) hlines makeConst
  rwa [h.constWord_eq hc] at hnew

end SourceClass

end DartData
