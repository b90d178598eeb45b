import DartData.Constructor
import DartData.Proofs.Text.Squeeze
import DartData.Scan
import Mathlib.Tactic.Tauto

/-!
# How a constructor begins

The text of a constructor begins with blanks, perhaps the word `const`, the name of its class and a
round bracket (`OpensList`).  Whatever the name, it begins so in one way only
(`OpensList.unique`).  Two tests look at this beginning to find out whether the parameters are
named.  One takes the first `const` of the text away, wherever it stands, and looks for a brace
after the bracket (`OpensList.hasNamedConstructor_eq`).  The other takes a `const` at the start
away, and looks for the delimiters on either side (`OpensList.delimiters_named_iff`).  `Misread`
lists the three ways in which the first test misses a parameter list between braces
(`readsNamed_iff_iff`).
-/

namespace DartData

open List Text

namespace Text

/-! ## §1. Text in front of a name. -/

/-- A name and a character that ends it are found at one place only, if the character does not stand
    in front of it. -/
theorem eq_of_append_name {p q name x y : Text} {d : Char} (hp : d ∉ p) (hq : d ∉ q)
    (h : p ++ (name ++ d :: x) = q ++ (name ++ d :: y)) : p = q ∧ x = y := by
  -- what stands before the first `d` has the same length on both sides
  have hlength : ∀ z : Text, ((name ++ d :: z).takeWhile (· ≠ d)).length
      = (name.takeWhile (· ≠ d)).length := by
    intro z
    rw [takeWhile_append]
    split
    next hall => rw [hall, takeWhile_cons_of_neg (by simp), append_nil]
    next => rfl
  have hfront : ∀ r z : Text, d ∉ r → ((r ++ (name ++ d :: z)).takeWhile (· ≠ d)).length
      = r.length + (name.takeWhile (· ≠ d)).length := by
    intro r z hr
    rw [takeWhile_append_of_pos fun c hc => by simpa using fun hcd : c = d => hr (hcd ▸ hc),
      length_append, hlength]
  have hpq : p.length = q.length := by
    have heq := congrArg (fun t : Text => (t.takeWhile (· ≠ d)).length) h
    simp only [hfront p x hp, hfront q y hq] at heq
    omega
  obtain ⟨rfl, hrest⟩ := append_inj h hpq
  exact ⟨rfl, List.cons.inj (append_cancel_left hrest) |>.2⟩

/-- The first occurrence of a piece stays the first one if something follows. -/
theorem cut?_append {p b : Text} (t r : Text) (hp : p ≠ []) {a : Text}
    (h : t.cut? p = some (a, b)) :
    (t ++ r).cut? p = some (a, b ++ r) := by
  induction t generalizing a with
  | nil =>
    cases p with
    | nil => exact absurd rfl hp
    | cons c p => cases h
  | cons c t ih =>
    rw [cut?] at h
    split at h
    next hpre =>
      have hpre' := List.isPrefixOf_iff_prefix.mp hpre
      cases h
      have hlong : p.isPrefixOf (c :: (t ++ r)) :=
        List.isPrefixOf_iff_prefix.mpr (hpre'.trans (prefix_append (c :: t) r))
      rw [cons_append, cut?, if_pos hlong, ← cons_append,
        drop_append_of_le_length hpre'.length_le]
    next hpre =>
      obtain ⟨⟨a', b'⟩, hcut, heq⟩ := Option.map_eq_some_iff.mp h
      obtain ⟨rfl, rfl⟩ := Prod.mk.inj heq
      -- the piece stands in the text, so none that begins before it can reach out of it
      have hlen : p.length ≤ t.length := by
        rw [append_of_cut? t hcut]
        simp only [length_append]
        omega
      have hpre' : ¬ p <+: c :: (t ++ r) := by
        intro hlong
        refine hpre (List.isPrefixOf_iff_prefix.mpr ?_)
        rw [← cons_append] at hlong
        exact prefix_of_prefix_length_le hlong (prefix_append _ _) (by
          rw [length_cons]
          omega)
      rw [cons_append, cut?, if_neg (by rwa [List.isPrefixOf_iff_prefix]), ih hcut]
      rfl

end Text

/-! ## §2. The beginning. -/

/-- What may stand in front of the name: blanks, and `const` with a blank and perhaps more of them
    if `isConst`. -/
def IsLead (isConst : Bool) (lead : Text) : Prop :=
  ∃ a b : Text, a.allBlank = true ∧ b.allBlank = true
    ∧ lead = a ++ (if isConst then "const " ++ b else [])

/-- The text `t` of a constructor of the class `name` opens its parameter list, and `rest` follows
    the bracket. -/
structure OpensList (name t : Text) (isConst : Bool) (rest : Text) : Prop where
  solid : ∀ c, (name ++ ['(']).head? = some c → isBlank c = false
  begins : ∃ lead, IsLead isConst lead ∧ t = lead ++ (name ++ '(' :: rest)

namespace IsLead

variable {isConst : Bool} {lead : Text}

theorem not_mem (h : IsLead isConst lead) : '(' ∉ lead := by
  obtain ⟨a, b, ha, hb, rfl⟩ := h
  cases isConst <;> simp [not_mem_of_all ha (d := '(') (by decide),
    not_mem_of_all hb (d := '(') (by decide)]

theorem mem_iff (h : IsLead isConst lead) : 'c' ∈ lead ↔ isConst := by
  obtain ⟨a, b, ha, -, rfl⟩ := h
  cases isConst <;> simp [not_mem_of_all ha (d := 'c') (by decide)]

end IsLead

namespace OpensList

variable {name t rest : Text} {isConst : Bool}

theorem append (h : OpensList name t isConst rest) (u : Text) :
    OpensList name (t ++ u) isConst (rest ++ u) where
  solid := h.solid
  begins := by
    obtain ⟨lead, hlead, rfl⟩ := h.begins
    exact ⟨lead, hlead, by simp⟩

/-- **A constructor begins in one way only.** -/
theorem unique {isConst' : Bool} {rest' : Text} (h : OpensList name t isConst rest)
    (h' : OpensList name t isConst' rest') : isConst = isConst' ∧ rest = rest' := by
  obtain ⟨lead, hlead, rfl⟩ := h.begins
  obtain ⟨lead', hlead', heq⟩ := h'.begins
  obtain ⟨rfl, hrest⟩ := eq_of_append_name hlead.not_mem hlead'.not_mem heq
  exact ⟨Bool.eq_iff_iff.mpr (hlead.mem_iff.symm.trans hlead'.mem_iff), hrest⟩

theorem trimStart_name (h : OpensList name t isConst rest) (u : Text) :
    trimStart (name ++ '(' :: u) = name ++ '(' :: u := by
  cases hname : name with
  | nil => rfl
  | cons c r => exact trimStart_cons_of_not_blank (h.solid c (by rw [hname]; rfl)) _

end OpensList

/-- A text that begins with the name and a bracket once it is trimmed. -/
theorem solid_of_startsWith {name t : Text} (h : t.trimStart.startsWith (name ++ ['('])) :
    ∃ a rest : Text, a.allBlank ∧ t = a ++ (name ++ '(' :: rest)
      ∧ ∀ c, (name ++ ['(']).head? = some c → isBlank c = false := by
  obtain ⟨a, ha, ht⟩ := exists_trimStart t
  obtain ⟨rest, hrest⟩ := startsWith_iff.mp h
  refine ⟨a, rest, all_eq_true.mpr ha, ?_, ?_⟩
  · rw [ht, ← hrest]
    simp
  · intro c hc
    obtain ⟨r, hr⟩ := head?_eq_some_iff.mp hc
    exact not_blank_of_trimStart_eq_cons (show t.trimStart = c :: (r ++ rest) by
      rw [← hrest, hr]; rfl)

/-- A line on which a constructor is seen to begin. -/
theorem exists_opensList {name line : Text}
    (h : (OpenClass.afterConst line).startsWith (name ++ ['('])) :
    ∃ isConst rest, OpensList name line isConst rest := by
  unfold OpenClass.afterConst at h
  dsimp only at h
  split at h
  next hconst =>
    obtain ⟨a, ha, hline⟩ := exists_trimStart line
    obtain ⟨r, hr⟩ := startsWith_iff.mp hconst
    have hdrop : line.trimStart.drop 6 = r := by rw [← hr]; rfl
    rw [hdrop] at h
    obtain ⟨b, rest, hb, rfl, hsolid⟩ := solid_of_startsWith h
    refine ⟨true, rest, hsolid, _, ⟨a, b, all_eq_true.mpr ha, hb, rfl⟩, ?_⟩
    rw [hline, ← hr]
    simp
  next =>
    obtain ⟨a, rest, ha, rfl, hsolid⟩ := solid_of_startsWith h
    exact ⟨false, rest, hsolid, a, ⟨a, [], ha, rfl, (append_nil a).symm⟩, rfl⟩

/-! ## §3. The tests. -/

/-- The first test: `const` is taken away where it first stands, be it in the name or behind the
    bracket. -/
def readsNamed (isConst : Bool) (name rest : Text) : Bool :=
  if isConst then rest.startsWith ['\x7b']
  else !name.has "const" && (rest.startsWith ['\x7b'] || rest.startsWith "const\x7b")

/-- The second test, as far as it goes by more than the brace: a `const` at the start of the name is
    taken away, and the closing delimiter is looked for in all of the text. -/
def seemsClosed (isConst : Bool) (name rest : Text) : Bool :=
  (isConst || !name.startsWith "const") && has (name ++ '(' :: rest) "\x7d)"
    && !has (name ++ '(' :: rest) "])"

theorem not_prefix_of_shifted {p n u : Text} {d : Char} (hp : '(' ∉ p) (hne : p ≠ []) :
    ¬ p ++ (n ++ ['(', d]) <+: n ++ '(' :: u := by
  rintro ⟨z, hz⟩
  have heq : [] ++ (n ++ '(' :: u) = p ++ (n ++ '(' :: (d :: z)) := by
    rw [nil_append, ← hz]
    simp
  exact hne (eq_of_append_name (by simp) hp heq).1.symm

/-- Without the word it begins with, a name is not found. -/
theorem not_startsWith_without_const (n u : Text) (d : Char) :
    (trimStart (n ++ '(' :: u)).startsWith ("const" ++ (n ++ ['(', d])) = false := by
  rw [startsWith_eq_false_iff]
  intro hpre
  obtain ⟨w, hw, hsplit⟩ := exists_trimStart (n ++ '(' :: u)
  refine not_prefix_of_shifted (p := w ++ "const") (n := n) (u := u) (d := d) ?_ (by simp) ?_
  · simp [not_mem_of_all (all_eq_true.mpr hw) (d := '(') (by decide)]
  · rw [hsplit, append_assoc, prefix_append_right_inj]
    exact hpre

theorem startsWith_name_paren (name u : Text) (d : Char) :
    startsWith (name ++ '(' :: u) (name ++ ['(', d]) = u.startsWith [d] := by
  rw [Bool.eq_iff_iff, startsWith_iff, startsWith_iff, prefix_append_right_inj,
    prefix_cons_inj]

/-- A brace at the start once the first `const` is taken away. -/
theorem startsWith_eraseFirst (rest : Text) : (rest.eraseFirst "const").startsWith ['\x7b']
      = (rest.startsWith ['\x7b'] || rest.startsWith "const\x7b") := by
  by_cases hconst : "const" <+: rest
  · -- then it is the one at the start
    obtain ⟨u, rfl⟩ := hconst
    have hcut := cut?_append_self (p := "const") (by decide) u
    rw [eraseFirst, hcut]
    have hlong : startsWith ("const" ++ u) "const\x7b" = startsWith u ['\x7b'] := by
      rw [Bool.eq_iff_iff, startsWith_iff, startsWith_iff]
      exact List.prefix_append_right_inj "const".toList
    rw [hlong]
    rfl
  · have hlong : rest.startsWith "const\x7b" = false := by
      rw [startsWith_eq_false_iff]
      exact fun h => hconst (List.IsPrefix.trans ⟨['\x7b'], rfl⟩ h)
    rw [hlong, Bool.or_false]
    cases rest with
    | nil => rfl
    | cons d rest =>
      have hno : isPrefixOf "const" (d :: rest) = false := by
        rw [Bool.eq_false_iff, ne_eq, List.isPrefixOf_iff_prefix]
        exact hconst
      rw [eraseFirst, cut?, hno]
      cases cut? rest "const" <;> simp [startsWith, isPrefixOf]

theorem eraseFirst_blank_append {a : Text} (ha : a.allBlank) (u : Text) :
    (a ++ u).eraseFirst "const" = a ++ u.eraseFirst "const" := by
  rw [eraseFirst, eraseFirst,
    cut?_append_of_not_mem (c := 'c') rfl (not_mem_of_all ha (by decide))]
  cases u.cut? "const" with
  | none => rfl
  | some x => simp

namespace OpensList

variable {name t rest : Text} {isConst : Bool} {c : SourceClass}

/-- The word in front of the name is the one that is taken away. -/
theorem trimStart_eraseFirst_const (h : OpensList name t true rest) :
    trimStart (t.eraseFirst "const") = name ++ '(' :: rest := by
  obtain ⟨lead, ⟨a, b, ha, hb, rfl⟩, rfl⟩ := h.begins
  have herase : eraseFirst ("const " ++ (b ++ (name ++ '(' :: rest))) "const"
      = ' ' :: (b ++ (name ++ '(' :: rest)) := by
    have hcut := cut?_append_self (p := "const") (by decide)
      (' ' :: (b ++ (name ++ '(' :: rest)))
    rw [eraseFirst, show "const " ++ (b ++ (name ++ '(' :: rest))
      = "const" ++ (' ' :: (b ++ (name ++ '(' :: rest))) from rfl, hcut]
    rfl
  rw [if_pos rfl, append_assoc, append_assoc, eraseFirst_blank_append ha, herase,
    trimStart_append_of_blank (all_eq_true.mp ha),
    trimStart_cons_of_blank (by decide),
    trimStart_append_of_blank (all_eq_true.mp hb), h.trimStart_name]

/-- Without it, one that stands behind the bracket is. -/
theorem trimStart_eraseFirst_rest (h : OpensList name t false rest)
    (hname : name.has "const" = false) :
    trimStart (t.eraseFirst "const") = name ++ '(' :: rest.eraseFirst "const" := by
  obtain ⟨lead, ⟨a, b, ha, hb, rfl⟩, rfl⟩ := h.begins
  rw [if_neg (by decide), append_nil, eraseFirst_blank_append ha,
    trimStart_append_of_blank (all_eq_true.mp ha),
    eraseFirst_append_cons (by decide) hname, h.trimStart_name]

/-- If one stands in the name, what is left does not begin with the name. -/
theorem not_startsWith_eraseFirst (h : OpensList name t false rest)
    (hname : name.has "const") (d : Char) :
    (trimStart (t.eraseFirst "const")).startsWith (name ++ ['(', d]) = false := by
  obtain ⟨⟨x, y⟩, hcut⟩ := Option.isSome_iff_exists.mp ((isSome_cut? name "const").trans hname)
  have hsolid := h.solid
  obtain ⟨lead, ⟨a, b, ha, hb, rfl⟩, rfl⟩ := h.begins
  have hlong := cut?_append name ('(' :: rest) (p := "const") (by decide) hcut
  obtain rfl : name = x ++ ("const" ++ y) := append_of_cut? name hcut
  rw [if_neg (by decide), append_nil, eraseFirst_blank_append ha,
    trimStart_append_of_blank (all_eq_true.mp ha), eraseFirst, hlong]
  dsimp only
  cases x with
  | nil => exact not_startsWith_without_const y rest d
  | cons e x =>
    -- the name would have to stand where the word was, further to the left than it does
    have he : isBlank e = false := hsolid e rfl
    rw [cons_append, trimStart_cons_of_not_blank he, Bool.eq_false_iff, ne_eq, startsWith_iff]
    intro hpre
    refine not_prefix_of_shifted (p := "const") (n := y) (u := rest) (d := d) (by decide)
      (by decide) ?_
    simpa using hpre

/-- **The first test** goes by `readsNamed`. -/
theorem hasNamedConstructor_eq (h : OpensList name t isConst rest)
    (ht : c.constructorText = some t) (hname : c.head.name = some name) :
    c.hasNamedConstructor = readsNamed isConst name rest := by
  have hshown : c.shownName = name := by simp [SourceClass.shownName, Declaration.shownName, hname]
  unfold SourceClass.hasNamedConstructor readsNamed
  rw [ht, hshown]
  dsimp only
  cases isConst with
  | true =>
    rw [h.trimStart_eraseFirst_const, startsWith_name_paren]
    rfl
  | false =>
    cases hconst : name.has "const" with
    | true =>
      rw [h.not_startsWith_eraseFirst hconst]
      rfl
    | false =>
      rw [h.trimStart_eraseFirst_rest hconst, startsWith_name_paren, startsWith_eraseFirst]
      rfl

theorem trimStart_const (h : OpensList name t true rest) : ∃ b : Text, b.allBlank
    ∧ t.trimStart = "const" ++ (' ' :: (b ++ (name ++ '(' :: rest))) := by
  obtain ⟨lead, ⟨a, b, ha, hb, rfl⟩, rfl⟩ := h.begins
  refine ⟨b, hb, ?_⟩
  rw [append_assoc, trimStart_append_of_blank (all_eq_true.mp ha), if_pos rfl,
    append_assoc]
  rfl

theorem trimStart_plain (h : OpensList name t false rest) : t.trimStart = name ++ '(' :: rest := by
  obtain ⟨lead, ⟨a, b, ha, -, rfl⟩, rfl⟩ := h.begins
  rw [append_assoc, trimStart_append_of_blank (all_eq_true.mp ha)]
  exact h.trimStart_name rest

theorem startsWith_const (name rest : Text) :
    startsWith (name ++ '(' :: rest) "const" = name.startsWith "const" := by
  rw [Bool.eq_iff_iff, startsWith_iff, startsWith_iff]
  exact ⟨prefix_of_not_mem (by decide), fun h => h.trans (prefix_append _ _)⟩

/-- What the second test looks at, unless it takes a part of the name away. -/
theorem withoutConst_eq (h : OpensList name t isConst rest)
    (hname : isConst ∨ name.startsWith "const" = false) :
    SourceClass.withoutConst t = name ++ '(' :: rest := by
  unfold SourceClass.withoutConst
  cases isConst with
  | true =>
    obtain ⟨b, hb, ht⟩ := h.trimStart_const
    rw [ht]
    show trimStart (' ' :: (b ++ (name ++ '(' :: rest))) = _
    rw [trimStart_cons_of_blank (by decide),
      trimStart_append_of_blank (all_eq_true.mp hb), h.trimStart_name]
  | false =>
    rw [h.trimStart_plain]
    dsimp only
    rw [startsWith_const, hname.resolve_left Bool.false_ne_true]
    rfl

/-- Else it does not find the name. -/
theorem not_startsWith_withoutConst (h : OpensList name t false rest)
    (hname : name.startsWith "const") (d : Char) :
    (SourceClass.withoutConst t).startsWith (name ++ ['(', d]) = false := by
  unfold SourceClass.withoutConst
  rw [h.trimStart_plain]
  dsimp only
  rw [startsWith_const, hname]
  obtain ⟨n, rfl⟩ := startsWith_iff.mp hname
  rw [append_assoc]
  exact not_startsWith_without_const n rest d

/-- **The second test** goes by the brace and `seemsClosed`. -/
theorem delimiters_named_iff (h : OpensList name t isConst rest) {d : Delimiters}
    (ht : c.constructorText = some t) (hname : c.head.name = some name)
    (hd : c.delimiters = .ok d) :
    d = Delimiters.named ↔ rest.startsWith ['\x7b'] ∧ seemsClosed isConst name rest := by
  have hd' : d = ⟨if (SourceClass.withoutConst t).startsWith (name ++ ['(', '[']) then "(["
      else if (SourceClass.withoutConst t).startsWith (name ++ ['(', '\x7b']) then "(\x7b"
        else "(", if (SourceClass.withoutConst t).has "])" then "])"
      else if (SourceClass.withoutConst t).has "\x7d)" then "\x7d)" else ")"⟩ := by
    unfold SourceClass.delimiters at hd
    rw [ht, hname] at hd
    exact (Except.ok.inj hd).symm
  -- without the word `const`, the beginning of a name like `constA` is taken for it
  by_cases hfound : isConst ∨ name.startsWith "const" = false
  · have hclosed : seemsClosed isConst name rest = (has (name ++ '(' :: rest) "\x7d)"
        && !has (name ++ '(' :: rest) "])") := by
      rw [seemsClosed]
      rcases hfound with rfl | hfound
      · rfl
      · rw [hfound, Bool.not_false, Bool.or_true, Bool.true_and]
    have hbrace : rest.startsWith ['['] → rest.startsWith ['\x7b'] = false := by
      intro hsquare
      obtain ⟨u, rfl⟩ := startsWith_iff.mp hsquare
      rfl
    rw [hd', h.withoutConst_eq hfound, startsWith_name_paren, startsWith_name_paren, hclosed,
      Bool.and_eq_true, Bool.not_eq_true', Delimiters.named, Delimiters.mk.injEq]
    refine and_congr ?_ ?_
    · cases hsquare : rest.startsWith ['['] with
      | true => simp [hbrace hsquare]
      | false => cases rest.startsWith ['\x7b'] <;> simp
    · cases has (name ++ '(' :: rest) "])" <;> cases has (name ++ '(' :: rest) "\x7d)" <;>
        simp
  · rw [not_or, Bool.not_eq_true, Bool.not_eq_false] at hfound
    obtain ⟨rfl, hconst⟩ := hfound
    have hclosed : seemsClosed false name rest = false := by
      rw [seemsClosed, hconst]
      rfl
    rw [hd', h.not_startsWith_withoutConst hconst, h.not_startsWith_withoutConst hconst, hclosed]
    simp [Delimiters.named]

end OpensList

/-! ## §4. Where the first test goes wrong. -/

/-- The ways in which the first test misses whether a parameter list stands between braces.  That it
    begins with one can be read off `rest`; `closes` tells whether it ends with one. -/
inductive Misread (isConst : Bool) (name rest : Text) (closes : Prop) : Prop where
  /-- The word is taken out of the name, which is then not found. -/
  | inName (plain : isConst = false) (word : name.has "const" = true)
      (brace : rest.startsWith ['\x7b'] = true) (closed : closes)
  /-- Only the beginning is looked at. -/
  | atEnd (found : isConst = true ∨ name.has "const" = false)
      (brace : rest.startsWith ['\x7b'] = true) (unclosed : ¬ closes)
  /-- The word is taken away from between the bracket and a brace. -/
  | inList (plain : isConst = false) (noWord : name.has "const" = false)
      (brace : rest.startsWith "const\x7b" = true)

variable {name rest : Text} {closes : Prop}

/-- With the word in front of it, a constructor is misread only at its end. -/
theorem misread_const_iff :
    Misread true name rest closes ↔ rest.startsWith ['\x7b'] ∧ ¬ closes := by
  constructor
  · rintro (⟨⟨⟩, -⟩ | ⟨-, hbrace, hopen⟩ | ⟨⟨⟩, -⟩)
    exact ⟨hbrace, hopen⟩
  · exact fun h => .atEnd (.inl rfl) h.1 h.2

/-- Without it, the first test goes by the name. -/
theorem misread_plain_iff : Misread false name rest closes
      ↔ if name.has "const" then rest.startsWith ['\x7b'] ∧ closes
        else (rest.startsWith ['\x7b'] ∧ ¬ closes) ∨ rest.startsWith "const\x7b" := by
  split
  next hword =>
    constructor
    · rintro (⟨-, -, hbrace, hclosed⟩ | ⟨⟨⟨⟩⟩ | hno, -, -⟩ | ⟨-, hno, -⟩)
      · exact ⟨hbrace, hclosed⟩
      · exact absurd hword (Bool.eq_false_iff.mp hno)
      · exact absurd hword (Bool.eq_false_iff.mp hno)
    · exact fun h => .inName rfl hword h.1 h.2
  next hword =>
    rw [Bool.not_eq_true] at hword
    constructor
    · rintro (⟨-, hyes, -, -⟩ | ⟨-, hbrace, hopen⟩ | ⟨-, -, hbrace⟩)
      · exact absurd hyes (Bool.eq_false_iff.mp hword)
      · exact .inl ⟨hbrace, hopen⟩
      · exact .inr hbrace
    · rintro (⟨hbrace, hopen⟩ | hbrace)
      · exact .atEnd (.inr hword) hbrace hopen
      · exact .inList rfl hword hbrace

/-- **The first test is right unless a constructor is misread.** -/
theorem readsNamed_iff_iff (isConst : Bool) (name rest : Text) (closes : Prop) :
    (readsNamed isConst name rest ↔ rest.startsWith ['\x7b'] ∧ closes)
      ↔ ¬ Misread isConst name rest closes := by
  have hone : ¬ (rest.startsWith ['\x7b'] ∧ rest.startsWith "const\x7b") := by
    rintro ⟨hbrace, hconst⟩
    obtain ⟨u, rfl⟩ := startsWith_iff.mp hconst
    cases hbrace
  unfold readsNamed
  cases isConst with
  | true =>
    rw [misread_const_iff, if_pos rfl]
    tauto
  | false =>
    rw [misread_plain_iff, if_neg Bool.false_ne_true]
    cases name.has "const" with
    | true =>
      rw [if_pos rfl, Bool.not_true, Bool.false_and]
      simp
    | false =>
      rw [if_neg Bool.false_ne_true, Bool.not_false, Bool.true_and, Bool.or_eq_true]
      tauto

end DartData
