import DartData.Proofs.Constructor.Parameter
import DartData.Proofs.Member.Placed

/-!
# The constructor in its place

The constructor that is written for a class of plain fields stands in the body of the class with its
lines moved to the right.  There the scanner takes it for the constructor, a search for a member
passes over it, and it has named parameters or not as it had before.
-/

namespace DartData

open List Text

variable {name word : Text} {ps : List Text}

/-! ## §1. Scanning. -/

/-- A written constructor is scanned as one. -/
theorem isConstructor_constructorItem (hw : name.all isWord)
    (hup : name.head?.any Char.isUpper) (hword : word = [] ∨ word = "const ")
    (hps : AreParameters ps) :
    IsConstructor name (constructorItem word name ps).first
      (ps.map fun p => "    " ++ (p ++ [','])) "  \x7d);" := by
  obtain ⟨a, ha, hupper⟩ := (Option.any_eq_true ..).mp hup
  obtain ⟨htrim, hname⟩ := trimStart_constructor ha hupper hword ['(', '{']
  -- curly and round brackets are counted alike, so that one proof serves both
  have hmid : ∀ {o c : Char}, ((o = '{' ∧ c = '}') ∨ (o = '(' ∧ c = ')')) →
      ∀ l ∈ ps.map (fun p => "    " ++ (p ++ [','])), Adds o c l 0 := by
    intro o c hoc l hl
    obtain ⟨p, hp, rfl⟩ := mem_map.mp hl
    obtain ⟨n, hn, hnw⟩ := hps p hp
    exact (adds_balanced (t := "    ") (by decide) hoc).append
      ((hn.adds hnw hoc).append (adds_balanced (t := [',']) (by decide) hoc))
  have hfirst : ∀ {o c : Char}, ((o = '{' ∧ c = '}') ∨ (o = '(' ∧ c = ')')) →
      Adds o c (constructorItem word name ps).first 1 := by
    intro o c hoc
    have hmargin : Adds o c "  " 0 := adds_balanced (by decide) hoc
    have hwordc : Adds o c word 0 := by
      rcases hword with rfl | rfl
      · exact adds_balanced (by decide) hoc
      · exact adds_balanced (by decide) hoc
    have hnamec : Adds o c name 0 := by
      rcases hoc with ⟨rfl, rfl⟩ | ⟨rfl, rfl⟩ <;> exact adds_of_isWord hw (by decide) (by decide)
    have hopen : Adds o c ['(', '{'] 1 := by
      rcases hoc with ⟨rfl, rfl⟩ | ⟨rfl, rfl⟩
      · exact adds_code (by decide) '{' '}'
      · exact adds_code (by decide) '(' ')'
    exact hmargin.append (hwordc.append (hnamec.append hopen))
  refine ⟨?_, ?_, hfirst (.inl ⟨rfl, rfl⟩), hfirst (.inr ⟨rfl, rfl⟩), hmid (.inl ⟨rfl, rfl⟩),
    hmid (.inr ⟨rfl, rfl⟩), adds_code (by decide) '{' '}', adds_code (by decide) '(' ')'⟩
  -- no line begins a class: the first has an upper case letter or `const`, the others `this` or
  -- `required`
  · intro l hl
    simp only [cons_append, mem_cons, mem_append, not_mem_nil, or_false] at hl
    rcases hl with rfl | hl | rfl
    · show isClassLine ("  " ++ (word ++ (name ++ ['(', '{']))) = false
      rcases hword with rfl | rfl
      · rw [isClassLine, htrim, nil_append, startsWith_name ha hupper _ rfl]
        refine startsWith_eq_false (c := a) ?_ rfl ?_
        · rw [head?_append, ha]
          rfl
        · intro he
          rw [he] at hupper
          exact absurd hupper (by decide)
      · rw [isClassLine, htrim]
        rfl
    · obtain ⟨p, hp, rfl⟩ := mem_map.mp hl
      obtain ⟨n, hn, -⟩ := hps p hp
      have hb : ∀ c ∈ "    ".toList, isBlank c := List.all_eq_true.mp (by decide)
      obtain ⟨r, rfl | rfl⟩ := hn.head_eq
      · exact isClassLine_of_head hb (c := 't') rfl (by decide) (by decide) (by decide)
      · exact isClassLine_of_head hb (c := 'r') rfl (by decide) (by decide) (by decide)
    · decide
  · show startsWith (OpenClass.afterConst ("  " ++ (word ++ (name ++ ['(', '{']))))
      (name ++ ['('])
    have hafter : OpenClass.afterConst ("  " ++ (word ++ (name ++ ['(', '{'])))
        = name ++ ['(', '{'] := by
      rw [OpenClass.afterConst, htrim]
      rcases hword with rfl | rfl
      · rw [nil_append, startsWith_name ha hupper _ rfl]
        rfl
      · exact hname
    rw [hafter, startsWith_iff, prefix_append_right_inj]
    exact ⟨['{'], rfl⟩

theorem not_mem_constructorItem (hword : word = [] ∨ word = "const ")
    (hw : name.all isWord) (hps : AreParameters ps) {d : Char} (hd : d ∈ unwrittenChars) :
    ∀ l ∈ (constructorItem word name ps).lines, d ∉ l := by
  have hblank : d ≠ ' ' := by
    rintro rfl
    exact absurd hd (by decide)
  intro l hl
  rw [← indentLine_constructorLines] at hl
  obtain ⟨l', hl', rfl⟩ := mem_map.mp hl
  exact not_mem_indentLine (not_mem_constructorLines hword hw hps hd l' hl') hblank

/-! ## §2. Searching for members. -/

theorem IsConstructor.sits {i : Item} {mid : List Text} {last : Text} (hi : i.rest = mid ++ [last])
    (h : IsConstructor name i.first mid last) : i.Sits := by
  refine .inr ⟨h.first_curly, hi ▸ Closes.append_left ?_ (by decide) h.mid_curly⟩
  exact ⟨-1, h.last_curly, .inl ⟨rfl, rfl⟩⟩

/-- The signatures without a class name in front, apart from that of `props`, and the first line of
    a constructor. -/
theorem signature_apart_of_paren (hw : name.all isWord) {p q rest : Text}
    (hp : p.all isWord) (hq : q.head? = some ')') :
    ¬ p ++ '(' :: q <+: name ++ '(' :: '{' :: rest := by
  intro h
  obtain ⟨-, -, u, hu⟩ := prefix_word hp hw (by decide) (by decide) h
  have := congrArg head? hu
  rw [head?_append, hq] at this
  simp at this

/-- A search for a member passes over the constructor.  That of a class compared through
    `equatable` begins with `const`, so that it is not taken for `props`. -/
theorem avoids_constructorItem (hw : name.all isWord)
    (hup : name.head?.any Char.isUpper) (hword : word = [] ∨ word = "const ")
    (k : MemberKind) (hprops : k = .props → word = "const ") :
    (constructorItem word name ps).Avoids (k.signature name) := by
  obtain ⟨a, ha, hupper⟩ := (Option.any_eq_true ..).mp hup
  have hne : ∀ b : Char, b.isUpper = false → a ≠ b := by
    rintro b hb rfl
    simp [hupper] at hb
  have hhead : ∀ t : Text, (name ++ t).head? = some a := fun t => by rw [head?_append, ha]; rfl
  left
  rw [startsWith_eq_false_iff]
  have htrim : trim ("  " ++ (word ++ (name ++ ['(', '{'])))
      = word ++ (name ++ ['(', '{']) := by
    rw [trim, (trimStart_constructor ha hupper hword _).1,
      show word ++ (name ++ ['(', '{']) = (word ++ (name ++ ['('])) ++ ['{'] by simp,
      trimEnd_append_of_not_blank (by decide)]
  show ¬ k.signature name <+: bareSignature (trim ("  " ++ (word ++ (name ++ ['(', '{']))))
  rw [htrim]
  rcases hword with rfl | rfl
  -- without `const` the line begins in upper case; so do the signatures of `copyWith` and of
  -- members with a class as type, but they go on in another way
  · obtain ⟨last, hbare⟩ := bareSignature_go_word hw ['(', '{'] none
    have hsig : bareSignature ([] ++ (name ++ ['(', '{'])) = name ++ ['(', '{'] := hbare.trans rfl
    rw [hsig]
    have hother : ∀ k : MemberKind, k ≠ .copyWith → k.lead.isUpper = false →
        ¬ k.signature name <+: name ++ ['(', '{'] := fun k hk hl =>
      not_prefix_of_head_ne (head?_signature hk name) (hhead _) (hne _ hl).symm
    cases k with
    | copyWith =>
      show ¬ name ++ "copyWith(".toList <+: name ++ ['(', '{']
      rw [prefix_append_right_inj]
      decide
    | toMap => exact signature_apart_of_paren hw (p := "MaptoMap") (q := [')']) (by decide) rfl
    | toJson =>
      exact signature_apart_of_paren hw (p := "StringtoJson") (q := [')']) (by decide) rfl
    | toString =>
      exact signature_apart_of_paren hw (p := "StringtoString") (q := [')']) (by decide) rfl
    | fromMap | fromJson | stringify | equality | hashCode => exact hother _ (by decide) (by decide)
    | props => exact absurd (hprops rfl) (by decide)
  -- with `const` it begins with a `c`, as no signature does
  · have hc : (bareSignature ("const " ++ (name ++ ['(', '{']))).head? = some 'c' := rfl
    by_cases hk : k = .copyWith
    · subst hk
      exact not_prefix_of_head_ne (hhead _) hc (hne _ (by decide))
    · refine not_prefix_of_head_ne (head?_signature hk name) hc ?_
      cases k <;> decide

/-! ## §3. Named parameters. -/

/-- A line feed after the constructor does not count. -/
theorem hasNamedConstructor_concat {c d : SourceClass} {t : Text} (hn : c.shownName = d.shownName)
    (hfeed : '\n' ∉ c.shownName) (hc : c.constructorText = some (t ++ ['\n']))
    (hd : d.constructorText = some t) : c.hasNamedConstructor = d.hasNamedConstructor := by
  have hq : '\n' ∉ d.shownName ++ ['(', '{'] := by
    exact List.not_mem_append (hn ▸ hfeed) (by decide)
  have herase := eraseFirst_concat (p := "const") (d := '\n') (by decide) (by decide) t
  simp only [SourceClass.hasNamedConstructor, hc, hd, hn, herase]
  generalize eraseFirst t "const" = x
  by_cases hx : x.trimStart = []
  · have hboth : trimStart (x ++ ['\n']) = [] := by
      rw [trimStart_eq_nil_iff] at hx ⊢
      simp only [allBlank, all_append, Bool.and_eq_true] at hx ⊢
      exact ⟨hx, by decide⟩
    rw [hboth, hx]
  · have heq : trimStart (x ++ ['\n']) = x.trimStart ++ ['\n'] := by
      rw [trimStart, dropWhile_append, if_neg (by simpa [trimStart] using hx)]
      rfl
    rw [heq, Bool.eq_iff_iff, startsWith_iff, startsWith_iff]
    exact ⟨fun h => prefix_of_not_mem (t := []) hq h, fun h => h.trans (prefix_append _ _)⟩

end DartData
