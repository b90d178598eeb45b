import DartData.Proofs.Identifier
import DartData.Proofs.Member.Expression

/-!
# The keys of the map

`toMap` stores each field under its name as written, and `fromMap` reads it from there again:

    'first-name': firstName,
    firstName: map['first-name'] as String,

The entries of the map in an expression are counted by `Measures`, and `Reads` says besides what may
stand around them.  Main statement: **`toMap_fromMap_keys`**.
-/

namespace DartData

open List Text

/-! ## §1. Characters that a field does not have. -/

/-- The character `d` stands neither in the type nor in the name of a field. -/
structure Field.Lacks (f : Field) (d : Char) : Prop where
  rawType : d ∉ f.rawType
  sourceName : d ∉ f.sourceName

instance (f : Field) (d : Char) : Decidable (f.Lacks d) :=
  decidable_of_iff (d ∉ f.rawType ∧ d ∉ f.sourceName) ⟨fun h => ⟨h.1, h.2⟩, fun h => ⟨h.1, h.2⟩⟩

namespace Field.Lacks

variable {f : Field} {d : Char}

theorem type (h : f.Lacks d) : d ∉ f.type :=
  fun hd => h.rawType ((removeEnd_sublist _ _).subset hd)

theorem name (h : f.Lacks d) (hd : d ∈ plainMarks) : d ∉ f.name :=
  not_mem_variableName hd h.sourceName

theorem elementType (h : f.Lacks d) (hd : d ∈ plainMarks) (k : Collection) :
    d ∉ f.elementType k := by
  have hdynamic : ∀ d ∈ plainMarks, d ∉ "dynamic".toList := forall_mem_of_all (by decide)
  unfold Field.elementType
  split
  · exact hdynamic d hd
  · exact fun hmem =>
      h.rawType (((eraseFirst_sublist _ _).trans (eraseFirst_sublist _ _)).subset hmem)

theorem element (h : f.Lacks d) (hd : d ∈ plainMarks) : f.element.Lacks d := by
  unfold Field.element
  split
  · exact ⟨h.elementType hd .set, h.name hd⟩
  · split
    · exact ⟨h.elementType hd .list, h.name hd⟩
    · exact h

end Field.Lacks

namespace Member

/-! ## §2. Entries in an expression. -/

/-- Expressions for a field without line feeds are on one line. -/
theorem measures_line {f : Field} (hf : f.Lacks '\n') : Measures (fun _ _ t => '\n' ∉ t) f where
  append ht hu := by
    exact List.not_mem_append ht hu
  code ht _ := (tame_code ht).no_feed
  icon := by decide
  empty := by decide
  type := hf.type
  elementType := (hf.element (by decide)).type
  name := hf.name (by decide)
  entry := by
    have hname := hf.sourceName
    simp [mapEntry, of, hname]

/-! ## §3. Literals. -/

/-- The literals in expressions that are no keys. -/
def otherLiterals : List Text := [[], "MaterialIcons"]

/-- In the text `t` there are `m` entries of the map, all under the key `n`, and besides them only
    other literals behind a blank. -/
inductive Reads (n : Text) : Nat → Text → Prop
  | plain {t : Text} (ht : '\x27' ∉ t) : Reads n 0 t
  | entry {a t : Text} {m : Nat} (ha : '\x27' ∉ a) (ht : Reads n m t) :
      Reads n (m + 1) (a ++ (of ["map['", n, "']"] ++ t))
  | literal {a w t : Text} {m : Nat} (ha : '\x27' ∉ a) (hw : w ∈ otherLiterals) (ht : Reads n m t) :
      Reads n m (a ++ (of [" '", w, "'"] ++ t))

section

variable {n t u x : Text} {m k : Nat}

theorem not_mem_append (hx : '\x27' ∉ x) (ht : '\x27' ∉ t) : '\x27' ∉ x ++ t := by
  exact List.not_mem_append hx ht

theorem Reads.append_left (hx : '\x27' ∉ x) (h : Reads n m t) : Reads n m (x ++ t) := by
  cases h with
  | plain ht => exact .plain (not_mem_append hx ht)
  | entry ha ht =>
    rw [← append_assoc]
    exact .entry (not_mem_append hx ha) ht
  | literal ha hw ht =>
    rw [← append_assoc]
    exact .literal (not_mem_append hx ha) hw ht

theorem Reads.append (h : Reads n m t) (hu : Reads n k u) : Reads n (m + k) (t ++ u) := by
  induction h with
  | plain ht =>
    rw [Nat.zero_add]
    exact hu.append_left ht
  | entry ha ht ih =>
    rw [append_assoc, append_assoc, Nat.add_right_comm]
    exact .entry ha ih
  | literal ha hw ht ih =>
    rw [append_assoc, append_assoc]
    exact .literal ha hw ih

end

/-- Expressions for a field without quotes have no entries but its own. -/
theorem measures_reads {f : Field} (hf : f.Lacks '\x27') :
    Measures (fun m _ t => Reads f.sourceName m t) f where
  append := Reads.append
  code ht _ := by
    have hall := all_eq_true.mp (Bool.and_eq_true_iff.mp ht).1
    exact .plain fun hmem => absurd (hall _ hmem) (by decide)
  icon := .literal (a := ", fontFamily:") (w := "MaterialIcons") (t := [')'])
    (by decide) (by decide) (.plain (by decide))
  empty := .literal (a := " ??") (w := []) (t := [')']) (by decide) (by decide)
    (.plain (by decide))
  type := .plain hf.type
  elementType := .plain (hf.element (by decide)).type
  name := .plain (hf.name (by decide))
  entry := by
    have hentry : Reads f.sourceName 1 ([] ++ (of ["map['", f.sourceName, "']"] ++ [])) :=
      .entry (by decide) (.plain (by decide))
    rwa [nil_append, append_nil] at hentry

/-! ## §4. Keys in a text. -/

/-- The keys of the entries `map['k']` among pieces that are code and literals by turns. -/
def keysOf : List Text → List Text
  | code :: literal :: rest =>
    if code.endsWith "map[" && rest.head?.any (·.startsWith "]") then literal :: keysOf rest
    else keysOf rest
  | _ => []

/-- The keys of the entries `map['k']` in a text, in order.  Quotes come in pairs, and what is
    between two of them is a literal. -/
def mapKeys (t : Text) : List Text := keysOf (t.split '\x27')

/-- The piece `k` stands between a piece that ends with `map[` and one that begins with `]`. -/
def Between (k : Text) : List Text → Prop
  | a :: l :: b :: rest =>
    (a.endsWith "map[" = true ∧ l = k ∧ b.startsWith "]" = true) ∨ Between k (l :: b :: rest)
  | _ => False

section

variable {n a w t x k : Text} {m : Nat}

theorem split_entry (ha : '\x27' ∉ a) (hn : '\x27' ∉ n) (t : Text) :
    (a ++ (of ["map['", n, "']"] ++ t)).split '\x27'
      = (a ++ "map[") :: n :: split (']' :: t) '\x27' := by
  have heq : a ++ (of ["map['", n, "']"] ++ t)
      = (a ++ "map[") ++ '\x27' :: (n ++ '\x27' :: ']' :: t) := by simp [of]
  rw [heq, split_append_sep, split_append_sep, split_eq_singleton (not_mem_append ha (by decide)),
    split_eq_singleton hn]
  rfl

theorem split_literal (ha : '\x27' ∉ a) (hw : '\x27' ∉ w) (t : Text) :
    (a ++ (of [" '", w, "'"] ++ t)).split '\x27' = (a ++ [' ']) :: w :: t.split '\x27' := by
  have heq : a ++ (of [" '", w, "'"] ++ t)
      = (a ++ [' ']) ++ '\x27' :: (w ++ '\x27' :: t) := by simp [of]
  rw [heq, split_append_sep, split_append_sep, split_eq_singleton (not_mem_append ha (by decide)),
    split_eq_singleton hw]
  rfl

theorem not_mem_otherLiteral (hw : w ∈ otherLiterals) : '\x27' ∉ w := by
  have hall : ∀ w ∈ otherLiterals, '\x27' ∉ w := by decide
  exact hall w hw

theorem split_bracket (t : Text) : ∃ b rest, split (']' :: t) '\x27' = (']' :: b) :: rest := by
  obtain ⟨b, rest, hsplit⟩ := exists_cons_of_ne_nil (split_ne_nil t '\x27')
  exact ⟨b, rest, split_cons_of_ne (by decide) hsplit⟩

theorem endsWith_blank (a : Text) : endsWith (a ++ [' ']) "map[" = false := by
  rw [Bool.eq_false_iff, ne_eq, endsWith_iff]
  intro hsuffix
  have hlast : ['['] <:+ a ++ [' '] := List.IsSuffix.trans ⟨"map", rfl⟩ hsuffix
  exact absurd (eq_of_singleton_suffix hlast) (by decide)

/-- **The keys of a text are counted**, with any code in front of it. -/
theorem Reads.mapKeys_append (hn : '\x27' ∉ n) (h : Reads n m t) (x : Text) (hx : '\x27' ∉ x) :
    mapKeys (x ++ t) = replicate m n := by
  induction h generalizing x with
  | plain ht =>
    rw [mapKeys, split_eq_singleton (not_mem_append hx ht)]
    rfl
  | @entry a t m ha ht ih =>
    have hrest := ih [']'] (by decide)
    obtain ⟨b, rest, hsplit⟩ := split_bracket t
    have hsplit' : split ([']'] ++ t) '\x27' = (']' :: b) :: rest := hsplit
    rw [mapKeys, hsplit'] at hrest
    rw [mapKeys, ← append_assoc, split_entry (not_mem_append hx ha) hn, hsplit, keysOf, hrest]
    have hmap : endsWith (x ++ a ++ "map[") "map[" :=
      endsWith_iff.mpr (suffix_append _ _)
    rw [hmap]
    rfl
  | @literal a w t m ha hw ht ih =>
    have hrest : keysOf (t.split '\x27') = replicate m n := ih [] (by decide)
    rw [mapKeys, ← append_assoc,
      split_literal (not_mem_append hx ha) (not_mem_otherLiteral hw), keysOf, endsWith_blank]
    exact hrest

/-- Where `map['k']` stands in a text, `k` stands between such pieces. -/
theorem between_split (hk : '\x27' ∉ k) (u v : Text) :
    Between k ((u ++ (of ["map['", k, "']"] ++ v)).split '\x27') := by
  induction u with
  | nil =>
    obtain ⟨b, rest, hsplit⟩ := split_bracket v
    rw [split_entry (a := []) (by decide) hk, hsplit]
    exact .inl ⟨rfl, rfl, rfl⟩
  | cons c u ih =>
    obtain ⟨p, ps, hsplit⟩ := exists_cons_of_ne_nil
      (split_ne_nil (u ++ (of ["map['", k, "']"] ++ v)) '\x27')
    rw [hsplit] at ih
    -- there are two pieces more, as `k` stands between pieces
    cases ps with
    | nil => exact ih.elim
    | cons l ps =>
      cases ps with
      | nil => exact ih.elim
      | cons b ps =>
        by_cases hc : c = '\x27'
        · subst hc
          rw [cons_append, split_cons_sep, hsplit]
          exact .inr ih
        · rw [cons_append, split_cons_of_ne hc hsplit]
          rcases ih with ⟨hp, hl, hb⟩ | ih
          · have hsuffix := (endsWith_iff.mp hp).trans (suffix_cons c p)
            exact .inl ⟨endsWith_iff.mpr hsuffix, hl, hb⟩
          · exact .inr ih

/-- The first literal of a text is the key or another literal. -/
theorem Reads.second_piece (hn : '\x27' ∉ n) (h : Reads n m t) (hx : '\x27' ∉ x) {p q : Text}
    {ps : List Text} (hsplit : (x ++ t).split '\x27' = p :: q :: ps) :
    q = n ∨ q ∈ otherLiterals := by
  cases h with
  | plain ht =>
    rw [split_eq_singleton (not_mem_append hx ht)] at hsplit
    simp at hsplit
  | entry ha ht =>
    rw [← append_assoc, split_entry (not_mem_append hx ha) hn] at hsplit
    injection hsplit with _ hsplit
    injection hsplit with hq _
    exact .inl hq.symm
  | literal ha hw ht =>
    rw [← append_assoc, split_literal (not_mem_append hx ha) (not_mem_otherLiteral hw)] at hsplit
    injection hsplit with _ hsplit
    injection hsplit with hq _
    exact .inr (hq ▸ hw)

/-- **Only the key stands between such pieces**, unless the pieces of code can be taken for
    literals. -/
theorem Reads.eq_of_between (hn : '\x27' ∉ n) (hsafe : ¬ (n.startsWith "]" ∧ n.endsWith "map["))
    (h : Reads n m t) :
    ∀ x : Text, '\x27' ∉ x → Between k ((x ++ t).split '\x27') → k = n := by
  have hothers : ∀ w ∈ otherLiterals, w.startsWith "]" = false ∧ w.endsWith "map[" = false := by
    decide
  induction h with
  | plain ht =>
    intro x hx hk
    rw [split_eq_singleton (not_mem_append hx ht)] at hk
    exact hk.elim
  | @entry a t m ha ht ih =>
    intro x hx hk
    obtain ⟨b, rest, hsplit⟩ := split_bracket t
    have hsplit' : split ([']'] ++ t) '\x27' = (']' :: b) :: rest := hsplit
    rw [← append_assoc, split_entry (not_mem_append hx ha) hn, hsplit] at hk
    rcases hk with ⟨-, hkey, -⟩ | hk
    · exact hkey.symm
    · cases rest with
      | nil => exact hk.elim
      | cons q qs =>
        rcases hk with ⟨hend, -, hbegin⟩ | hk
        · -- the key itself ends like code, and the literal after it begins like code
          rcases ht.second_piece hn (x := [']']) (by decide) hsplit' with rfl | hq
          · exact absurd ⟨hbegin, hend⟩ hsafe
          · exact absurd ((hothers q hq).1.symm.trans hbegin) Bool.false_ne_true
        · exact ih [']'] (by decide) (hsplit' ▸ hk)
  | @literal a w t m ha hw ht ih =>
    intro x hx hk
    obtain ⟨q, qs, hsplit⟩ := exists_cons_of_ne_nil (split_ne_nil t '\x27')
    rw [← append_assoc, split_literal (not_mem_append hx ha) (not_mem_otherLiteral hw),
      hsplit] at hk
    rcases hk with ⟨hcode, -, -⟩ | hk
    · exact absurd ((endsWith_blank (x ++ a)).symm.trans hcode) Bool.false_ne_true
    · refine ih [] (by decide) ?_
      rw [nil_append, hsplit]
      cases qs with
      | nil => exact hk.elim
      | cons r rs =>
        rcases hk with ⟨hend, -, -⟩ | hk
        · exact absurd ((hothers w hw).2.symm.trans hend) Bool.false_ne_true
        · exact hk

end

/-! ## §5. The keys of both members. -/

/-- The key of a line of `toMap`: its first literal. -/
def entryKey? (line : Text) : Option Text := (line.split '\x27')[1]?

/-- `toMap` has one line for each field, and `fromMap` one argument, in the order of the fields.
    The line stores the value under the name of the field as written, and the argument reads the
    entry under this name and no other: as often as it is needed, and wherever `map['k']` stands in
    it. -/
structure SameKeys (c : SourceClass) (r : MapReading) : Prop where
  toMap_eq : (toMap c).text = of
    ["Map<String, dynamic> toMap() \x7b\n  return <String, dynamic>\x7b\n",
      endLines (c.fields.map entryLine), "  \x7d;\n\x7d"]
  fromMap_eq : (fromMap c r).text = of
    ["factory ", c.shownName, ".fromMap(Map<String, dynamic> map) \x7b\n  return ", c.type, "(\n",
      endLines (c.fields.map fun f => of ["    ", mapArgument c r f, ","]), "  );\n\x7d"]
  entry_key : ∀ f ∈ c.fields, entryKey? (entryLine f) = some f.sourceName
  argument_keys : ∀ f ∈ c.fields, mapKeys (mapArgument c r f)
    = replicate (if f.isNullable then 2 else 1) f.sourceName
  argument_entries : ∀ f ∈ c.fields,
    ¬ (f.sourceName.startsWith "]" ∧ f.sourceName.endsWith "map[") → ∀ u k v : Text, '\x27' ∉ k →
      mapArgument c r f = u ++ (of ["map['", k, "']"] ++ v) → k = f.sourceName
  on_lines : ∀ f ∈ c.fields, f.Lacks '\n' → '\n' ∉ entryLine f ∧ '\n' ∉ mapArgument c r f

/-- The lines of a member, of which the last one has no line feed. -/
theorem unlines_member (as bs : List Text) (l z : Text) :
    unlines (as ++ bs ++ [l, z]) = endLines as ++ (endLines bs ++ (l ++ '\n' :: z)) := by
  have hlast : as ++ bs ++ [l, z] = (as ++ (bs ++ [l])) ++ [z] := by simp
  rw [hlast, ← endLines_append_eq_unlines]
  simp

theorem entryKey?_entryLine {f : Field} (hf : f.Lacks '\x27') :
    entryKey? (entryLine f) = some f.sourceName := by
  have heq : entryLine f
      = "    " ++ '\x27' :: (f.sourceName ++ '\x27' :: of [": ", storedValue f, ","]) := by
    simp [entryLine, of]
  rw [entryKey?, heq, split_append_sep, split_append_sep, split_eq_singleton hf.sourceName]
  rfl

/-- **`toMap` and `fromMap` use the same keys**, whatever the types of the fields and the choices in
    reading: the names of the fields as written. -/
theorem toMap_fromMap_keys (c : SourceClass) (r : MapReading)
    (hc : ∀ f ∈ c.fields, f.Lacks '\x27') : SameKeys c r where
  toMap_eq := by
    show unlines ([_, _] ++ c.fields.map entryLine ++ [_, _]) = _
    rw [unlines_member]
    simp [of]
  fromMap_eq := by
    show unlines ([_, _] ++ c.fields.map (fun f => of ["    ", mapArgument c r f, ","])
      ++ [_, _])
      = _
    rw [unlines_member]
    simp [of]
  entry_key f hf := entryKey?_entryLine (hc f hf)
  argument_keys f hf :=
    ((measures_reads (hc f hf)).mapArgument c r).mapKeys_append (hc f hf).sourceName [] (by decide)
  argument_entries f hf hsafe u k v hk heq := by
    refine ((measures_reads (hc f hf)).mapArgument c r).eq_of_between (hc f hf).sourceName hsafe []
      (by decide) ?_
    rw [nil_append, heq]
    exact between_split hk u v
  on_lines f _ hf := by
    have hline := measures_line hf
    have hname : '\n' ∉ f.sourceName := hf.sourceName
    refine ⟨?_, hline.mapArgument c r⟩
    have hvalue : '\n' ∉ storedValue f := hline.storedValue
    simp [entryLine, of, hname, hvalue]

/-- A name with a dash is a key as it is written. -/
theorem toMap_fromMap_keys_dashed :
    ∃ (c : SourceClass) (r : MapReading), (∀ f ∈ c.fields, f.Lacks '\x27') ∧ SameKeys c r
      ∧ c.fields.map (mapArgument c r) = [
        Text.of ["firstName: map['first-name'] != null ? List<Icon>.from((map['first-name'] as ",
          "List<dynamic>).map<Icon>((x) => Icon.fromMap(x as Map<String, dynamic>),),) : null"],
        Text.of ["cClass: (map['class'] ?? '') as String"]]
      ∧ c.fields.map (fun f => mapKeys (mapArgument c r f))
        = [["first-name".toList, "first-name".toList], ["class".toList]] := by
  let c : SourceClass :=
    { fields := [{ rawType := "List<Icon>?", sourceName := "first-name" },
        { rawType := "String", sourceName := "class" }] }
  have hc : ∀ f ∈ c.fields, f.Lacks '\x27' := by decide +kernel
  exact ⟨c, { defaultValues := true }, hc, toMap_fromMap_keys c _ hc, by decide +kernel,
    by decide +kernel⟩

end Member

end DartData
