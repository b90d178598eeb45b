import DartData.Generation.Plan
import DartData.Proofs.Member.Expression
import DartData.Proofs.Member.Item
import DartData.Proofs.Text.Lines
import DartData.Proofs.Text.Trim

/-!
# The layout of generated members

Every member is one item of the body of a class: an arrow with its value on one line, or a block of
lines, perhaps with an annotation above it.  This module says which lines these are
(`MemberKind.text_eq`).  A property of lines that holds of the few kinds of lines there are holds of
all lines of all members (`MemberLines`).
-/

namespace DartData

open List Text

/-! ## §1. Lines. -/

namespace Member

variable (c : SourceClass)

/-- A parameter of `copyWith`. -/
def parameterLine (f : Field) : Text := of ["  ", optionalType f.type, " ", f.name, ","]

/-- What `copyWith` passes for a field. -/
def copiedLine (f : Field) : Text := of ["    ", c.label f, f.name, " ?? this.", f.name, ","]

/-- What `fromMap` passes for a field. -/
def argumentLine (r : MapReading) (f : Field) : Text := of ["    ", mapArgument c r f, ","]

/-- A field in a list of all fields. -/
def listedLine (f : Field) : Text := of ["    ", f.name, ","]

/-- The call of the constructor. -/
def returnLine : Text := of ["  return ", c.type, "("]

/-- The text that `toString` gives. -/
def shownFields : Text :=
  of [c.shownName, "(", join ", " (c.fields.map fun f => of [f.name, ": $", f.name]),
    ")"]

/-- The hash code of a field. -/
def code (f : Field) : Text := f.name ++ ".hashCode"

/-- The local function that compares collections, where there is one. -/
def equalsHelper (flutter : Bool) : Option Text :=
  let collections := c.fields.filter Field.isCollection
  if collections.isEmpty || flutter then none else some (localEquals collections)

/-- The line that declares it. -/
def helperLine (helper : Text) : Text :=
  of ["  final ", helper, " = const DeepCollectionEquality().equals;"]

/-- The comparison of a field, with a given function for collections. -/
def comparison (helper : Option Text) (f : Field) : Text :=
  if f.isCollection then
    of ["    ", helper.getD (flutterEquals f), "(other.", f.name, ", ", f.name, ")"]
  else of ["    other.", f.name, " == ", f.name]

/-- The terms for the fields, one on each line, with an operator between them. -/
def chained (operator margin start : Text) (g : Field → Text) : List Field → List Text
  | [] => []
  | f :: fs => chainLines operator margin ";" (start ++ g f) (fs.map g)

variable {operator margin start l : Text} {g : Field → Text} {fs : List Field}

theorem chained_ne_nil (h : fs ≠ []) : chained operator margin start g fs ≠ [] := by
  obtain ⟨f, gs, rfl⟩ := exists_cons_of_ne_nil h
  cases gs <;> simp [chained, chainLines]

theorem unlines_chained (h : fs ≠ []) : unlines (chained operator margin start g fs)
    = start ++ (join (operator ++ '\n' :: margin) (fs.map g) ++ [';']) := by
  obtain ⟨f, gs, rfl⟩ := exists_cons_of_ne_nil h
  rw [chained, unlines_chainLines, join_cons_append, append_assoc]
  rfl

/-- The lines of a chain. -/
theorem mem_chained (h : l ∈ chained operator margin start g fs) : ∃ f ∈ fs,
    ∃ b ∈ [start, margin], ∃ e ∈ [operator, [';']], l = b ++ (g f ++ e) := by
  cases fs with
  | nil => exact absurd h not_mem_nil
  | cons f fs =>
    simp only [← append_assoc]
    rcases mem_chainLines _ h with (h | h) | ⟨u, hu, h⟩
    · exact ⟨f, mem_cons_self, start, by simp, operator, by simp, h⟩
    · exact ⟨f, mem_cons_self, start, by simp, [';'], by simp, h⟩
    · obtain ⟨f', hf', rfl⟩ := mem_map.mp hu
      rcases h with h | h
      · exact ⟨f', mem_cons_of_mem _ hf', margin, by simp, operator, by simp, h⟩
      · exact ⟨f', mem_cons_of_mem _ hf', margin, by simp, [';'], by simp, h⟩

end Member

/-! ## §2. Members. -/

theorem endsStatement_append (t : Text) : endsStatement (t ++ [';']) := by
  rw [endsStatement, trimEnd_append_of_not_blank (by decide), endsWith_iff]
  exact suffix_append t [';']

/-- The annotation above a member that is marked. -/
def overrideMark (marked : Bool) : List Text := if marked then ["@override"] else []

/-- The choices in writing `fromMap` that a request makes. -/
def Request.mapReading (r : Request) : Member.MapReading :=
  ⟨r.options .fromMapDefaults, r.coerceNumbers⟩

namespace MemberKind

/-- Whether the member has an annotation. -/
def isMarked : MemberKind → Bool
  | .toString | .stringify | .equality | .hashCode | .props => true
  | _ => false

/-- How the first line of the member begins. -/
def start (c : SourceClass) : MemberKind → Text
  | .copyWith => c.type ++ " copyWith("
  | .toMap => "Map<String, dynamic> toMap()"
  | .fromMap => of ["factory ", c.shownName, ".fromMap(Map<String, dynamic> map)"]
  | .toJson => "String toJson()"
  | .fromJson => of ["factory ", c.shownName, ".fromJson(String source)"]
  | .toString => "String toString()"
  | .stringify => "bool get stringify"
  | .equality => "bool operator =="
  | .hashCode => "int get hashCode"
  | .props => "List<Object?> get props"

/-- What stands after the start of a block. -/
def opening (c : SourceClass) : MemberKind → Text
  | .copyWith => ['{']
  | .equality => of ["(covariant ", c.type, " other) \x7b"]
  | _ => " \x7b"

/-- The value of a member that is written with an arrow. -/
def value? (r : Request) (c : SourceClass) : MemberKind → Option Text
  | .toJson => some " json.encode(toMap())"
  | .fromJson =>
    some (of [" ", c.shownName, ".fromMap(json.decode(source) as Map<String, dynamic>)"])
  | .toString => if c.hasFewFields then some (Lexer.quoted ' ' (Member.shownFields c)) else none
  | .stringify => some " true"
  | .hashCode =>
    if !r.options .jenkinsHash && c.hasFewFields then
      some (' ' :: join " ^ " (c.fields.map Member.code))
    else none
  | .props =>
    if c.fields.length ≤ 4 then
      some (of [" [", join ", " (c.fields.map Field.name), "]"])
    else none
  | _ => none

/-- The lines of a block between its first and its last one. -/
def body (r : Request) (c : SourceClass) : MemberKind → List Text
  | .copyWith => c.fields.map Member.parameterLine ++ "\x7d) \x7b".toList :: Member.returnLine c
      :: (c.fields.map (Member.copiedLine c) ++ ["  );".toList])
  | .toMap => "  return <String, dynamic>\x7b"
      :: (c.fields.map Member.entryLine ++ ["  \x7d;".toList])
  | .fromMap => Member.returnLine c
      :: (c.fields.map (Member.argumentLine c r.mapReading) ++ ["  );".toList])
  | .toString => ["  return" ++ (Lexer.quoted ' ' (Member.shownFields c) ++ [';'])]
  | .equality => "  if (identical(this, other)) return true;"
      :: (((Member.equalsHelper c r.flutter).map Member.helperLine).toList ++ [] :: "  return"
        :: Member.chained " &&" [] [] (Member.comparison (Member.equalsHelper c r.flutter))
          c.fields)
  | .hashCode =>
    if r.options .jenkinsHash then
      "  return hashList([".toList :: (c.fields.map Member.listedLine ++ ["  ]);".toList])
    else Member.chained " ^" "    " "  return " Member.code c.fields
  | .props => "  return [".toList :: (c.fields.map Member.listedLine ++ ["  ];".toList])
  | _ => []

/-- The lines of the member without its annotation. -/
def item (r : Request) (c : SourceClass) (k : MemberKind) : Item :=
  match k.value? r c with
  | some e => { first := k.start c ++ (" =>" ++ (e ++ [';'])) }
  | none => { first := k.start c ++ k.opening c, rest := k.body r c ++ [['}']] }

variable {r : Request} {c : SourceClass} {k : MemberKind}

theorem item_of_some {e : Text} (h : k.value? r c = some e) :
    k.item r c = { first := k.start c ++ (" =>" ++ (e ++ [';'])) } := by rw [item, h]

theorem item_of_none (h : k.value? r c = none) :
    k.item r c = { first := k.start c ++ k.opening c, rest := k.body r c ++ [['}']] } := by
  rw [item, h]

/-- The first line of the member goes on after its start. -/
theorem exists_first (r : Request) (c : SourceClass) (k : MemberKind) :
    ∃ t e, (k.item r c).first = k.start c ++ (t ++ [e]) ∧ isBlank e = false := by
  cases hv : k.value? r c with
  | some e =>
    exact ⟨" =>" ++ e, ';', by rw [item_of_some hv, append_assoc], by decide⟩
  | none =>
    have hopening : ∃ t, k.opening c = t ++ ['{'] := by
      cases k with
      | copyWith => exact ⟨[], rfl⟩
      | equality => exact ⟨of ["(covariant ", c.type, " other) "], by simp [opening, of]⟩
      | _ => exact ⟨[' '], rfl⟩
    obtain ⟨t, ht⟩ := hopening
    exact ⟨t, '{', by rw [item_of_none hv, ht], by decide⟩

/-- The start of the first line is that by which the member is known, type arguments apart. -/
theorem bareSignature_start (r : Request) (c : SourceClass) (k : MemberKind) :
    bareSignature (k.start c) = bareSignature (k.build r c).finder := by
  cases k with
  | props =>
    show bareSignature "List<Object?> get props" = bareSignature "List<Object> get props"
    decide
  | _ => rfl

/-- The member is written as its lines, below the annotation if it has one. -/
def IsLaidOut (r : Request) (c : SourceClass) (k : MemberKind) : Prop :=
  (k.build r c).text = unlines (overrideMark k.isMarked ++ (k.item r c).lines)

theorem isLaidOut_copyWith : IsLaidOut r c .copyWith := by
  have hfirst : start c .copyWith ++ opening c .copyWith = of [c.type, " copyWith(\x7b"] := by
    show (c.type ++ " copyWith(") ++ ['{'] = _
    simp [of]
  rw [IsLaidOut, item_of_none rfl, Item.lines, hfirst]
  show unlines _ = unlines _
  simp only [body, append_assoc, cons_append, nil_append]
  rfl

theorem isLaidOut_toMap : IsLaidOut r c .toMap := by
  rw [IsLaidOut, item_of_none rfl]
  show unlines _ = unlines _
  simp only [body, append_assoc, cons_append, nil_append, Item.lines]
  rfl

theorem isLaidOut_fromMap : IsLaidOut r c .fromMap := by
  have hfirst : start c .fromMap ++ opening c .fromMap
      = of ["factory ", c.shownName, ".fromMap(Map<String, dynamic> map) \x7b"] := by
    show of ["factory ", c.shownName, ".fromMap(Map<String, dynamic> map)"] ++ [' ', '{'] = _
    simp [of]
  rw [IsLaidOut, item_of_none rfl, Item.lines, hfirst]
  show unlines _ = unlines _
  simp only [body, append_assoc, cons_append, nil_append]
  rfl

theorem isLaidOut_toJson : IsLaidOut r c .toJson := by
  show _ = join ['\n'] [_]
  rw [join_singleton]
  rfl

theorem isLaidOut_fromJson : IsLaidOut r c .fromJson := by
  show _ = join ['\n'] [_]
  rw [join_singleton]
  show of _ = of _ ++ _
  simp [of]

theorem isLaidOut_toString : IsLaidOut r c .toString := by
  have hshown : ∀ s a b : Text, s = a ++ (b ++ [' ']) → of [s, of ["'", c.shownName, "(",
      join ", " (c.fields.map fun f => of [f.name, ": $", f.name]), ")'"], ";"]
      = a ++ (b ++ (Lexer.quoted ' ' (Member.shownFields c) ++ [';'])) := by
    rintro _ a b rfl
    simp [Member.shownFields, Lexer.quoted, of]
  show (if c.hasFewFields then _ else _) = _
  by_cases h : c.hasFewFields
  · have hvalue : value? r c .toString = some (Lexer.quoted ' ' (Member.shownFields c)) := if_pos h
    rw [if_pos h, item_of_some hvalue]
    exact congrArg (fun l => unlines ["@override", l])
      (hshown _ "String toString()" " =>" (by decide))
  · have hvalue : value? r c .toString = none := if_neg h
    rw [if_neg h, item_of_none hvalue]
    exact congrArg (fun l => unlines
      ["@override", "String toString() \x7b", l, ['}']])
      (hshown _ [] "  return" (by decide))

theorem isLaidOut_equality (hne : c.fields ≠ []) : IsLaidOut r c .equality := by
  have hempty : c.fields.isEmpty = false := by simpa using hne
  have htext : (equality.build r c).text = unlines
      (("@override".toList :: (start c .equality ++ opening c .equality)
        :: "  if (identical(this, other)) return true;".toList
        :: (((Member.equalsHelper c r.flutter).map Member.helperLine).toList
          ++ ["".toList, "  return".toList]))
        ++ unlines (Member.chained " &&" [] []
          (Member.comparison (Member.equalsHelper c r.flutter)) c.fields) :: [['}']]) := by
    rw [Member.unlines_chained hne]
    show unlines _ = _
    rw [hempty]
    simp only [append_assoc, cons_append, nil_append]
    rfl
  rw [IsLaidOut, htext, unlines_insert _ _ (Member.chained_ne_nil hne), item_of_none rfl]
  simp only [body, append_assoc, cons_append, nil_append, Item.lines]
  rfl

theorem isLaidOut_hashCode (hne : c.fields ≠ []) : IsLaidOut r c .hashCode := by
  show (Member.hashCode c (r.options .jenkinsHash)).text = _
  by_cases hj : r.options .jenkinsHash
  -- the names in a list, one a line
  · have hvalue : value? r c .hashCode = none := if_neg (by simp [hj])
    have hbody : body r c .hashCode = "  return hashList([".toList
        :: (c.fields.map Member.listedLine ++ ["  ]);".toList]) := if_pos hj
    rw [hj, item_of_none hvalue, hbody]
    show unlines _ = unlines _
    simp only [append_assoc, cons_append, nil_append, Item.lines]
    rfl
  · have hbody : body r c .hashCode
        = Member.chained " ^" "    " "  return " Member.code c.fields := if_neg hj
    rw [Bool.eq_false_iff.mpr hj]
    show (if c.hasFewFields then _ else _) = _
    by_cases h : c.hasFewFields
    -- few fields stand behind an arrow
    · have hvalue : value? r c .hashCode
          = some (' ' :: join " ^ " (c.fields.map Member.code)) := if_pos (by simp [hj, h])
      rw [if_pos h, item_of_some hvalue]
      show unlines _ = unlines _
      simp only [of, flatten]
      rfl
    -- more of them are chained from line to line
    · have hvalue : value? r c .hashCode = none := if_neg (by simp [h])
      have hchain : of ["  return ", join " ^\n    " (c.fields.map Member.code), ";"]
          = unlines (Member.chained " ^" "    " "  return " Member.code c.fields) := by
        rw [Member.unlines_chained hne]
        simp [of]
      rw [if_neg h, item_of_none hvalue, hbody]
      refine Eq.trans (congrArg (fun l => unlines
        (["@override".toList, "int get hashCode \x7b".toList] ++ l :: [['}']])) hchain) ?_
      exact unlines_insert _ _ (Member.chained_ne_nil hne)

theorem isLaidOut_props : IsLaidOut r c .props := by
  show (if (c.fields.map Field.name).length ≤ 4 then _ else _) = _
  rw [length_map]
  by_cases h : c.fields.length ≤ 4
  · have hvalue : value? r c .props
        = some (of [" [", join ", " (c.fields.map Field.name), "]"]) := if_pos h
    have hfirst : of ["List<Object?> get props => [",
        join ", " (c.fields.map Field.name), "];"] = "List<Object?> get props"
          ++ (" =>" ++ (of [" [", join ", " (c.fields.map Field.name), "]"] ++ [';'])) := by
      simp [of]
    rw [if_pos h, item_of_some hvalue]
    exact congrArg (fun l => unlines ["@override", l]) hfirst
  · have hvalue : value? r c .props = none := if_neg h
    rw [if_neg h, item_of_none hvalue]
    simp only [body, map_map, append_assoc, cons_append, nil_append, Item.lines]
    rfl

/-- **The text of a member is its lines**, below the annotation if it has one. -/
theorem text_eq (hne : c.fields ≠ []) (r : Request) (k : MemberKind) :
    (k.build r c).text = unlines (overrideMark k.isMarked ++ (k.item r c).lines) := by
  cases k with
  | copyWith => exact isLaidOut_copyWith
  | toMap => exact isLaidOut_toMap
  | fromMap => exact isLaidOut_fromMap
  | toJson => exact isLaidOut_toJson
  | fromJson => exact isLaidOut_fromJson
  | toString => exact isLaidOut_toString
  | stringify => rfl
  | equality => exact isLaidOut_equality hne
  | hashCode => exact isLaidOut_hashCode hne
  | props => exact isLaidOut_props

/-- The round brackets that the first line of the member leaves open. -/
def opens (k : MemberKind) : Int := if k = .copyWith then 1 else 0

/-- The round brackets that the member closes and does not open: `fromMap` closes one for each field
    that nests plain values, if it gives defaults. -/
def unopened (k : MemberKind) (r : Request) (c : SourceClass) : Nat :=
  if k = .fromMap then
    c.fields.countP fun f => r.mapReading.defaultValues && f.nestsPlain
  else 0

end MemberKind

/-! ## §3. Properties of lines. -/

/-- The lines all have the property `J`, which counts round brackets, and leave `s` of them open
    together. -/
inductive Lays (J : Text → Int → Prop) : List Text → Int → Prop
  | nil : Lays J [] 0
  | cons {l : Text} {ls : List Text} {j s : Int} (hl : J l j) (hls : Lays J ls s) :
      Lays J (l :: ls) (j + s)

namespace Lays

variable {J : Text → Int → Prop} {ls ms : List Text} {s t : Int} {fs : List Field}
    {g : Field → Text}

theorem weigh (h : Lays J ls s) (hst : s = t) : Lays J ls t := hst ▸ h

theorem append (hl : Lays J ls s) (hm : Lays J ms t) : Lays J (ls ++ ms) (s + t) := by
  induction hl with
  | nil => exact hm.weigh (Int.zero_add t).symm
  | cons h _ ih => exact (cons h ih).weigh (Int.add_assoc _ _ _).symm

theorem image {K : Text → Int → Prop} {φ : Text → Text} (hK : ∀ {l j}, J l j → K (φ l) j)
    (h : Lays J ls s) : Lays K (ls.map φ) s := by
  induction h with
  | nil => exact .nil
  | cons h _ ih => exact .cons (hK h) ih

theorem exists_of_mem (h : Lays J ls s) : ∀ l ∈ ls, ∃ j, J l j := by
  induction h with
  | nil => exact fun l hl => absurd hl not_mem_nil
  | cons h _ ih => exact forall_mem_cons.mpr ⟨⟨_, h⟩, ih⟩

theorem balanced (h : ∀ l ∈ ls, J l 0) : Lays J ls 0 := by
  induction ls with
  | nil => exact .nil
  | cons l ls ih => exact .cons (h l mem_cons_self) (ih (forall_mem_cons.mp h).2)

theorem map (h : ∀ f ∈ fs, J (g f) 0) : Lays J (fs.map g) 0 := balanced (forall_mem_map.mpr h)

/-- Lines that close a bracket where `p` holds. -/
theorem map_count {p : Field → Bool} (h : ∀ f ∈ fs, J (g f) (-if p f then 1 else 0)) :
    Lays J (fs.map g) (-(fs.countP p : Int)) := by
  induction fs with
  | nil => exact .nil
  | cons f fs ih =>
    have hrest := ih fun f hf => h f (mem_cons_of_mem _ hf)
    refine (cons (h f mem_cons_self) hrest).weigh ?_
    rw [countP_cons]
    split <;> omega

end Lays

/-- The lines that are the same in all classes, with the curly and the round brackets that each of
    them leaves open. -/
def fixedLines : List (Text × Int × Int) :=
  [("\x7d) \x7b", 0, -1), ("  );", 0, -1), ("  return <String, dynamic>\x7b", 1, 0),
    ("  \x7d;", -1, 0),
    ("  if (identical(this, other)) return true;", 0, 0), ("", 0, 0), ("  return", 0, 0),
    ("  return hashList([", 0, 1), ("  ]);", 0, -1), ("  return [", 0, 0), ("  ];", 0, 0),
    ("\x7d", -1, 0)]

/-- `J l k j` is a property of the lines `l` with the numbers `k` and `j` of curly and round
    brackets that they leave open, which holds of the lines that members are made of. -/
structure MemberLines (J : Text → Int → Int → Prop) (r : Request) (c : SourceClass) : Prop where
  fixed : ∀ p ∈ fixedLines, J p.1 p.2.1 p.2.2
  block : ∀ k : MemberKind, J (k.start c ++ k.opening c) 1 k.opens
  arrow : ∀ (k : MemberKind) (e : Text), k.value? r c = some e →
    J (k.start c ++ (" =>" ++ (e ++ [';']))) 0 0
  returned : J (Member.returnLine c) 0 1
  shown : J ("  return" ++ (Lexer.quoted ' ' (Member.shownFields c) ++ [';'])) 0 0
  helper : ∀ t ∈ Member.equalsHelper c r.flutter, J (Member.helperLine t) 0 0
  parameter : ∀ f ∈ c.fields, J (Member.parameterLine f) 0 0
  copied : ∀ f ∈ c.fields, J (Member.copiedLine c f) 0 0
  entry : ∀ f ∈ c.fields, J (Member.entryLine f) 0 0
  argument : ∀ f ∈ c.fields, J (Member.argumentLine c r.mapReading f) 0
    (-if r.mapReading.defaultValues && f.nestsPlain then 1 else 0)
  listed : ∀ f ∈ c.fields, J (Member.listedLine f) 0 0
  comparison : ∀ f ∈ c.fields, ∀ e ∈ [" &&".toList, [';']],
    J (Member.comparison (Member.equalsHelper c r.flutter) f ++ e) 0 0
  hashed : ∀ f ∈ c.fields, ∀ b ∈ ["  return ".toList, "    ".toList], ∀ e ∈ [" ^".toList, [';']],
    J (b ++ (Member.code f ++ e)) 0 0

namespace MemberLines

variable {J : Text → Int → Int → Prop} {r : Request} {c : SourceClass}

/-- Blocks are made of lines without curly brackets, but for the map that `toMap` returns. -/
theorem body (h : MemberLines J r c) {k : MemberKind} (hk : k ≠ .toMap) :
    Lays (fun l j => J l 0 j) (k.body r c) (-k.opens - k.unopened r c) := by
  have hfixed : ∀ (l : Text) (j : Int), (l, (0 : Int), j) ∈ fixedLines → J l 0 j :=
    fun l j hl => h.fixed _ hl
  -- lines for the fields between two more lines
  have hbetween : ∀ {o e : Text} {i j s : Int} {ls : List Text}, J o 0 i → J e 0 j →
      Lays (fun l j => J l 0 j) ls s → Lays (fun l j => J l 0 j) (o :: (ls ++ [e])) (i + (s + j)) :=
    fun ho he hls => .weigh (.cons ho (hls.append (.cons he .nil))) (by omega)
  cases k with
  | copyWith =>
    exact .append (.map h.parameter) (.cons (hfixed "\x7d) \x7b" (-1) (by decide))
      (hbetween h.returned (hfixed "  );" (-1) (by decide)) (.map h.copied)))
  | toMap => exact absurd rfl hk
  | fromMap =>
    refine .weigh (hbetween h.returned (hfixed "  );" (-1) (by decide)) (.map_count h.argument)) ?_
    show 1 + (-(MemberKind.fromMap.unopened r c : Int) + -1) = -0 - MemberKind.fromMap.unopened r c
    omega
  | toString => exact .weigh (.cons h.shown .nil) rfl
  | equality =>
    have hhelper : ∀ l ∈ ((Member.equalsHelper c r.flutter).map Member.helperLine).toList,
        J l 0 0 := by
      intro l hl
      obtain ⟨t, ht, rfl⟩ := Option.map_eq_some_iff.mp (Option.mem_toList.mp hl)
      exact h.helper t ht
    have hchained : ∀ l ∈ Member.chained " &&" [] []
        (Member.comparison (Member.equalsHelper c r.flutter)) c.fields, J l 0 0 := by
      intro l hl
      obtain ⟨f, hf, b, hb, e, he, rfl⟩ := Member.mem_chained hl
      have hb : b = [] := by simpa using hb
      rw [hb]
      exact h.comparison f hf e he
    exact .weigh (.cons (hfixed "  if (identical(this, other)) return true;" 0 (by decide))
      (.append (.balanced hhelper) (.cons (hfixed "" 0 (by decide))
        (.cons (hfixed "  return" 0 (by decide)) (.balanced hchained))))) rfl
  | hashCode =>
    show Lays _ (if r.options .jenkinsHash then _ else _) 0
    split
    · exact hbetween (hfixed "  return hashList([" 1 (by decide)) (hfixed "  ]);" (-1) (by decide))
        (.map h.listed)
    · refine .balanced fun l hl => ?_
      obtain ⟨f, hf, b, hb, e, he, rfl⟩ := Member.mem_chained hl
      exact h.hashed f hf b hb e he
  | props =>
    exact hbetween (hfixed "  return [" 0 (by decide)) (hfixed "  ];" 0 (by decide)) (.map h.listed)
  | toJson | fromJson | stringify => exact .nil

/-- **All lines of all members have the property.** -/
theorem lines (h : MemberLines J r c) (k : MemberKind) :
    Lays (fun l j => ∃ d, J l d j) (k.item r c).lines (-k.unopened r c) := by
  have hclose : ∃ d, J ['}'] d 0 := ⟨-1, h.fixed (_, -1, 0) (by decide)⟩
  cases hv : k.value? r c with
  | some e =>
    have hnone : k.unopened r c = 0 := if_neg (by rintro rfl; cases hv)
    rw [MemberKind.item_of_some hv, hnone]
    exact .weigh (.cons ⟨0, h.arrow k e hv⟩ .nil) rfl
  | none =>
    rw [MemberKind.item_of_none hv]
    by_cases hk : k = .toMap
    · subst hk
      have hopen : ∃ d, J "  return <String, dynamic>\x7b".toList d 0 :=
        ⟨1, h.fixed (_, 1, 0) (by decide)⟩
      have hend : ∃ d, J "  \x7d;".toList d 0 := ⟨-1, h.fixed (_, -1, 0) (by decide)⟩
      exact .weigh (.cons ⟨1, h.block _⟩ (.append (.cons hopen (.append
        (.map fun f hf => ⟨0, h.entry f hf⟩) (.cons hend .nil))) (.cons hclose .nil))) rfl
    · have hbody := (h.body hk).image (K := fun l j => ∃ d, J l d j) (φ := id) fun hl => ⟨0, hl⟩
      rw [map_id] at hbody
      exact .weigh (.cons ⟨1, h.block k⟩ (.append hbody (.cons hclose .nil))) (by omega)

/-- Where the numbers of curly brackets are those of the code, members are items of their form. -/
theorem isMember (h : MemberLines J r c) (hJ : ∀ {l d j}, J l d j → Adds '{' '}' l d)
    (k : MemberKind) : (k.item r c).IsMember := by
  cases hv : k.value? r c with
  | some e =>
    rw [MemberKind.item_of_some hv]
    refine Item.isMember_arrow (hJ (h.arrow k e hv)) ?_ ?_
    · exact has_iff.mpr ⟨k.start c ++ [' '], e ++ [';'], by simp⟩
    · rw [← append_assoc, ← append_assoc]
      exact endsStatement_append _
  | none =>
    rw [MemberKind.item_of_none hv]
    refine Item.isMember_of_closes (hJ (h.block k)) ?_
    by_cases hk : k = .toMap
    · -- the map opens a brace of its own inside of the block
      subst hk
      have hclose : Closes 3 ["  \x7d;", ['}']] :=
        ⟨-1, hJ (h.fixed (_, -1, 0) (by decide)), .inr ⟨by decide, -1,
          hJ (h.fixed (_, -1, 0) (by decide)), .inl ⟨rfl, by decide⟩⟩⟩
      have hrest := hclose.append_left (by decide)
        (forall_mem_map.mpr fun f hf => hJ (h.entry f hf))
      refine ⟨1, hJ (h.fixed (_, 1, 0) (by decide)), .inr ⟨by decide, ?_⟩⟩
      show Closes 3 (c.fields.map Member.entryLine ++ ["  \x7d;".toList] ++ [['}']])
      rw [append_assoc]
      exact hrest
    · exact closes_body fun l hl => ((h.body hk).exists_of_mem l hl).elim fun _ hl => hJ hl

end MemberLines

end DartData
