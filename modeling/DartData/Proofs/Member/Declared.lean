import DartData.Proofs.Member.Found
import DartData.Proofs.Scan.Constructor

/-!
# The name that a found member declares

A member is known by the start of its signature, in which the blanks and type arguments of its first
line are left out.  The line may therefore declare another name than the one that was looked for:
a longer one, where the signature goes on, or one that is written together with the word in front of
it.  The name is the right one exactly if it stands in the line by itself; and it never goes on if a
bracket follows it in what is looked for (`findMember_declares_iff`).
-/

namespace DartData

open List Text

/-! ## §1. Open type arguments. -/

/-- The number of open angle brackets after a character; `last` is the one before it, since an arrow
    closes none. -/
def angleStep (depth : Nat) (last : Option Char) (c : Char) : Nat :=
  let depth := if c = '<' then depth + 1 else depth
  if c = '>' && last != some '=' then depth - 1 else depth

/-- The number of open angle brackets after a text. -/
def angleDepth (t : Text) : Nat := go 0 none t
where
  go (depth : Nat) (last : Option Char) : Text → Nat
    | [] => depth
    | c :: r => go (angleStep depth last c) (some c) r

/-- A character that stays in a signature wherever no angle bracket is open, and that opens and
    closes none. -/
def isPlain (c : Char) : Bool := c != ' ' && c != '<' && c != '>'

variable {c : Char} {w : Text}

theorem isPlain_iff : isPlain c ↔ c ≠ ' ' ∧ c ≠ '<' ∧ c ≠ '>' := by
  simp [isPlain, and_assoc]

theorem angleStep_of_isPlain (h : isPlain c) (depth : Nat) (last : Option Char) :
    angleStep depth last c = depth := by
  obtain ⟨-, ho, hc⟩ := isPlain_iff.mp h
  simp [angleStep, ho, hc]

theorem bareSignature_go_cons (depth : Nat) (last : Option Char) (c : Char) (r : Text) :
    bareSignature.go depth last (c :: r) = (if c ≠ ' ' ∧ c ≠ '<' ∧ depth = 0 then [c] else [])
        ++ bareSignature.go (angleStep depth last c) (some c) r := by
  rw [bareSignature.go, angleStep]
  by_cases ho : c = '<' <;> by_cases hb : c = ' ' <;> by_cases hd : depth = 0 <;>
    simp [ho, hb, hd]

theorem bareSignature_go_isPlain (h : isPlain c) (last : Option Char) (r : Text) :
    bareSignature.go 0 last (c :: r) = c :: bareSignature.go 0 (some c) r := by
  obtain ⟨hb, ho, -⟩ := isPlain_iff.mp h
  rw [bareSignature_go_cons, if_pos ⟨hb, ho, rfl⟩, angleStep_of_isPlain h]
  rfl

theorem bareSignature_go_append_eq (b a : Text) (depth : Nat) (last : Option Char) :
    bareSignature.go depth last (a ++ b) = bareSignature.go depth last a
      ++ bareSignature.go (angleDepth.go depth last a) (a.getLast?.or last) b := by
  induction a generalizing depth last with
  | nil => rfl
  | cons c a ih =>
    rw [cons_append, bareSignature_go_cons, bareSignature_go_cons, ih, append_assoc,
      getLast?_cons, angleDepth.go]
    cases a.getLast? <;> rfl

theorem angleDepth_go_append (b a : Text) (depth : Nat) (last : Option Char) :
    angleDepth.go depth last (a ++ b)
      = angleDepth.go (angleDepth.go depth last a) (a.getLast?.or last) b := by
  induction a generalizing depth last with
  | nil => rfl
  | cons c a ih =>
    rw [cons_append, angleDepth.go, angleDepth.go, ih, getLast?_cons]
    cases a.getLast? <;> rfl

theorem bareSignature_go_plain (hw : w.all isPlain) (last : Option Char) :
    bareSignature.go 0 last w = w := by
  induction w generalizing last with
  | nil => rfl
  | cons c w ih =>
    rw [all_cons, Bool.and_eq_true] at hw
    rw [bareSignature_go_isPlain hw.1, ih hw.2]

theorem angleDepth_go_plain (hw : w.all isPlain) (depth : Nat) (last : Option Char) :
    angleDepth.go depth last w = depth := by
  induction w generalizing depth last with
  | nil => rfl
  | cons c w ih =>
    rw [all_cons, Bool.and_eq_true] at hw
    rw [angleDepth.go, angleStep_of_isPlain hw.1, ih hw.2]

/-- Inside of angle brackets plain characters leave nothing. -/
theorem bareSignature_go_inside (hw : w.all isPlain) :
    ∀ {depth : Nat} (_ : depth ≠ 0) (last : Option Char), bareSignature.go depth last w = [] := by
  induction w with
  | nil => intro depth _ last; rfl
  | cons c w ih =>
    intro depth hd last
    rw [all_cons, Bool.and_eq_true] at hw
    rw [bareSignature_go_cons, if_neg fun h => hd h.2.2, angleStep_of_isPlain hw.1, ih hw.2 hd]
    rfl

/-- Without an opening bracket there is nothing to close. -/
theorem angleDepth_go_le {t : Text} (ht : '<' ∉ t) (depth : Nat) (last : Option Char) :
    angleDepth.go depth last t ≤ depth := by
  induction t generalizing depth last with
  | nil => exact Nat.le_refl depth
  | cons c t ih =>
    rw [mem_cons, not_or] at ht
    refine Nat.le_trans (ih ht.2 _ _) ?_
    rw [angleStep, if_neg (Ne.symm ht.1)]
    split
    · exact Nat.sub_le depth 1
    · exact Nat.le_refl depth

/-! ## §2. Names in a line. -/

/-- A line cut in front of the character that has the place `n` in its signature. -/
def cutSignature (n : Nat) (line : Text) : Text × Text := go n 0 none line
where
  go (n depth : Nat) (last : Option Char) : Text → Text × Text
    | [] => ([], [])
    | c :: r =>
      let kept := c ≠ ' ' ∧ c ≠ '<' ∧ depth = 0
      if kept ∧ n = 0 then ([], c :: r)
      else
        let (a, b) := go (if kept then n - 1 else n) (angleStep depth last c) (some c) r
        (c :: a, b)

/-- The characters of a kind that a text ends with. -/
def lastRun (p : Char → Bool) (t : Text) : Text := (t.reverse.takeWhile p).reverse

/-- The name in a line that has the place `n` of its signature in it: all the characters of names
    around that place. -/
def nameAt (p : Char → Bool) (n : Nat) (line : Text) : Text :=
  lastRun p (cutSignature n line).1 ++ (cutSignature n line).2.takeWhile p

/-- The cut is made in front of a plain character that stands outside of angle brackets. -/
theorem cutSignature_go_append (hc : isPlain c) (r front : Text) (depth : Nat)
    (last : Option Char) (hd : angleDepth.go depth last front = 0) :
    cutSignature.go (bareSignature.go depth last front).length depth last (front ++ c :: r)
      = (front, c :: r) := by
  induction front generalizing depth last with
  | nil =>
    obtain rfl : depth = 0 := hd
    obtain ⟨hb, ho, -⟩ := isPlain_iff.mp hc
    rw [nil_append, cutSignature.go, if_pos ⟨⟨hb, ho, rfl⟩, rfl⟩]
  | cons e front ih =>
    have ih := ih (angleStep depth last e) (some e) hd
    rw [cons_append, cutSignature.go, bareSignature_go_cons]
    by_cases hkept : e ≠ ' ' ∧ e ≠ '<' ∧ depth = 0
    · rw [if_pos hkept, if_pos hkept, if_neg fun h => absurd h.2 (by simp), length_append,
        length_singleton, Nat.add_sub_cancel_left, ih]
    · rw [if_neg hkept, if_neg hkept, if_neg fun h => hkept h.1, nil_append, ih]

/-- Where a character stands in a signature, the line can be cut in front of it. -/
theorem exists_cut_go {v : Text} (line : Text) (depth : Nat) (last : Option Char) (u : Text)
    (h : bareSignature.go depth last line = u ++ c :: v) :
    ∃ front rest, line = front ++ c :: rest ∧ bareSignature.go depth last front = u
      ∧ angleDepth.go depth last front = 0
      ∧ bareSignature.go 0 (front.getLast?.or last) (c :: rest) = c :: v := by
  induction line generalizing depth last u with
  | nil => exact absurd h (by simp [bareSignature.go])
  | cons e line ih =>
    have hstep := bareSignature_go_cons depth last e line
    -- the line is cut at the first character that is kept when all of `u` has come
    by_cases hkept : e ≠ ' ' ∧ e ≠ '<' ∧ depth = 0
    · obtain ⟨-, -, rfl⟩ := id hkept
      rw [if_pos hkept, singleton_append] at hstep
      cases u with
      | nil =>
        obtain ⟨rfl, hv⟩ := List.cons.inj (hstep.symm.trans h)
        exact ⟨[], line, rfl, rfl, rfl, by rw [← nil_append (e :: v), ← h]; rfl⟩
      | cons x u =>
        obtain ⟨rfl, hu⟩ := List.cons.inj (hstep.symm.trans h)
        obtain ⟨front, rest, hline, hsig, hdepth, hrest⟩ := ih _ _ u hu
        refine ⟨e :: front, rest, by rw [hline]; rfl, ?_, hdepth, ?_⟩
        · rw [bareSignature_go_cons, if_pos hkept, hsig]
          rfl
        · rw [getLast?_cons]
          cases hl : front.getLast? <;> rw [hl] at hrest <;> exact hrest
    · rw [if_neg hkept, nil_append] at hstep
      obtain ⟨front, rest, hline, hsig, hdepth, hrest⟩ := ih _ _ u (hstep.symm.trans h)
      refine ⟨e :: front, rest, by rw [hline]; rfl, ?_, hdepth, ?_⟩
      · rw [bareSignature_go_cons, if_neg hkept, hsig]
        rfl
      · rw [getLast?_cons]
        cases hl : front.getLast? <;> rw [hl] at hrest <;> exact hrest

/-- The text `own` stands in a line as it is, and is read as the part of the signature that comes
    after `stem`. -/
structure StandsIn (line stem own front back : Text) : Prop where
  line_eq : line = front ++ own ++ back
  front_eq : bareSignature front = stem
  own_read : bareSignature (front ++ own) = stem ++ own

section

variable {p : Char → Bool} {line stem own front back tail : Text}

theorem all_isPlain (hp : ∀ c, p c → isPlain c) {t : Text} (h : t.all p) : t.all isPlain :=
  all_eq_true.mpr fun c hc => hp c (all_eq_true.mp h c hc)

theorem lastRun_suffix (t : Text) : lastRun p t <:+ t := by
  rw [← reverse_prefix, lastRun, reverse_reverse]
  exact List.takeWhile_prefix p

theorem all_lastRun (t : Text) : (lastRun p t).all p := by
  rw [lastRun, all_reverse]
  exact all_takeWhile

theorem lastRun_eq_nil (h : front.getLast?.any p = false) : lastRun p front = [] := by
  rcases eq_nil_or_concat front with rfl | ⟨f, e, rfl⟩
  · rfl
  · rw [concat_eq_append, getLast?_concat] at h
    rw [lastRun, concat_eq_append, reverse_concat, takeWhile_cons_of_neg (by simpa using h)]
    rfl

theorem not_any_of_lastRun (h : lastRun p front = []) : front.getLast?.any p = false := by
  rcases eq_nil_or_concat front with rfl | ⟨f, e, rfl⟩
  · rfl
  · rw [concat_eq_append, getLast?_concat]
    refine Bool.eq_false_iff.mpr fun he => ?_
    have he : p e := he
    rw [lastRun, concat_eq_append, reverse_concat, takeWhile_cons_of_pos he] at h
    simp at h

theorem eq_nil_of_suffix {u t : Text} (hu : u <:+ t) (hall : u.all p)
    (ht : t.getLast?.any p = false) : u = [] := by
  rcases eq_nil_or_concat u with rfl | ⟨f, e, rfl⟩
  · rfl
  · obtain ⟨w, rfl⟩ := hu
    rw [concat_eq_append, ← append_assoc, getLast?_concat] at ht
    have he : p e := all_eq_true.mp hall e (by simp)
    have ht : p e = false := ht
    rw [he] at ht
    cases ht

/-- The part of a signature that a line begins with. -/
theorem takeWhile_prefix_signature (hp : ∀ c, p c → isPlain c) (rest : Text)
    (last : Option Char) : rest.takeWhile p <+: bareSignature.go 0 last rest := by
  induction rest generalizing last with
  | nil => exact prefix_rfl
  | cons c rest ih =>
    by_cases hc : p c
    · rw [takeWhile_cons_of_pos hc, bareSignature_go_isPlain (hp c hc)]
      exact cons_prefix_cons.mpr ⟨rfl, ih _⟩
    · rw [takeWhile_cons_of_neg hc]
      exact nil_prefix

/-- A name at the end of a line is the end of its signature. -/
theorem lastRun_suffix_signature (hp : ∀ c, p c → isPlain c)
    (hdepth : angleDepth front = 0) : lastRun p front <:+ bareSignature front := by
  obtain ⟨f, hf⟩ := lastRun_suffix (p := p) front
  have hplain := all_isPlain hp (all_lastRun (p := p) front)
  have hclosed : angleDepth.go 0 none f = 0 := by
    have h : angleDepth.go 0 none (f ++ lastRun p front) = 0 := by rw [hf]; exact hdepth
    rwa [angleDepth_go_append, angleDepth_go_plain hplain] at h
  refine ⟨bareSignature f, ?_⟩
  have h := bareSignature_go_append_eq (lastRun p front) f 0 none
  rw [hf, hclosed, bareSignature_go_plain hplain] at h
  exact h.symm

namespace StandsIn

section

variable (h : StandsIn line stem own front back) (hne : own ≠ [])
include h hne

theorem angleDepth_eq (hplain : own.all isPlain) : angleDepth front = 0 := by
  have hread := h.own_read
  rw [bareSignature, bareSignature_go_append_eq] at hread
  have hrest : bareSignature.go (angleDepth.go 0 none front) (front.getLast?.or none) own = own :=
    append_cancel_left (hread.trans (by rw [← h.front_eq]; rfl))
  refine Classical.not_not.mp fun hd => hne ?_
  rw [← hrest]
  exact bareSignature_go_inside hplain hd _

theorem cutSignature_eq (hplain : own.all isPlain) :
    cutSignature stem.length line = (front, own ++ back) := by
  obtain ⟨c, r, rfl⟩ := exists_cons_of_ne_nil hne
  have hc : isPlain c := by
    rw [all_cons, Bool.and_eq_true] at hplain
    exact hplain.1
  have hcut := cutSignature_go_append hc (r ++ back) front 0 none (h.angleDepth_eq hne hplain)
  rw [h.line_eq, append_assoc, ← h.front_eq]
  exact hcut

/-- What follows the text in the line follows it in the signature. -/
theorem signature_eq (hplain : own.all isPlain) :
    ∃ last, bareSignature line = stem ++ own ++ bareSignature.go 0 last back := by
  have hdepth : angleDepth.go 0 none (front ++ own) = 0 := by
    rw [angleDepth_go_append, angleDepth_go_plain hplain]
    exact h.angleDepth_eq hne hplain
  refine ⟨(front ++ own).getLast?.or none, ?_⟩
  rw [h.line_eq, bareSignature, bareSignature_go_append_eq, hdepth, ← h.own_read]
  rfl

/-- Where the signature goes on with another character, the name does not go on. -/
theorem back_not_name (hp : ∀ c, p c → isPlain c) (hown : own.all p)
    {d : Char} (hsig : stem ++ own ++ d :: tail <+: bareSignature line) (hd : p d = false) :
    back.head?.any p = false := by
  obtain ⟨last, hline⟩ := h.signature_eq hne (all_isPlain hp hown)
  rw [hline, prefix_append_right_inj] at hsig
  cases back with
  | nil => rfl
  | cons e back =>
    refine Bool.eq_false_iff.mpr fun he => ?_
    rw [bareSignature_go_isPlain (hp e he), cons_prefix_cons] at hsig
    have he : p e := he
    rw [← hsig.1, hd] at he
    cases he

/-- Where the signature has another character in front, the name does not begin before. -/
theorem front_not_name (hp : ∀ c, p c → isPlain c) (hown : own.all p)
    (hstem : stem.getLast?.any p = false) : front.getLast?.any p = false := by
  have hsuffix := lastRun_suffix_signature (p := p) hp (h.angleDepth_eq hne (all_isPlain hp hown))
  rw [h.front_eq] at hsuffix
  exact not_any_of_lastRun (eq_nil_of_suffix hsuffix (all_lastRun front) hstem)

end

end StandsIn

/-- **The name at a place of the signature.**  It is `own` exactly if `own` stands in the line by
    itself, with no character of a name on either side. -/
theorem nameAt_eq_iff (hne : own ≠ []) (hp : ∀ c, p c → isPlain c) (hown : own.all p)
    (hunique : ∀ u v, u <:+ stem → u ++ v = own → v <+: own → v ≠ [] → u = [])
    (hsig : stem ++ own <+: bareSignature line) :
    nameAt p stem.length line = own ↔ ∃ front back, StandsIn line stem own front back
      ∧ front.getLast?.any p = false ∧ back.head?.any p = false := by
  constructor
  · intro hname
    obtain ⟨c, r, hc⟩ := exists_cons_of_ne_nil hne
    obtain ⟨tail, htail⟩ := hsig
    have hpc : p c := by
      rw [hc, all_cons, Bool.and_eq_true] at hown
      exact hown.1
    obtain ⟨front, rest, hline, hfront, hdepth, hrest⟩ := exists_cut_go line 0 none stem
      (show bareSignature line = stem ++ c :: (r ++ tail) by rw [← htail, hc, append_assoc]; rfl)
    have hcut : cutSignature stem.length line = (front, c :: rest) := by
      rw [hline, ← hfront]
      exact cutSignature_go_append (hp c hpc) rest front 0 none hdepth
    rw [nameAt, hcut] at hname
    -- what the name has from the place on is a start of `own`, since it is one of the signature
    have hstart : (c :: rest).takeWhile p <+: own := by
      have hsig := takeWhile_prefix_signature hp (c :: rest) (front.getLast?.or none)
      rw [hrest, ← cons_append, ← hc] at hsig
      refine prefix_of_prefix_length_le hsig (prefix_append own tail) ?_
      rw [← hname, length_append]
      exact Nat.le_add_left _ _
    have hrun : lastRun p front = [] := by
      refine hunique _ _ ?_ hname hstart ?_
      · rw [← hfront]
        exact lastRun_suffix_signature hp hdepth
      · rw [takeWhile_cons_of_pos hpc]
        exact cons_ne_nil _ _
    rw [hrun, nil_append] at hname
    have hback : c :: rest = own ++ (c :: rest).dropWhile p := by
      rw [← hname, takeWhile_append_dropWhile]
    refine ⟨front, (c :: rest).dropWhile p, ⟨?_, hfront, ?_⟩, not_any_of_lastRun hrun, ?_⟩
    · rw [append_assoc, ← hback, hline]
    · rw [bareSignature, bareSignature_go_append_eq, show angleDepth.go 0 none front = 0
        from hdepth,
        bareSignature_go_plain (all_isPlain hp hown)]
      exact congrArg (· ++ own) hfront
    · have hhead := head?_dropWhile_not p (c :: rest)
      cases hd : ((c :: rest).dropWhile p).head? with
      | none => rfl
      | some e =>
        rw [hd] at hhead
        exact hhead
  · rintro ⟨front, back, h, hfront, hback⟩
    have hend : back.takeWhile p = [] := by
      cases back with
      | nil => rfl
      | cons e back => exact takeWhile_cons_of_neg (Bool.eq_false_iff.mp hback)
    rw [nameAt, h.cutSignature_eq hne (all_isPlain hp hown), lastRun_eq_nil hfront,
      takeWhile_append_of_pos (all_eq_true.mp hown), hend, append_nil,
      nil_append]

end

/-! ## §3. Names of classes. -/

/-- The name in a declaration, if there is one, is free of type parameters. -/
def Declaration.HasBareName (d : Declaration) : Prop := ∀ n ∈ d.name, '<' ∉ n

theorem scan_hasBareName {text : Text} {cs : List SourceClass} (h : scan text = .ok cs)
    {c : SourceClass} (hc : c ∈ cs) (hlast : c.last ≠ none) : c.head.HasBareName := by
  intro n hn
  obtain ⟨w, -, generics, hsplit⟩ := scan_named h hc hlast hn
  exact not_mem_of_splitClassName hsplit

/-! ## §4. Names of members. -/

namespace MemberKind

/-- What stands in front of the name of a member in the text by which it is known. -/
def leading (c : SourceClass) : MemberKind → Text
  | .copyWith => c.type ++ " "
  | .toMap => "Map<String, dynamic> "
  | .fromMap | .fromJson => "factory " ++ c.shownName ++ "."
  | .toJson | .toString => "String "
  | .stringify => "bool get "
  | .equality => "bool operator "
  | .hashCode => "int get "
  | .props => "List<Object> get "

/-- The name of a member; that of `operator ==` is the operator. -/
def own : MemberKind → Text
  | .copyWith => "copyWith"
  | .toMap => "toMap"
  | .fromMap => "fromMap"
  | .toJson => "toJson"
  | .fromJson => "fromJson"
  | .toString => "toString"
  | .stringify => "stringify"
  | .equality => "=="
  | .hashCode => "hashCode"
  | .props => "props"

/-- What follows the name. -/
def trailing : MemberKind → Text
  | .copyWith => "("
  | .fromMap => "(Map<String, dynamic> map)"
  | .fromJson => "(String source)"
  | .toMap | .toJson | .toString => "()"
  | .stringify | .equality | .hashCode | .props => ""

/-- The characters that a name of the kind is made of. -/
def isNameChar (k : MemberKind) (ch : Char) : Bool := if k = .equality then ch == '=' else isWord ch

/-- Whether a bracket follows the name. -/
def takesBracket (k : MemberKind) : Bool := k.trailing.head? == some '('

/-- The signature of what stands in front of the name. -/
def stem (c : SourceClass) (k : MemberKind) : Text := bareSignature (k.leading c)

/-- The name that a line declares where the name of the member is looked for. -/
def declaredIn (k : MemberKind) (c : SourceClass) (line : Text) : Text :=
  nameAt k.isNameChar (k.stem c).length line.trim

variable (k : MemberKind) {c : SourceClass}

/-- What is looked for in three parts. -/
theorem finder_build (r : Request) (c : SourceClass) :
    (k.build r c).finder = k.leading c ++ k.own ++ k.trailing := by
  have hof : ∀ a n b : Text, of [a, n, b] = a ++ (n ++ b) := by simp [of]
  cases k with
  | copyWith =>
    show c.type ++ " copyWith(" = c.type ++ " " ++ "copyWith" ++ "("
    rw [append_assoc, append_assoc]
    rfl
  | fromMap =>
    show of ["factory ", c.shownName, ".fromMap(Map<String, dynamic> map)"]
      = "factory " ++ c.shownName ++ "." ++ "fromMap"
        ++ "(Map<String, dynamic> map)"
    rw [hof, append_assoc, append_assoc, append_assoc]
    rfl
  | fromJson =>
    show of ["factory ", c.shownName, ".fromJson(String source)"]
      = "factory " ++ c.shownName ++ "." ++ "fromJson"
        ++ "(String source)"
    rw [hof, append_assoc, append_assoc, append_assoc]
    rfl
  | _ => rfl

theorem own_ne_nil : k.own ≠ [] := by cases k <;> decide

theorem all_own : k.own.all k.isNameChar := by cases k <;> decide

theorem isPlain_of_isNameChar (ch : Char) (h : k.isNameChar ch) : isPlain ch := by
  have hne : ∀ d, k.isNameChar d = false → ch ≠ d := by
    rintro d hd rfl
    rw [h] at hd
    cases hd
  refine isPlain_iff.mpr ⟨hne _ ?_, hne _ ?_, hne _ ?_⟩ <;> cases k <;> decide

/-- No angle bracket is open in front of the name. -/
theorem angleDepth_leading (hclosed : k = .copyWith → angleDepth c.type = 0)
    (hname : '<' ∉ c.shownName) : angleDepth (k.leading c) = 0 := by
  have hfactory : angleDepth ("factory " ++ c.shownName ++ ".") = 0 := by
    refine Nat.le_zero.mp (angleDepth_go_le ?_ 0 none)
    rw [mem_append, mem_append, not_or, not_or]
    exact ⟨⟨by decide, hname⟩, by decide⟩
  cases k with
  | copyWith =>
    show angleDepth.go 0 none (c.type ++ " ") = 0
    rw [angleDepth_go_append, show angleDepth.go 0 none c.type = 0 from hclosed rfl]
    rfl
  | fromMap => exact hfactory
  | fromJson => exact hfactory
  | _ => rfl

/-- The signature of the text by which a member is known. -/
theorem bareSignature_finder_build (hdepth : angleDepth (k.leading c) = 0) (r : Request) :
    ∃ last, bareSignature (k.build r c).finder
      = k.stem c ++ k.own ++ bareSignature.go 0 last k.trailing := by
  have hplain := all_isPlain k.isPlain_of_isNameChar k.all_own
  have hown : angleDepth.go 0 none (k.leading c ++ k.own) = 0 := by
    rw [angleDepth_go_append, angleDepth_go_plain hplain]
    exact hdepth
  refine ⟨(k.leading c ++ k.own).getLast?.or none, ?_⟩
  rw [finder_build, bareSignature, bareSignature_go_append_eq, hown, bareSignature_go_append_eq,
    show angleDepth.go 0 none (k.leading c) = 0 from hdepth, bareSignature_go_plain hplain]
  rfl

/-- In front of the names of factories and operators stands no character of such names. -/
theorem stem_not_name (hname : '<' ∉ c.shownName)
    (hk : k = .fromMap ∨ k = .fromJson ∨ k = .equality) :
    (k.stem c).getLast?.any k.isNameChar = false := by
  have hfactory : (bareSignature ("factory " ++ c.shownName ++ ".")).getLast?
      = some '.' := by
    have hdepth : angleDepth.go 0 none ("factory " ++ c.shownName) = 0 := by
      refine Nat.le_zero.mp (angleDepth_go_le ?_ 0 none)
      exact List.not_mem_append (by decide) hname
    rw [bareSignature, bareSignature_go_append_eq, hdepth,
      bareSignature_go_plain (w := ".") (by decide)]
    exact getLast?_concat
  rcases hk with rfl | rfl | rfl
  · exact congrArg (Option.any (isNameChar .fromMap)) hfactory
  · exact congrArg (Option.any (isNameChar .fromJson)) hfactory
  · rfl

/-- No proper end of a name that is made of letters is also its beginning. -/
theorem own_borderless (hk : k ≠ .equality) :
    ∀ n, n < k.own.length → 0 < n → k.own.take n ≠ k.own.drop (k.own.length - n) := by
  cases k <;> first | exact absurd rfl hk | decide

/-- The name of a member does not overlap with itself, and the operator not with what stands in
    front of it. -/
theorem own_unique {u v : Text} (hu : u <:+ k.stem c) (h : u ++ v = k.own) (hv : v <+: k.own)
    (hne : v ≠ []) : u = [] := by
  by_cases hk : k = .equality
  · subst hk
    refine eq_nil_of_suffix (p := isNameChar .equality) hu (all_eq_true.mpr fun ch hch => ?_) rfl
    exact all_eq_true.mp (all_own .equality) ch (h ▸ mem_append_left v hch)
  · have hlen : k.own.length = u.length + v.length := by rw [← h, length_append]
    have hpos : 0 < v.length := length_pos_iff.mpr hne
    rcases Nat.lt_or_ge v.length k.own.length with hlt | hge
    · refine absurd ?_ (k.own_borderless hk v.length hlt hpos)
      rw [← prefix_iff_eq_take.mp hv, hlen, Nat.add_sub_cancel, ← h, drop_left]
    · exact length_eq_zero_iff.mp (by omega)

end MemberKind

/-- **The name that is declared where a member is found.**  It is the name of the member exactly if
    that stands in the line by itself.  If a bracket follows the name in the text that is looked
    for, no declared name goes on behind it; and those of factories and operators do not begin in
    front of it. -/
theorem findMember_declares_iff {text : Text} {cs : List SourceClass} (h : scan text = .ok cs)
    {c : SourceClass} (hc : c ∈ cs) (hv : c.isValid = true) (r : Request) (k : MemberKind)
    (hclosed : k = .copyWith → angleDepth c.type = 0) {m : ExistingMember}
    (hm : c.findMember (k.build r c).name (k.build r c).finder = .ok (some m)) :
    ∃ (s : Int) (a : Nat) (line : Text), c.first = some s ∧ m.first = some (s + a)
      ∧ line = lineAt c.content.lines a
      ∧ (k.declaredIn c line = k.own ↔ ∃ front back,
          StandsIn line.trim (k.stem c) k.own front back
            ∧ front.getLast?.any k.isNameChar = false ∧ back.head?.any k.isNameChar = false)
      ∧ (k.takesBracket = true → ∀ front back,
          StandsIn line.trim (k.stem c) k.own front back → back.head?.any k.isNameChar = false)
      ∧ (k = .fromMap ∨ k = .fromJson ∨ k = .equality → ∀ front back,
          StandsIn line.trim (k.stem c) k.own front back →
            front.getLast?.any k.isNameChar = false) := by
  simp only [SourceClass.isValid, Bool.and_eq_true] at hv
  obtain ⟨⟨⟨⟨hfirst, hsome⟩, hlast⟩, -⟩, -⟩ := hv
  obtain ⟨s, hs⟩ := Option.isSome_iff_exists.mp hfirst
  obtain ⟨a, b, hab, rfl⟩ := (SourceClass.findMember_eq_some_iff hs _ _ m).mp hm
  -- the name has no type parameters, which a signature would drop
  have hname : '<' ∉ c.shownName := by
    obtain ⟨n, hn⟩ := Option.isSome_iff_exists.mp hsome
    have := scan_hasBareName h hc (Option.ne_none_iff_isSome.mpr hlast) n hn
    rwa [SourceClass.shownName, Declaration.shownName, hn]
  obtain ⟨last, hfinder⟩ := k.bareSignature_finder_build (k.angleDepth_leading hclosed hname) r
  have hstarts := startsWith_iff.mp hab.begins.holds.1.2.2.2
  rw [hfinder] at hstarts
  refine ⟨s, a, _, hs, rfl, rfl, ?_, ?_, ?_⟩
  · exact nameAt_eq_iff k.own_ne_nil k.isPlain_of_isNameChar k.all_own
      (fun u v => k.own_unique) ((prefix_append _ _).trans hstarts)
  · intro hbracket front back hstands
    obtain ⟨t, ht⟩ := head?_eq_some_iff.mp (beq_iff_eq.mp hbracket)
    rw [ht, bareSignature_go_isPlain (by decide)] at hstarts
    exact hstands.back_not_name k.own_ne_nil k.isPlain_of_isNameChar k.all_own hstarts
      (by cases k <;> decide)
  · intro hk front back hstands
    exact hstands.front_not_name k.own_ne_nil k.isPlain_of_isNameChar k.all_own
      (k.stem_not_name hname hk)

/-- A getter without blanks around its arrow. -/
theorem findMember_declares_hashCode :
    ∃ cs c m, scan "class A \x7b\n  int x;\n  int  get hashCode=>7;\n\x7d" = .ok cs ∧ c ∈ cs
      ∧ c.findMember "hashCode" "int get hashCode" = .ok (some m) ∧ m.first = some 3
      ∧ MemberKind.hashCode.declaredIn c (lineAt c.content.lines 2) = "hashCode".toList := by
  obtain ⟨cs, c, hcs, hc, hv, hfirst, hfound, hline⟩ := SourceClass.exists_scanned
    (t := "class A \x7b\n  int x;\n  int  get hashCode=>7;\n\x7d")
    (P := fun c => c.isValid = true ∧ c.first = some 1
      ∧ (c.findMember "hashCode" "int get hashCode").toOption
        = some (some (memberAt "hashCode" 1 c.content.lines 2 2))
      ∧ (lineAt c.content.lines 2).trim = "int  get hashCode=>7;") (by decide +kernel)
  have hm := toOption_eq_some.mp hfound
  obtain ⟨s, a, line, hs, ha, rfl, hiff, -, -⟩ :=
    findMember_declares_iff hcs hc hv {} .hashCode nofun hm
  rw [hfirst, Option.some.injEq] at hs
  obtain rfl : 2 = a := by have := Option.some.inj ha; omega
  refine ⟨cs, c, _, hcs, hc, hm, rfl, hiff.mpr ⟨"int  get ", "=>7;", ?_, by decide, by decide⟩⟩
  rw [hline]
  exact ⟨rfl, rfl, rfl⟩

/-- Members that are found under the name of another one: names that go on, a name that is written
    together with its type, and a class with an arrow in its type parameters, where all that is
    looked for is the name of the class. -/
theorem findMember_takes_others :
    [("class A \x7b\n  int x;\n  int get hashCodeSeed => 7;\n\x7d", MemberKind.hashCode,
        "hashCodeSeed"),
      ("class A \x7b\n  int x;\n  bool get stringifyAll => true;\n\x7d", .stringify,
        "stringifyAll"),
      ("class A \x7b\n  int x;\n  List<Object> get propsOf => [];\n\x7d", .props, "propsOf"),
      ("class A \x7b\n  int x;\n  StringtoString() \x7b\n    return 'a';\n  \x7d\n\x7d", .toString,
        "StringtoString"),
      ("class A<T=> \x7b\n  int x;\n  Abc f() \x7b\n    return 'a';\n  \x7d\n\x7d", .copyWith,
        "Abc")].all
        (fun ((t : String), k, (name : String)) => (scan t).toOption.any fun cs => cs.any fun c =>
          c.isValid && k.declaredIn c (lineAt c.content.lines 2) == name.toList
            && (c.findMember (k.build {} c).name (k.build {} c).finder).toOption.any fun m =>
              m.any fun m => m.first == some 3 && name.toList != k.own) = true := by
  decide +kernel

end DartData
