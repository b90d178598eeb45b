import DartData.Generation.Plan
import DartData.Member.Locate
import DartData.Proofs.Plain.Source

/-!
# Signatures of members

A member is known by its signature, which is the start of its first line without blanks and type
arguments.  The signatures of the generated members are told apart by each other, with one
exception: that of `props` is the start of that of `copyWith` if the name of the class begins with
`Listgetprops`.
-/

namespace DartData

open List

/-! ## §1. Signatures of texts. -/

theorem bareSignature_go_append (b : Text) (a : Text) (depth : Nat) (last : Option Char) : ∃ tail,
      bareSignature.go depth last (a ++ b) = bareSignature.go depth last a ++ tail := by
  induction a generalizing depth last with
  | nil => exact ⟨_, rfl⟩
  | cons c a ih =>
    simp only [cons_append, bareSignature.go]
    generalize (if c = '<' then depth + 1 else depth) = d
    generalize (if (decide (c = '>') && last != some '=') then d - 1 else d) = d'
    obtain ⟨tail, h⟩ := ih d' (some c)
    refine ⟨tail, ?_⟩
    rw [h]
    split <;> rfl

theorem bareSignature_append (a b : Text) :
    ∃ tail, bareSignature (a ++ b) = bareSignature a ++ tail :=
  bareSignature_go_append b a 0 none

/-- Words stay as they are. -/
theorem bareSignature_go_word {w : Text} (hw : w.all isWord) (t : Text) (last : Option Char) :
    ∃ last', bareSignature.go 0 last (w ++ t) = w ++ bareSignature.go 0 last' t := by
  induction w generalizing last with
  | nil => exact ⟨last, rfl⟩
  | cons c w ih =>
    rw [all_cons, Bool.and_eq_true] at hw
    have hne : ∀ d, isWord d = false → c ≠ d := by
      rintro d hd rfl
      simp [hw.1] at hd
    obtain ⟨last', h⟩ := ih hw.2 (some c)
    refine ⟨last', ?_⟩
    rw [cons_append, bareSignature.go]
    simp [hne '<' (by decide), hne '>' (by decide), hne ' ' (by decide), h]

/-! ## §2. Signatures of members. -/

/-- The signature of the member of a kind in the class `name`. -/
def MemberKind.signature (name : Text) : MemberKind → Text
  | .copyWith => name ++ "copyWith("
  | .toMap => "MaptoMap()"
  | .fromMap => "factory" ++ (name ++ ".fromMap(Mapmap)")
  | .toJson => "StringtoJson()"
  | .fromJson => "factory" ++ (name ++ ".fromJson(Stringsource)")
  | .toString => "StringtoString()"
  | .stringify => "boolgetstringify"
  | .equality => "booloperator=="
  | .hashCode => "intgethashCode"
  | .props => "Listgetprops"

variable {name : Text} {i j : MemberKind}

/-- The signature is that of the start by which the member is known. -/
theorem bareSignature_finder {c : SourceClass} (hn : c.head.name = some name)
    (hg : c.head.generics = []) (hw : name.all isWord) (r : Request) (k : MemberKind) :
    bareSignature (k.build r c).finder = k.signature name := by
  have hshown : c.shownName = name := by
    simp [SourceClass.shownName, Declaration.shownName, hn]
  have htype : c.type = name := by
    simp [SourceClass.type, Declaration.type, Declaration.typeArguments, hn, hg]
  -- the two factories differ in what stands after the name only
  have hfactory : ∀ t : Text, ∃ last, bareSignature (Text.of ["factory ", c.shownName, t])
      = "factory" ++ (name ++ bareSignature.go 0 last t) := by
    intro t
    obtain ⟨last, h⟩ := bareSignature_go_word hw t (some ' ')
    refine ⟨last, ?_⟩
    rw [hshown, show Text.of ["factory ", name, t] = "factory " ++ (name ++ t) by
      simp [Text.of], ← h]
    rfl
  cases k with
  | copyWith =>
    show bareSignature (c.type ++ " copyWith(") = name ++ "copyWith("
    rw [htype, bareSignature]
    obtain ⟨last, h⟩ := bareSignature_go_word hw " copyWith(" none
    rw [h]
    rfl
  | fromMap =>
    obtain ⟨last, h⟩ := hfactory ".fromMap(Map<String, dynamic> map)"
    exact h.trans rfl
  | fromJson =>
    obtain ⟨last, h⟩ := hfactory ".fromJson(String source)"
    exact h.trans rfl
  | _ => rfl

/-! ## §3. Telling them apart. -/

/-- Texts with different first characters do not begin with each other. -/
theorem not_prefix_of_head_ne {s t : Text} {a b : Char} (hs : s.head? = some a)
    (ht : t.head? = some b) (hne : a ≠ b) : ¬ s <+: t := by
  rintro ⟨u, rfl⟩
  cases s with
  | nil => simp at hs
  | cons c s =>
    simp only [cons_append, head?_cons, Option.some.injEq] at hs ht
    exact hne (hs.symm.trans ht)

/-- The signature of `copyWith` and one that has the first round bracket somewhere else, or none,
    do not begin with each other. -/
theorem copyWith_apart {name s : Text} (hw : name.all isWord)
    (hs : ¬ "copyWith" <:+ s.takeWhile (· ≠ '(')) :
    ¬ (name ++ "copyWith(".toList) <+: s := by
  rintro ⟨u, rfl⟩
  refine hs ⟨name, ?_⟩
  have hfixed : ∀ c ∈ "copyWith".toList, (decide (c ≠ '(')) :=
    List.all_eq_true.mp (by decide)
  have hname : ∀ c ∈ name ++ "copyWith", (decide (c ≠ '(')) := by
    intro c hc
    rcases mem_append.mp hc with hc | hc
    · have := Text.not_mem_of_all hw (show isWord '(' = false by decide)
      simp only [ne_eq, decide_eq_true_eq]
      rintro rfl
      exact this hc
    · exact hfixed c hc
  rw [show name ++ "copyWith(" ++ u = (name ++ "copyWith") ++ ('(' :: u) by simp,
    takeWhile_append_of_pos hname]
  simp

/-- The first character of the signatures that do not begin with the name of the class. -/
def MemberKind.lead : MemberKind → Char
  | .toMap => 'M'
  | .fromMap | .fromJson => 'f'
  | .toJson | .toString => 'S'
  | .stringify | .equality => 'b'
  | .hashCode => 'i'
  | .props => 'L'
  | .copyWith => ' '

theorem head?_signature {k : MemberKind} (hk : k ≠ .copyWith) (name : Text) :
    (k.signature name).head? = some k.lead := by
  cases k <;> first | rfl | exact absurd rfl hk

theorem pairs_of_lead_eq (hne : i ≠ j) (hl : i.lead = j.lead) :
    (i = .fromMap ∧ j = .fromJson) ∨ (i = .fromJson ∧ j = .fromMap)
      ∨ (i = .toJson ∧ j = .toString) ∨ (i = .toString ∧ j = .toJson)
      ∨ (i = .stringify ∧ j = .equality) ∨ (i = .equality ∧ j = .stringify) := by
  revert hne hl
  cases i <;> cases j <;> decide

/-- Of two members whose signatures begin alike, none begins with that of the other. -/
theorem signature_apart_of_lead_eq (hne : i ≠ j) (hl : i.lead = j.lead) (name : Text) :
    ¬ i.signature name <+: j.signature name := by
  rcases pairs_of_lead_eq hne hl with ⟨hi, hj⟩ | ⟨hi, hj⟩ | ⟨hi, hj⟩ | ⟨hi, hj⟩ | ⟨hi, hj⟩
      | ⟨hi, hj⟩ <;> rw [hi, hj] <;> dsimp only [MemberKind.signature]
  · rw [prefix_append_right_inj, prefix_append_right_inj]
    decide
  · rw [prefix_append_right_inj, prefix_append_right_inj]
    decide
  · decide
  · decide
  · decide
  · decide

/-- **The signatures of two members tell them apart**, unless the name of the class makes that of
    `copyWith` begin with that of `props`. -/
theorem signature_apart (hw : name.all isWord) (hup : name.head?.any Char.isUpper)
    (hne : i ≠ j) (hprops : i = .props → j = .copyWith → name.startsWith "Listgetprops" = false) :
    ¬ i.signature name <+: j.signature name := by
  obtain ⟨a, ha, hupper⟩ := (Option.any_eq_true ..).mp hup
  have ha : (name ++ "copyWith(").head? = some a := by rw [head?_append, ha]; rfl
  have hlower : ∀ b : Char, b.isUpper = false → a ≠ b := by
    rintro b hb rfl
    simp [hupper] at hb
  by_cases hi : i = .copyWith
  · subst hi
    have hapart : ∀ s : Text, ¬ "copyWith" <:+ s.takeWhile (· ≠ '(') →
        ¬ (name ++ "copyWith(".toList) <+: s := fun s => copyWith_apart hw
    have hother : ∀ k : MemberKind, k ≠ .copyWith → k.lead.isUpper = false →
        ¬ (name ++ "copyWith(".toList) <+: k.signature name := fun k hk hl =>
      not_prefix_of_head_ne ha (head?_signature hk name) (hlower _ hl)
    cases j with
    | copyWith => exact absurd rfl hne
    | toMap => exact hapart "MaptoMap()" (by decide)
    | toJson => exact hapart "StringtoJson()" (by decide)
    | toString => exact hapart "StringtoString()" (by decide)
    | props => exact hapart "Listgetprops" (by decide)
    | fromMap | fromJson | stringify | equality | hashCode => exact hother _ (by decide) (by decide)
  · by_cases hj : j = .copyWith
    · subst hj
      have hparen : ∀ s : Text, ')' ∈ s → ¬ s <+: name ++ "copyWith(" := by
        intro s hs hp
        rcases mem_append.mp (hp.subset hs) with hmem | hmem
        · exact Text.not_mem_of_all hw (show isWord ')' = false by decide) hmem
        · revert hmem
          decide
      have hother : ∀ k : MemberKind, k ≠ .copyWith → k.lead.isUpper = false →
          ¬ k.signature name <+: (name ++ "copyWith(") := fun k hk hl =>
        not_prefix_of_head_ne (head?_signature hk name) ha (hlower _ hl).symm
      cases i with
      | copyWith => exact absurd rfl hne
      | toMap => exact hparen "MaptoMap()" (by decide)
      | toJson => exact hparen "StringtoJson()" (by decide)
      | toString => exact hparen "StringtoString()" (by decide)
      | props =>
        -- the signature of `props` has no `c`, so the name itself would begin with it
        intro h
        have hstart : name.startsWith "Listgetprops" :=
          Text.startsWith_iff.mpr (Text.prefix_of_not_mem (c := 'c') (by decide) h)
        rw [hprops rfl rfl] at hstart
        exact Bool.false_ne_true hstart
      | fromMap | fromJson | stringify | equality | hashCode =>
        exact hother _ (by decide) (by decide)
    · by_cases hl : i.lead = j.lead
      · exact signature_apart_of_lead_eq hne hl name
      · exact not_prefix_of_head_ne (head?_signature hi name) (head?_signature hj name) hl

end DartData
