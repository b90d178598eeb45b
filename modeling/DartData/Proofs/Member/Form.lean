import DartData.Proofs.Member.Lead
import DartData.Proofs.Member.Regular
import DartData.Proofs.Member.Signature

/-!
# The form of generated members

Every member that is written for a class of plain fields is one item: a line with an arrow and a
semicolon, or a block with its closing brace on a line of its own, perhaps with an annotation above
it.  No line of it begins a class, and its first line begins with the signature of the member.

`Member.Shape` is the form of a member, and `MemberKind.exists_shape` says that all members have it.
-/

namespace DartData

open List Text

/-! ## §1. Lines and items. -/

/-- A line of a member, with `k` more curly brackets opened than closed. -/
structure MemberLine (l : Text) (k : Int) : Prop where
  tame : Tame l k
  no_class_line : isClassLine l = false

/-- An item in the form of a member. -/
structure Item.Written (i : Item) : Prop where
  member : i.IsMember
  lines : ∀ l ∈ i.lines, ∃ k, MemberLine l k

/-- How the first line of the member with the signature `sig` begins and ends. -/
structure Leads (first sig : Text) : Prop where
  word : ∃ w d u a, first = w ++ d :: u ∧ w.all isWord = true ∧ (d = ' ' ∨ d = '<')
    ∧ w.head? = some a ∧ a ≠ 'c' ∧ a ≠ 'a'
  last : ∃ t e, first = t ++ [e] ∧ isBlank e = false
  signature : ∃ tail, bareSignature first = sig ++ tail

/-- The member is the item, below an annotation if it is marked. -/
structure Member.Shape (m : Member) (sig : Text) (marked : Bool) (i : Item) : Prop where
  text_eq : m.text = unlines (overrideMark marked ++ i.lines)
  written : i.Written
  leads : Leads i.first sig

/-! ## §2. Classes of plain fields. -/

/-- A class with plain fields and a plain name. -/
structure SourceClass.IsPlain (c : SourceClass) (name : Text) (fs : List PlainField) : Prop where
  name_eq : c.head.name = some name
  generics_eq : c.head.generics = []
  word : name.all isWord = true
  upper : name.head?.any Char.isUpper = true
  fields_eq : ∃ n, c.fields = fieldsFrom n fs
  fields_ne : fs ≠ []

namespace SourceClass.IsPlain

variable {c : SourceClass} {name : Text} {fs : List PlainField}

section

variable (h : c.IsPlain name fs)
include h

theorem shownName_eq : c.shownName = name := by
  simp [shownName, Declaration.shownName, h.name_eq]

theorem type_eq : c.type = name := by
  simp [type, Declaration.type, Declaration.typeArguments, h.name_eq, h.generics_eq]

theorem mem_fields {f : Field} (hf : f ∈ c.fields) :
    ∃ (p : PlainField) (n : Int), f = p.field n := by
  obtain ⟨n, hn⟩ := h.fields_eq
  rw [hn] at hf
  clear hn h
  induction fs generalizing n with
  | nil => simp [fieldsFrom] at hf
  | cons p fs ih =>
    rcases mem_cons.mp hf with rfl | hf
    · exact ⟨p, n, rfl⟩
    · exact ih (n + 1) hf

theorem fields_ne_nil : c.fields ≠ [] := by
  obtain ⟨n, hn⟩ := h.fields_eq
  rw [hn]
  cases fs with
  | nil => exact absurd rfl h.fields_ne
  | cons p fs => simp [fieldsFrom]

theorem head_name : ∃ a, name.head? = some a ∧ a.isUpper := by
  have := h.upper
  cases name with
  | nil => simp at this
  | cons a r => exact ⟨a, rfl, by simpa using this⟩

theorem regular : c.Regular where
  name := ⟨name, h.name_eq, fun hn => by simpa [hn] using h.upper, h.word⟩
  generics := by simp [h.generics_eq]
  fields := by
    intro f hf
    obtain ⟨p, n, rfl⟩ := h.mem_fields hf
    exact p.regular_field n
  fields_ne := h.fields_ne_nil

end

end SourceClass.IsPlain

/-! ## §3. Lines that begin no class. -/

theorem isClassLine_of_margin {b t : Text} {a : Char}
    (ha : (isBlank a || a == 'c' || a == 'a') = false)
    (hb : b.all isBlank) (ht : t.head? = some a) : isClassLine (b ++ t) = false := by
  simp only [Bool.or_eq_false_iff, beq_eq_false_iff_ne] at ha
  exact isClassLine_of_head (all_eq_true.mp hb) ht ha.1.1 ha.1.2 ha.2

namespace SourceClass.IsPlain

variable {c : SourceClass} {name : Text} {fs : List PlainField}

/-- The word that a member begins with. -/
theorem exists_start (h : c.IsPlain name fs) (k : MemberKind) :
    ∃ w d u a, k.start c = w ++ d :: u ∧ w.all isWord ∧ (d = ' ' ∨ d = '<')
      ∧ w.head? = some a ∧ a ≠ 'c' ∧ a ≠ 'a' := by
  cases k with
  | copyWith =>
    obtain ⟨a, ha, hup⟩ := h.head_name
    refine ⟨name, ' ', "copyWith(", a, by rw [← h.type_eq]; rfl, h.word, .inl rfl, ha, ?_⟩
    constructor <;> rintro rfl <;> simp at hup
  | toMap => exact ⟨"Map", '<', _, 'M', rfl, by decide, .inr rfl, by decide⟩
  | fromMap | fromJson => exact ⟨"factory", ' ', _, 'f', rfl, by decide, .inl rfl, by decide⟩
  | toJson | toString => exact ⟨"String", ' ', _, 'S', rfl, by decide, .inl rfl, by decide⟩
  | stringify | equality => exact ⟨"bool", ' ', _, 'b', rfl, by decide, .inl rfl, by decide⟩
  | hashCode => exact ⟨"int", ' ', _, 'i', rfl, by decide, .inl rfl, by decide⟩
  | props => exact ⟨"List", '<', _, 'L', rfl, by decide, .inr rfl, by decide⟩

theorem leads (h : c.IsPlain name fs) (r : Request) (k : MemberKind) :
    Leads (k.item r c).first (k.signature name) := by
  obtain ⟨t, e, hfirst, he⟩ := k.exists_first r c
  obtain ⟨w, d, u, a, hstart, hw⟩ := h.exists_start k
  obtain ⟨tail, htail⟩ := bareSignature_append (k.start c) (t ++ [e])
  rw [k.bareSignature_start r c, bareSignature_finder h.name_eq h.generics_eq h.word] at htail
  rw [hfirst]
  exact ⟨⟨w, d, u ++ (t ++ [e]), a, by rw [hstart, append_assoc, cons_append], hw⟩,
    ⟨k.start c ++ t, e, (append_assoc _ _ _).symm, he⟩, tail, htail⟩

theorem isClassLine_start (h : c.IsPlain name fs) (k : MemberKind) (t : Text) :
    isClassLine (k.start c ++ t) = false := by
  obtain ⟨w, d, u, a, hstart, hw, -, ha, hc, hab⟩ := h.exists_start k
  have hblank : isBlank a = false :=
    isBlank_of_isWord (all_eq_true.mp hw a (mem_of_mem_head? ha))
  have hhead : (k.start c ++ t).head? = some a := by
    rw [hstart, append_assoc, head?_append, ha]
    rfl
  exact isClassLine_of_head (b := []) (by simp) hhead hblank hc hab

/-- No line of a member begins a class. -/
theorem no_class_lines (h : c.IsPlain name fs) (r : Request) :
    MemberLines (fun l _ _ => isClassLine l = false) r c where
  fixed := by decide
  block := fun k => h.isClassLine_start k _
  arrow := fun k _ _ => h.isClassLine_start k _
  returned := isClassLine_of_margin (b := "  ") (a := 'r') (by decide) rfl rfl
  shown := isClassLine_of_margin (b := "  ") (a := 'r') (by decide) rfl rfl
  helper := fun _ _ => isClassLine_of_margin (b := "  ") (a := 'f') (by decide) rfl rfl
  -- these begin with a type or a field name, the others with a letter of the template
  parameter := by
    intro f hf
    obtain ⟨p, n, rfl⟩ := h.mem_fields hf
    show isClassLine ("  " ++ (Member.optionalType (p.field n).type ++ _)) = false
    rw [Member.optionalType]
    split
    next hd =>
      have hd : (p.field n).type = "dynamic" := by simpa using hd
      rw [hd]
      exact isClassLine_of_margin (a := 'd') (by decide) rfl rfl
    next =>
      rw [append_assoc]
      exact isClassLine_of_breaks (all_eq_true.mp rfl)
        (p.breaks_type n (d := '?') (by decide) (by decide) _)
  copied := by
    intro f hf
    obtain ⟨p, n, rfl⟩ := h.mem_fields hf
    show isClassLine ("    " ++ (c.label (p.field n) ++ ((p.field n).name ++ _))) = false
    rw [label]
    split
    · rw [append_assoc]
      exact isClassLine_of_breaks (all_eq_true.mp rfl)
        (breaks_word (p.regular_field n).name_word (d := ':') (by decide) (by decide) _)
    · rw [p.name_field]
      exact isClassLine_of_name (all_eq_true.mp rfl) _
  entry := fun _ _ => isClassLine_of_margin (b := "    ") (a := '\x27') (by decide) rfl rfl
  argument := by
    intro f hf
    obtain ⟨p, n, rfl⟩ := h.mem_fields hf
    exact isClassLine_of_breaks (b := "    ") (all_eq_true.mp rfl)
      ((Member.breaks_mapArgument c r.mapReading p n).of _)
  listed := by
    intro f hf
    obtain ⟨p, n, rfl⟩ := h.mem_fields hf
    exact isClassLine_of_breaks (b := "    ") (all_eq_true.mp rfl)
      (breaks_word (p.regular_field n).name_word (d := ',') (by decide) (by decide) _)
  comparison := by
    intro f hf e he
    rw [Member.comparison]
    split
    · have hw := Member.isWord_equals c r.flutter f
      show isClassLine ("    " ++ (_ ++ _) ++ e) = false
      rw [append_assoc, append_assoc]
      exact isClassLine_of_breaks (all_eq_true.mp rfl)
        (breaks_word hw (d := '(') (by decide) (by decide) _)
    · exact isClassLine_of_margin (b := "    ") (a := 'o') (by decide) rfl rfl
  hashed := by
    intro f hf b hb e he
    obtain ⟨p, n, rfl⟩ := h.mem_fields hf
    simp only [mem_cons, not_mem_nil, or_false] at hb
    rcases hb with rfl | rfl
    · exact isClassLine_of_margin (b := "  ") (a := 'r') (by decide) rfl rfl
    · rw [Member.code, append_assoc]
      exact isClassLine_of_breaks (all_eq_true.mp rfl)
        (breaks_word (p.regular_field n).name_word (d := '.') (by decide) (by decide) _)

end SourceClass.IsPlain

/-- **Every member has the form of a member**, and its first line begins with its signature. -/
theorem MemberKind.exists_shape {c : SourceClass} {name : Text} {fs : List PlainField}
    (h : c.IsPlain name fs) (r : Request) (k : MemberKind) :
    ∃ i, (k.build r c).Shape (k.signature name) k.isMarked i := by
  refine ⟨k.item r c, k.text_eq h.fields_ne_nil r, ⟨h.regular.isMember r k, fun l hl => ?_⟩,
    h.leads r k⟩
  obtain ⟨j, d, hd⟩ := ((h.regular.memberLines r).lines k).exists_of_mem l hl
  obtain ⟨-, -, hclass⟩ := ((h.no_class_lines r).lines k).exists_of_mem l hl
  exact ⟨d, hd.toTame, hclass⟩

end DartData
