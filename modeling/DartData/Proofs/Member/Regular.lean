import DartData.Proofs.Member.Layout
import DartData.Proofs.Member.Piece
import DartData.Proofs.Text.Nested

/-!
# Members of regular classes

A class is regular if its name and those of its fields are words and its types are written with the
characters of types.  All lines of its members are legible, so each member is one item whose
brackets are those of its text, and it begins with its signature.
-/

namespace DartData

open List Text

/-! ## §1. Regular classes. -/

theorem Text.mem_of_mem_before {t p : Text} {x : Char} (h : x ∈ t.before p) : x ∈ t := by
  rw [before] at h
  cases hc : t.cut? p with
  | none => simpa [hc] using h
  | some q =>
    rw [hc] at h
    exact (cut?_sublist hc).subset (mem_append_left _ h)

/-- Type parameters and the type arguments made of them have the same characters. -/
theorem Declaration.forall_mem_typeArguments {d : Declaration}
    (h : ∀ x ∈ d.generics, isRawTypeChar x) : ∀ x ∈ d.typeArguments, isRawTypeChar x := by
  have hfixed : ∀ t ∈ ["<".toList, ", ".toList, ">".toList], t.all isRawTypeChar := by decide
  intro x hx
  rw [typeArguments] at hx
  split at hx
  · exact absurd hx not_mem_nil
  rw [mem_append, mem_append] at hx
  rcases hx with (hx | hx) | hx
  · exact List.all_eq_true.mp (hfixed _ (by decide)) x hx
  · rcases mem_join hx with hx | ⟨t, ht, hx⟩
    · exact List.all_eq_true.mp (hfixed _ (by decide)) x hx
    · obtain ⟨p, hp, rfl⟩ := mem_map.mp ht
      have hx := subset_of_mem_splitTopLevel _ p hp (mem_of_mem_before ((trim_sublist _).subset hx))
      exact h x ((trim_sublist _).subset (mem_of_mem_drop ((dropLast_sublist _).subset hx)))
  · exact List.all_eq_true.mp (hfixed _ (by decide)) x hx

namespace SourceClass

/-- A class whose types have the characters of types, and whose names are words. -/
structure Regular (c : SourceClass) : Prop where
  name : ∃ n, c.head.name = some n ∧ n ≠ [] ∧ n.all isWord = true
  generics : ∀ x ∈ c.head.generics, isRawTypeChar x = true
  fields : ∀ f ∈ c.fields, f.Regular
  fields_ne : c.fields ≠ []

namespace Regular

variable {c : SourceClass}

theorem shownName_word (h : c.Regular) : c.shownName.all isWord := by
  obtain ⟨n, hn, -, hw⟩ := h.name
  simpa [shownName, Declaration.shownName, hn] using hw

theorem legible_name (h : c.Regular) : Legible c.shownName 0 0 := legible_word h.shownName_word

theorem legible_type (h : c.Regular) : Legible c.type 0 0 := by
  obtain ⟨n, hn, -, hw⟩ := h.name
  have hname : Legible (c.head.name.getD []) 0 0 := by
    rw [hn]
    exact legible_word hw
  exact hname.and (legible_flat (Declaration.forall_mem_typeArguments h.generics))

end Regular

end SourceClass

/-! ## §2. Pieces of lines. -/

theorem Member.isWord_equalsHelper {c : SourceClass} {flutter : Bool} {t : Text}
    (h : t ∈ equalsHelper c flutter) : t.all isWord := by
  unfold equalsHelper at h
  dsimp only at h
  split at h
  · simp at h
  · rw [← Option.some.inj h]
    unfold localEquals
    repeat' split
    all_goals decide

/-- The function that compares collections is a word. -/
theorem Member.isWord_equals (c : SourceClass) (flutter : Bool) (f : Field) :
    ((equalsHelper c flutter).getD (flutterEquals f)).all isWord := by
  cases hh : equalsHelper c flutter with
  | none =>
    rw [Option.getD_none, flutterEquals]
    repeat' split
    all_goals decide
  | some t => exact isWord_equalsHelper hh

namespace SourceClass.Regular

variable {c : SourceClass} {r : Request} {k : MemberKind}

theorem legible_codes (h : c.Regular) : ∀ t ∈ c.fields.map Member.code, Legible t 0 0 :=
  forall_mem_map.mpr fun f hf => (h.fields f hf).measures.name.and (legible_code rfl rfl)

/-- The literal that `toString` returns. -/
theorem legible_shown (h : c.Regular) : Legible (Lexer.quoted ' ' (Member.shownFields c)) 0 0 := by
  have happend : ∀ {t u : Text}, t.all isQuotable → u.all isQuotable → (t ++ u).all isQuotable := by
    intro t u ht hu
    rw [all_append, ht, hu, Bool.and_self]
  have hfields : (join ", " (c.fields.map fun f => of [f.name, ": $", f.name])).all
      isQuotable := by
    refine forall_join (P := fun t => t.all isQuotable) rfl happend rfl
      (forall_mem_map.mpr fun f hf => ?_)
    have hname := quotable_word (h.fields f hf).name_word
    exact happend hname (happend (t := ": $") rfl (happend (u := []) hname rfl))
  exact legible_quoted (.inl rfl) (happend (quotable_word h.shownName_word)
    (happend (t := "(") rfl (happend hfields rfl)))

theorem legible_start (h : c.Regular) (k : MemberKind) : Legible (k.start c) 0 k.opens := by
  cases k with
  | copyWith => exact h.legible_type.append (legible_code (k := 0) (j := 1) rfl rfl)
  | fromMap | fromJson => exact .weigh (.text rfl (.cons h.legible_name (.text rfl .nil))) rfl
  | _ => exact legible_code rfl rfl

theorem legible_opening (h : c.Regular) (k : MemberKind) : Legible (k.opening c) 1 0 := by
  cases k with
  | equality =>
    have hrest : Legible (of [c.type, " other) \x7b"]) 1 (0 + -1) :=
      .cons h.legible_type (legible_code rfl rfl)
    exact .weigh (.text rfl hrest) rfl
  | _ => exact legible_code rfl rfl

/-- The value of an arrow member is closed code. -/
theorem legible_value (h : c.Regular) {e : Text} (he : k.value? r c = some e) : Legible e 0 0 := by
  cases k with
  | toJson | stringify => exact Option.some.inj he ▸ legible_code rfl rfl
  | fromJson =>
    rw [← Option.some.inj he]
    exact .weigh (.text rfl (.cons h.legible_name (.text rfl .nil))) rfl
  | toString =>
    obtain ⟨-, he⟩ := Option.ite_none_right_eq_some.mp he
    exact Option.some.inj he ▸ h.legible_shown
  | hashCode =>
    obtain ⟨-, he⟩ := Option.ite_none_right_eq_some.mp he
    have hcodes : Legible (join " ^ " (c.fields.map Member.code)) 0 0 :=
      forall_join legible_nil .and (legible_code rfl rfl) h.legible_codes
    rw [← Option.some.inj he]
    exact (legible_code (t := [' ']) rfl rfl).and hcodes
  | props =>
    obtain ⟨-, he⟩ := Option.ite_none_right_eq_some.mp he
    have hnames : Legible (join ", " (c.fields.map Field.name)) 0 0 :=
      forall_join (P := (Legible · 0 0)) legible_nil .and (legible_code rfl rfl)
        (forall_mem_map.mpr fun f hf => (h.fields f hf).measures.name)
    rw [← Option.some.inj he]
    exact .weigh (.text rfl (.cons hnames (.text rfl .nil))) rfl
  | _ => cases he

/-! ## §3. Lines. -/

/-- **All lines of members of regular classes are legible.** -/
theorem memberLines (h : c.Regular) (r : Request) : MemberLines Legible r c where
  fixed := by
    have hall : ∀ p ∈ fixedLines, (p.1.all isTame
        && ((p.1.count '{' : Int) - p.1.count '}' == p.2.1)) ∧ p.1.rounds = p.2.2 := by decide
    exact fun p hp => legible_code (hall p hp).1 (hall p hp).2
  block := fun k => .weigh ((h.legible_start k).append (h.legible_opening k)) (Int.add_zero _)
  arrow := fun k e he => by
    have hopens : k.opens = 0 := if_neg (by rintro rfl; cases he)
    exact (hopens ▸ h.legible_start k).and ((legible_code rfl rfl).and
      ((h.legible_value he).and (legible_code rfl rfl)))
  returned := .weigh (.text rfl (.cons h.legible_type (.text rfl .nil))) rfl
  shown := (legible_code rfl rfl).and (h.legible_shown.and (legible_code rfl rfl))
  helper := fun t ht =>
    .weigh (.text rfl (.cons (legible_word (Member.isWord_equalsHelper ht)) (.text rfl .nil))) rfl
  parameter := by
    intro f hf
    have hf := (h.fields f hf).measures
    have htype : Legible (Member.optionalType f.type) 0 0 := by
      rw [Member.optionalType]
      split
      · exact hf.type
      · exact hf.type.and (legible_code rfl rfl)
    exact .weigh (.text rfl (.cons htype (.text rfl (.cons hf.name (.text rfl .nil))))) rfl
  copied := by
    intro f hf
    have hf := (h.fields f hf).measures
    exact .weigh (.text rfl (.cons (hf.label c) (.cons hf.name (.text rfl
      (.cons hf.name (.text rfl .nil)))))) rfl
  entry := by
    intro f hf
    have hf := h.fields f hf
    have heq : Member.entryLine f = "   " ++ (Lexer.quoted ' ' f.sourceName
        ++ of [": ", Member.storedValue f, ","]) := by
      simp [Member.entryLine, of, Lexer.quoted]
    have hvalue : Legible (of [": ", Member.storedValue f, ","]) 0 0 :=
      .weigh (.text rfl (.cons hf.measures.storedValue (.text rfl .nil))) rfl
    rw [heq]
    exact (legible_code rfl rfl).and ((legible_quoted (.inl rfl)
      (quotable_of_not_mem hf.not_mem_sourceName)).and hvalue)
  -- these lines alone may close brackets that were not opened
  argument := by
    intro f hf
    have hargument := (h.fields f hf).measures.mapArgument c r.mapReading
    exact .weigh (.text rfl (.cons hargument (.text rfl .nil)))
      ((Int.zero_add _).trans (Int.add_zero _))
  listed :=
    fun f hf => .weigh (.text rfl (.cons (h.fields f hf).measures.name (.text rfl .nil))) rfl
  comparison := by
    intro f hf e he
    have hname := (h.fields f hf).measures.name
    have he : Legible e 0 0 := by
      simp only [mem_cons, not_mem_nil, or_false] at he
      rcases he with rfl | rfl <;> exact legible_code rfl rfl
    refine Legible.and ?_ he
    rw [Member.comparison]
    split
    · exact .weigh (.text rfl (.cons (legible_word (Member.isWord_equals c r.flutter f)) (.text rfl
        (.cons hname (.text rfl (.cons hname (.text rfl .nil))))))) rfl
    · exact .weigh (.text rfl (.cons hname (.text rfl (.cons hname .nil)))) rfl
  hashed := by
    intro f hf b hb e he
    have hcode := h.legible_codes _ (mem_map_of_mem hf)
    simp only [mem_cons, not_mem_nil, or_false] at hb he
    rcases hb with rfl | rfl <;> rcases he with rfl | rfl <;>
      exact (legible_code rfl rfl).and (hcode.and (legible_code rfl rfl))

theorem isMember (h : c.Regular) (r : Request) (k : MemberKind) : (k.item r c).IsMember :=
  (h.memberLines r).isMember (fun hl => hl.adds) k

end SourceClass.Regular

end DartData
