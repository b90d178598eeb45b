import DartData.Proofs.Field.Print
import DartData.Proofs.Scan.Local

/-!
# What a scan knows of its classes

Every class that a scan reports has a head that is not that of a state object, and every field of it
was read from a line that declares one (`scan_declared`).  So the words of its type are proper words
(`Field.IsDeclared.type_words`).
-/

namespace DartData

open List

/-! ## §1. Fields. -/

/-- The field was read from a line that declares one. -/
def Field.IsDeclared (f : Field) : Prop :=
  ∃ className seen line n previous,
    isFieldLine className seen line = true ∧ Field.ofLine? line n previous = some f

namespace FieldReader

/-- What the reader has collected for the type are words of `ws` that are no modifiers. -/
def TypeFrom (ws : List Text) (r : FieldReader) : Prop :=
  ∀ t ∈ r.rawType, ∃ us : List Text, us ≠ [] ∧ t = Text.join " " us
    ∧ ∀ u ∈ us, u ∈ ws ∧ u ≠ [] ∧ u ∉ Field.modifierWords

/-- The type is made of words of the line. -/
theorem TypeFrom.readWord {ws : List Text} {r : FieldReader} (h : r.TypeFrom ws) {w : Text}
    (hw : w ∈ ws) (first : Bool) (next : Option Text) : (r.readWord first w next).TypeFrom ws := by
  unfold FieldReader.readWord
  split
  next => exact h
  next hskip =>
    split
    next => exact h
    next hfinal =>
      split
      next => exact h
      next hlate =>
        split
        next => exact h
        next hconst =>
          split
          next => exact h
          next =>
            -- the word belongs to the type, unless the name has come
            have hnew : w ∈ ws ∧ w ≠ [] ∧ w ∉ Field.modifierWords := by
              refine ⟨hw, fun hnil => by simp [hnil] at hskip, fun hmem => ?_⟩
              simp only [Field.modifierWords, mem_cons, not_mem_nil, or_false] at hmem
              rcases hmem with rfl | rfl | rfl
              · exact hlate (by decide)
              · exact hfinal (by decide)
              · exact hconst (by decide)
            cases ht : r.rawType with
            | none =>
              intro t hmem
              obtain rfl : w = t := Option.some.inj hmem
              exact ⟨[w], by simp, (Text.join_singleton _ w).symm,
                fun u hu => mem_singleton.mp hu ▸ hnew⟩
            | some t =>
              cases hn : r.name with
              | none =>
                intro t' hmem
                obtain ⟨us, hne, hjoin, hus⟩ := h t ht
                obtain rfl : t ++ " " ++ w = t' := Option.some.inj hmem
                refine ⟨us ++ [w], by simp, ?_, fun u hu => ?_⟩
                · rw [hjoin, Text.join_concat hne]
                · rcases mem_append.mp hu with hu | hu
                  · exact hus u hu
                  · exact mem_singleton.mp hu ▸ hnew
              | some n => exact h

theorem TypeFrom.readWords {ws : List Text} (vs : List Text) (r : FieldReader) (first : Bool)
    (hvs : ∀ v ∈ vs, v ∈ ws) (h : r.TypeFrom ws) : (r.readWords first vs).TypeFrom ws := by
  induction vs generalizing r first with
  | nil => exact h
  | cons v vs ih =>
    exact ih _ false (forall_mem_cons.mp hvs).2
      (h.readWord (hvs v mem_cons_self) first vs.head?)

end FieldReader

/-- **The words of a type that was read are no keywords.** -/
theorem Field.IsDeclared.type_words {f : Field} (h : f.IsDeclared) :
    ∀ w ∈ f.rawType.split ' ', w ∉ nonTypes ∧ w ≠ [] := by
  obtain ⟨className, seen, line, n, previous, hline, hf⟩ := h
  -- with a keyword in it the line would be no field
  have hkey : ∀ w ∈ line.trim.split ' ', w ∉ memberKeywords := by
    simp only [isFieldLine, Bool.and_eq_true, Bool.not_eq_true', Text.hasWordOf,
      any_eq_false, contains_iff_mem] at hline
    exact fun w hw hmem => hline.1.1.1.2 w hmem hw
  have hfrom : (FieldReader.readWords {} true (line.trim.split ' ')).TypeFrom
      (line.trim.split ' ') :=
    FieldReader.TypeFrom.readWords _ {} true (fun v hv => hv) (by simp [FieldReader.TypeFrom])
  unfold Field.ofLine? at hf
  dsimp only at hf
  split at hf
  next t name ht hn =>
    rw [Option.some.injEq] at hf
    subst hf
    obtain ⟨us, hne, rfl, hus⟩ := hfrom t ht
    have hsplit : (Text.join [' '] us).split ' ' = us :=
      Text.split_join hne fun u hu => Text.not_mem_of_mem_split (hus u hu).1
    intro w hw
    obtain ⟨hmem, hnil, hmod⟩ := hus w (hsplit ▸ hw)
    refine ⟨fun hno => ?_, hnil⟩
    rcases mem_append.mp hno with hno | hno
    · exact hkey w hmem hno
    · exact hmod ((show ∀ v ∈ ["final".toList, "late".toList, "const".toList],
        v ∈ Field.modifierWords by decide) w hno)
  next => simp at hf

/-! ## §2. Classes. -/

/-- What a scan knows of a class that it reports. -/
structure SourceClass.IsDeclared (c : SourceClass) : Prop where
  not_state : c.head.isState = false
  fields : ∀ f ∈ c.fields, f.IsDeclared

/-- The same of a class that is open.  It is reported only if its head is not that of a state
    object. -/
structure OpenClass.Sound (o : OpenClass) : Prop where
  not_state : o.listed = true → o.found.head.isState = false
  fields : ∀ f ∈ o.found.fields, f.IsDeclared

namespace OpenClass

variable {n : Int} {line : Text} {o : OpenClass} {classLine : Bool}

theorem sound_start (h : start n line = .ok o) : o.Sound := by
  obtain ⟨d, -, h⟩ := bind_eq_ok.mp h
  injection h with h
  subst h
  exact ⟨by simp, by simp⟩

/-- A head that is read again is looked at again. -/
theorem Sound.readHead {o' : OpenClass} (ho : o.Sound) (h : o.readHead n line classLine = .ok o') :
    o'.Sound := by
  rcases readHead_cases h with ⟨-, rfl⟩ | ⟨-, -, rfl⟩ | ⟨-, -, l, d, rfl, hd⟩
  · exact ho
  · exact ⟨ho.not_state, ho.fields⟩
  · refine ⟨fun hl => ?_, ho.fields⟩
    cases classLine with
    | true =>
      obtain ⟨rfl, rfl⟩ := hd
      exact ho.not_state hl
    | false =>
      obtain ⟨-, rfl⟩ := hd
      exact (Bool.not_eq_true' _).mp (Bool.and_eq_true_iff.mp hl).2

/-- What a line reports, and what it leaves open. -/
theorem Sound.read (ho : o.Sound) {previous : Option Text} {done : List SourceClass}
    {next : Option OpenClass} (h : o.read n previous line classLine = .ok (done, next)) :
    (∀ c ∈ done, c.IsDeclared) ∧ ∀ o' ∈ next, o'.Sound := by
  obtain ⟨o₁, p, a, b, t, h₁, -, -, hend⟩ := read_frame h
  have ho₁ : o₁.Sound :=
    Sound.readHead (o := { o with brackets := o.brackets.feed line }) ⟨ho.not_state, ho.fields⟩ h₁
  rcases hend with ⟨-, rfl, rfl⟩ | ⟨-, rfl, fs, hfs, rfl⟩
  · refine ⟨fun c hc => ?_, by simp⟩
    obtain ⟨hl, rfl⟩ := mem_report.mp hc
    exact ⟨ho₁.not_state hl, ho₁.fields⟩
  · refine ⟨by simp, fun o' ho' => ?_⟩
    obtain rfl := Option.some.inj ho'
    refine ⟨ho₁.not_state, fun f hf => ?_⟩
    rcases mem_append.mp hf with hf | hf
    · exact ho₁.fields f hf
    · obtain ⟨name, seen, hline, hf⟩ := hfs f hf
      exact ⟨name, seen, line, n, previous, hline, hf⟩

end OpenClass

/-- **Every class of a scan is declared by its lines.** -/
theorem scan_declared {text : Text} {cs : List SourceClass} (h : scan text = .ok cs) :
    ∀ c ∈ cs, c.IsDeclared :=
  scan_induction (fun ho hl => ⟨ho.not_state hl, ho.fields⟩) OpenClass.sound_start
    (fun ho hread => ho.read hread) h

end DartData
