import DartData.Proofs.Constructor.Opening
import DartData.Proofs.Declaration.Brace

/-!
# The constructor and the name of a class

The scanner takes a line for the beginning of the constructor if the name of the class and a round
bracket stand on it.  So the text of every constructor that it finds begins with the name
(`scan_introduced`): the name does not change once the body is open, and what is collected later is
added at the end.

The name itself is the beginning of a word of the declaration (`scan_name`), so it begins with no
blank and has no line feed.
-/

namespace DartData

open List Text

/-! ## §1. The text of the constructor. -/

/-- A constructor was seen, and its text begins with the name of the class. -/
def SourceClass.ConstructorSeen (c : SourceClass) : Prop :=
  c.constructorFirst.isSome = true ∧ ∃ name t isConst rest, c.head.name = some name
    ∧ c.constructorText = some t ∧ OpensList name t isConst rest

/-- No constructor was seen, or it begins with the name. -/
def SourceClass.Introduced (c : SourceClass) : Prop :=
  (c.constructorFirst = none ∧ c.constructorText = none) ∨ c.ConstructorSeen

namespace OpenClass

/-- The same of a class that is open: in its head there is no constructor, and outside of the body
    none begins. -/
structure Introduces (o : OpenClass) : Prop where
  flat : o.HeadFlat
  seen : (o.phase ≠ .constructor ∧ o.found.constructorFirst = none ∧ o.found.constructorText = none)
    ∨ (o.phase ≠ .head ∧ o.found.ConstructorSeen)

variable {o : OpenClass} {n : Int} {line : Text} {classLine : Bool}

theorem Introduces.introduced (h : o.Introduces) : o.found.Introduced :=
  h.seen.imp And.right And.right

theorem introduces_start (h : start n line = .ok o) : o.Introduces := by
  obtain ⟨d, -, h⟩ := bind_eq_ok.mp h
  injection h with h
  subst h
  exact ⟨fun _ => Int.le_refl 0, .inl ⟨by simp, rfl, rfl⟩⟩

/-- The lines of the constructor are added at its end. -/
theorem constructor_steps_introduce {o₂ : OpenClass} {depth : Int}
    (h : (o.phase ≠ .constructor ∧ o.found.constructorFirst = none ∧ o.found.constructorText = none)
      ∨ o.found.ConstructorSeen)
    (ho : o₂ = (o.enterConstructor n depth line classLine).readConstructor n line) :
    (o₂.phase ≠ .constructor ∧ o₂.found.constructorFirst = none ∧ o₂.found.constructorText = none)
      ∨ o₂.found.ConstructorSeen := by
  rcases h with ⟨hp, hfirst, htext⟩ | ⟨hfirst, name, t, isConst, rest, hname, ht, hopens⟩
  · by_cases he : (!classLine && o.beginsConstructor depth line)
    · -- the constructor begins here
      right
      rw [enterConstructor, if_pos he, readConstructor, if_pos rfl] at ho
      simp only [htext, Option.getD_none, nil_append] at ho
      rw [Bool.and_eq_true, beginsConstructor, Bool.and_eq_true, Option.any_eq_true] at he
      obtain ⟨name, hname, hstarts⟩ := he.2.2
      obtain ⟨isConst, rest, hopens⟩ := exists_opensList hstarts
      split at ho
      · subst ho
        exact ⟨rfl, name, line, isConst, rest, hname, rfl, hopens⟩
      · subst ho
        exact ⟨rfl, name, _, isConst, _, hname, rfl, hopens.append ['\n']⟩
    · left
      rw [enterConstructor, if_neg he, readConstructor_of_phase hp] at ho
      subst ho
      exact ⟨hp, hfirst, htext⟩
  · right
    obtain ⟨a, ha⟩ := Option.isSome_iff_exists.mp hfirst
    rw [enterConstructor_of_seen ha, readConstructor] at ho
    simp only [ht, Option.getD_some] at ho
    split at ho
    · split at ho
      · subst ho
        exact ⟨hfirst, name, _, isConst, _, hname, rfl, hopens.append line⟩
      · subst ho
        exact ⟨hfirst, name, _, isConst, _, hname, rfl, (hopens.append line).append ['\n']⟩
    · subst ho
      exact ⟨hfirst, name, t, isConst, rest, hname, ht, hopens⟩

/-- What a line reports, and what it leaves open. -/
theorem Introduces.read (ho : o.Introduces) {previous : Option Text} {done : List SourceClass}
    {next : Option OpenClass} (h : o.read n previous line classLine = .ok (done, next)) :
    (∀ c ∈ done, c.Introduced) ∧ ∀ o' ∈ next, o'.Introduces := by
  obtain ⟨-, hflat⟩ := openHead_of_read ho.flat h
  obtain ⟨o₁, o₂, h₁, ho₂, hend⟩ := read_cases h
  have hseen : (o₂.phase ≠ .constructor ∧ o₂.found.constructorFirst = none
      ∧ o₂.found.constructorText = none) ∨ (o₂.phase ≠ .head ∧ o₂.found.ConstructorSeen) := by
    -- in the head no constructor was seen, and none begins at this depth
    have hhead : ∀ hp : o.phase = .head, o.found.constructorFirst = none
        ∧ o.found.constructorText = none ∧ o.brackets.curly ≠ 1 := by
      intro hp
      have hcurly := ho.flat hp
      rcases ho.seen with ⟨-, hnone⟩ | ⟨hbody, -⟩
      · exact ⟨hnone.1, hnone.2, by omega⟩
      · exact absurd hp hbody
    rcases readHead_cases h₁ with ⟨hp, rfl⟩ | ⟨hp, -, rfl⟩ | ⟨hp, -, l, d, rfl, -⟩
    · obtain ⟨p, a, b, t, hframe, hphase⟩ := constructor_steps_frame
        { o with brackets := o.brackets.feed line } n o.brackets.curly line classLine
      have hbody : o₂.phase ≠ .head := by
        rw [ho₂, hframe]
        exact hphase hp
      have hsteps := constructor_steps_introduce (o := { o with brackets := o.brackets.feed line })
        (ho.seen.imp_right And.right) ho₂
      exact hsteps.imp_right (⟨hbody, ·⟩)
    · obtain ⟨hfirst, htext, hdepth⟩ := hhead hp
      have hp : o.phase = .head := hp
      rw [enterConstructor_of_depth hdepth, readConstructor_of_phase (by simp [hp])] at ho₂
      subst ho₂
      exact .inl ⟨by simp [hp], hfirst, htext⟩
    · obtain ⟨hfirst, htext, hdepth⟩ := hhead hp
      rw [enterConstructor_of_depth hdepth, readConstructor_of_phase (by simp)] at ho₂
      subst ho₂
      exact .inl ⟨by simp, hfirst, htext⟩
  rcases hend with ⟨-, rfl, rfl⟩ | ⟨-, rfl, rfl⟩
  · refine ⟨fun c hc => ?_, by simp⟩
    obtain ⟨-, rfl⟩ := mem_report.mp hc
    exact hseen.imp And.right And.right
  · refine ⟨by simp, fun o' ho' => ⟨hflat o' ho', ?_⟩⟩
    obtain ⟨fs, hfields, -⟩ := readField_cases (o₂.keepLine line) n previous line classLine
    rw [Option.mem_some.mp ho'.symm, hfields]
    exact hseen

end OpenClass

/-- **The text of every constructor that a scan finds begins with the name of its class.** -/
theorem scan_introduced {text : Text} {cs : List SourceClass} (h : scan text = .ok cs) :
    ∀ c ∈ cs, c.Introduced :=
  scan_induction (fun ho _ => ho.introduced) OpenClass.introduces_start
    (fun ho hread => ho.read hread) h

/-! ## §2. The name. -/

/-- A text that begins with something else than a blank, all on one line. -/
def Text.IsSolid (t : Text) : Prop := (∃ c r, t = c :: r ∧ isBlank c = false) ∧ '\n' ∉ t

theorem Text.isSolid_trim {t : Text} (hne : t.trim ≠ []) (hline : '\n' ∉ t) : t.trim.IsSolid := by
  refine ⟨?_, fun hmem => hline ((trim_sublist t).subset hmem)⟩
  have hstart : t.trimStart ≠ [] := by
    intro hnil
    refine hne ?_
    rw [trim, hnil]
    rfl
  obtain ⟨c, r, hr⟩ := exists_cons_of_ne_nil hstart
  obtain ⟨r', hr'⟩ := head?_eq_some_iff.mp (head?_trim hr)
  exact ⟨c, r', hr', not_blank_of_trimStart_eq_cons hr⟩

/-- The words of a declaration on one line. -/
theorem isSolid_of_mem_declarationWords {line : Text} (h : '\n' ∉ line) :
    ∀ w ∈ declarationWords line, w.IsSolid := by
  have hmem : ∀ {t : Text}, (∀ c ∈ t, c ≠ '\n') → '\n' ∉ t := fun h hm => h _ hm rfl
  refine forall_mem_go (Q := (· ≠ '\n')) (fun word hword hne => isSolid_trim hne (hmem hword)) ?_
    line [] [] 0 (by simp) (by simp) fun c hc he => h (he ▸ hc)
  rintro w word hword ⟨⟨c, r, rfl, hc⟩, hw⟩
  refine ⟨⟨c, r ++ word.trim, rfl, hc⟩, ?_⟩
  exact List.not_mem_append hw (fun hm => hmem hword ((trim_sublist word).subset hm))

/-- The name of a class ends where its type parameters begin. -/
theorem not_mem_of_splitClassName {word : Text} {x : Text × Option Text}
    (h : splitClassName word = .ok x) : '<' ∉ x.1 := by
  by_cases hmem : '<' ∈ word
  · obtain ⟨a, b, rfl, ha⟩ := eq_append_cons_of_mem hmem
    have hcut : cut? (a ++ ("<" ++ b)) "<" = some (a, b) := by
      rw [cut?_append_of_not_mem (p := "<") (c := '<') rfl ha, cut?_append_self (by decide)]
      simp
    have h : splitClassName (a ++ ("<" ++ b)) = .ok x := h
    rw [splitClassName, hcut] at h
    dsimp only at h
    split at h
    · cases h
      exact ha
    · cases h
  · rw [splitClassName, cut?_eq_none (has_eq_false_of_not_mem (c := '<') (by decide) hmem)] at h
    cases h
    exact hmem

/-- The text is the name in a word on one line. -/
def NamedBy (name w : Text) : Prop :=
  w.IsSolid ∧ ∃ generics, splitClassName w = .ok (name, generics)

namespace Declaration

/-- The name is that in a word. -/
theorem name_of_readWords (ws : List Text) :
    ∀ {d d' : Declaration} {r : DeclarationReader}, d.readWords r ws = .ok d' →
      ∀ name, d'.name = some name → d.name = some name
        ∨ ∃ w ∈ ws, ∃ generics, splitClassName w = .ok (name, generics) := by
  induction ws with
  | nil =>
    intro d d' r h name hname
    cases h
    exact .inl hname
  | cons w ws ih =>
    intro d d' r h name hname
    obtain ⟨d₁, r₁, hword, hrest⟩ := readWords_cons h
    rcases ih hrest name hname with hname | ⟨v, hv, hsplit⟩
    · -- only the word after `class` changes the name
      rcases readWord_cases hword with ⟨-, rfl, -⟩ | ⟨-, rfl, -⟩ | ⟨-, rfl, -⟩ | ⟨-, hcases⟩
      · exact .inl hname
      · exact .inl hname
      · exact .inl hname
      · rcases hcases with ⟨-, rfl, -⟩ | ⟨-, rfl, -⟩ | ⟨-, n, generics, hsplit, rfl, -⟩
          | ⟨-, -, rfl, -⟩ | ⟨l, -, -, rfl, -⟩
        · exact .inl hname
        · exact .inl hname
        · cases hname
          exact .inr ⟨w, mem_cons_self, generics, hsplit⟩
        · exact .inl hname
        · cases l <;> exact .inl hname
    · exact .inr ⟨v, mem_cons_of_mem _ hv, hsplit⟩

/-- The name of a class that is read from lines is that in a word. -/
theorem ReadFrom.exists_word {d : Declaration} {ls : List Text} {name : Text} (h : d.ReadFrom ls)
    (hls : ∀ l ∈ ls, '\n' ∉ l) (hname : d.name = some name) :
    ∃ w, NamedBy name w := by
  have hread : ∀ {d d' : Declaration} {line : Text}, d.read line = .ok d' → '\n' ∉ line →
      d'.name = some name → d.name = some name ∨ ∃ w, NamedBy name w := by
    intro d d' line h hline hname
    rcases name_of_readWords _ h name hname with hname | ⟨w, hw, hsplit⟩
    · exact .inl hname
    · exact .inr ⟨w, isSolid_of_mem_declarationWords hline w hw, hsplit⟩
  match ls, h with
  | [line], h => exact (hread h (hls line mem_cons_self) hname).resolve_left (by simp)
  | line :: more :: rest, ⟨d₀, h₀, h⟩ =>
    -- the class line is read alone first, then once more with the lines below it
    have hjoin : '\n' ∉ join " " ((line :: more :: rest).map trim) := by
      intro hmem
      rcases mem_join hmem with hmem | ⟨t, ht, hmem⟩
      · revert hmem
        decide
      · obtain ⟨l, hl, rfl⟩ := mem_map.mp ht
        exact hls l hl ((trim_sublist l).subset hmem)
    rcases hread h hjoin hname with hname | hword
    · exact (hread h₀ (hls line mem_cons_self) hname).resolve_left (by simp)
    · exact hword

end Declaration

variable {text : Text} {cs : List SourceClass} {c : SourceClass} {name : Text}

theorem scan_named (h : scan text = .ok cs) (hc : c ∈ cs) (hlast : c.last ≠ none)
    (hname : c.head.name = some name) : ∃ w, NamedBy name w := by
  obtain ⟨s, us, l, rest, -, hlines, -, -, hread⟩ := scan_head h hc hlast
  refine hread.exists_word (fun m hm => ?_) hname
  refine not_mem_of_mem_lines (t := c.content) ?_
  rw [hlines, append_cons]
  exact mem_append_left rest hm

/-- **The name of a complete class begins with no blank and has no line feed.** -/
theorem scan_name (h : scan text = .ok cs) (hc : c ∈ cs) (hlast : c.last ≠ none)
    (hname : c.head.name = some name) :
    (∀ e, (name ++ ['(']).head? = some e → isBlank e = false) ∧ '\n' ∉ name := by
  obtain ⟨w, ⟨⟨d, r, rfl, hd⟩, hline⟩, generics, hsplit⟩ := scan_named h hc hlast hname
  obtain ⟨lost, hw, -⟩ := Declaration.splitClassName_lost hsplit
  have hpre : name <+: d :: r := hw ▸ prefix_append _ _
  refine ⟨fun e he => ?_, fun hmem => hline (hpre.subset hmem)⟩
  cases name with
  | nil =>
    cases he
    decide
  | cons a n =>
    cases he
    rw [(cons_prefix_cons.mp hpre).1]
    exact hd

end DartData
