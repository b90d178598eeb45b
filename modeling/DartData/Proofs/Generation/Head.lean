import DartData.Proofs.Assembly.Head
import DartData.Proofs.Declaration.Brace
import DartData.Proofs.Directives.Requested

/-!
# The declaration in an edit

In the edit of a class the lines of its declaration have given way to one line, which is printed
from what was read of them.  As long as the work on the class has not changed its head, this line is
the text of the declaration exactly if the declaration is in the regular form and nothing follows
its brace (`generate_head_iff`).
-/

namespace DartData

open Text

/-! ## §1. Work that keeps the head. -/

/-- The class `c` has the head of `c₀`, unless the head counts as changed. -/
def SourceClass.KeepsHead (c c₀ : SourceClass) : Prop :=
  c.headChanged = false → c₀.headChanged = false ∧ c.head = c₀.head

namespace Work

variable {r : Request} {c c' : SourceClass} {d d' : Directives}

/-- The tasks one after another keep the head. -/
theorem forM_perform_keepsHead (ts : List Task) {c : SourceClass} {d : Directives}
    (h : (ts.forM (perform r)).run ⟨c, d⟩ = .ok () ⟨c', d'⟩) : c'.KeepsHead c := by
  induction ts generalizing c d with
  | nil =>
    cases h
    exact fun hno => ⟨hno, rfl⟩
  | cons t ts ih =>
    intro hno
    rw [run_forM_cons] at h
    split at h
    next s hs =>
      obtain ⟨hno₁, hhead⟩ := ih h hno
      obtain ⟨hno₀, hhead₀⟩ := (perform_needs hs).2.2.2 hno₁
      exact ⟨hno₀, hhead.trans hhead₀⟩
    next => cases h

end Work

/-! ## §2. The lines of a declaration. -/

/-- The head of a complete class is read from the lines of the file on which its declaration
    stands. -/
theorem scan_head_span {text : Text} {cs : List SourceClass} (h : scan text = .ok cs)
    {c : SourceClass} (hc : c ∈ cs) {s k l : Int} (hs : c.first = some s)
    (hk : c.headLast = some k) (hl : c.last = some l) (hst : c.Stands text.lines s k l) :
    c.head.ReadFrom (span text.lines s k) := by
  obtain ⟨s', us, line, rest, hs', hlines, -, hk', hread⟩ := scan_head h hc (by simp [hl])
  rw [hs, Option.some.injEq] at hs'
  rw [hk, Option.some.injEq] at hk'
  subst hs' hk'
  obtain ⟨s', hs', hcontent, -⟩ := scan_depth h hc hl
  rw [hs, Option.some.injEq] at hs'
  subst hs'
  have hspan := @span_span text.lines s l 0 us.length hst.one_le_first hst.headLast_le
  rw [← hcontent, hlines, List.take_length_add_append, List.drop_zero,
    show s + ((0 : Nat) : Int) = s from Int.add_zero s] at hspan
  rw [← hspan]
  exact hread

/-! ## §3. Edits. -/

/-- **The declaration is reproduced exactly if it is in the regular form and nothing follows its
    brace.**  In the edit of a class whose head was not changed, one line stands for the lines of
    the declaration, with the brace at its end, and in front of what stands for the lines below. -/
theorem generate_head_iff {text : Text} {r : Request} (hr : r.category ≠ some .jsonSerializable)
    {g : Generation} (h : generate text r = .ok g) {e : ClassEdit} (he : e ∈ g.edits.classes) :
    ∃ c ∈ g.classes, e = c.edit e.text ∧ (c.headChanged = false →
      ∃ (s k l : Int) (body : Text), c.first = some s ∧ c.headLast = some k ∧ c.last = some l
        ∧ c.assembleFrom (span text.lines s l) s l (k - s + 1).toNat (span text.lines (k + 1) l)
          = .ok body
        ∧ e.text = (c.declarationLine ++ " \x7b".toList ++ '\n' :: body).removeEnd "\n"
        ∧ ∀ after, afterBrace? 0 (headText (span text.lines s k)) = some after →
          Declaration.NamedWords c.isAbstract (declarationWords (headText (span text.lines s k))) →
          (sameUpToBlanks (c.declarationLine ++ " \x7b".toList)
            (unlines (span text.lines s k)) = true
            ↔ Declaration.HeadWords c.isAbstract
                (declarationWords (headText (span text.lines s k)))
              ∧ after.squeeze = [])) := by
  obtain ⟨cs, hcs, hrev⟩ := generate_yields h
  obtain ⟨c₀, hc₀, c, hc, hv, ⟨d, d', hyields⟩, hkeeps⟩ := hrev.mem_edits he
  rw [Request.work, if_neg (by simpa using hr)] at hyields
  obtain ⟨hperform, hedit⟩ := Work.revise_eq_ok hyields
  obtain ⟨new, hnew, rfl⟩ := hedit e rfl
  refine ⟨c, hc, rfl, fun hno => ?_⟩
  -- work that does not note a change of the head has kept it
  obtain ⟨-, hhead⟩ := Work.forM_perform_keepsHead (r.plan c₀) hperform hno
  obtain ⟨s, -, hrep⟩ := (scan_laid hcs).2 c₀ hc₀
  obtain ⟨l, hl⟩ := SourceClass.exists_last hv
  obtain ⟨k, hk, hst⟩ := hrep.stands l hl
  have hone := hst.one_le_first
  have hsk := hst.first_le
  have hkl := hst.headLast_le
  obtain ⟨_, c₁, d₁, hrun, -, -, hworkable⟩ :=
    Work.forM_perform_keeps r (r.plan c₀) (hrep.workable hv) d
  obtain ⟨rfl, rfl⟩ : c₁ = c ∧ d₁ = d' := by
    have := hrun.symm.trans hperform
    simpa using this
  have hasm := hst.assembles hkeeps hworkable hrep.first_eq hk hl
  obtain ⟨headLine, body, hline, hbody, -, hout⟩ := hasm.assemble_eq
  -- the declaration ends on the line with the brace, so the new one gets a brace too
  have hbrace : headLine.has "\x7b" = true :=
    has_singleton_iff.mpr (scan_head_line hcs hc₀ (by simp [hl]) hrep.first_eq hk
      (by rw [← hline, ← hasm.lines_eq, hkeeps.content_eq]))
  have hdrop : (span text.lines s l).drop (k - s + 1).toNat = span text.lines (k + 1) l := by
    rw [span, span, List.drop_drop]
    congr 1
    omega
  rw [hdrop] at hbody
  refine ⟨s, k, l, body, hasm.first_eq, hasm.headLast_eq, hasm.last_eq, hbody, ?_, ?_⟩
  · have := hnew.symm.trans hout
    rw [SourceClass.newHead, if_pos hbrace, Except.ok.injEq] at this
    exact this
  · intro after hafter hnamed
    have hread := scan_head_span hcs hc₀ hrep.first_eq hk hl hst
    rw [← hhead] at hread
    exact hread.reprinted_iff hworkable.name_some hafter hnamed

/-- A declaration on three lines. -/
theorem generate_head_three_lines :
    ∃ g e c body, generate "class A<T>\n    extends B<T>\n    with C, D \x7b\n  int x;\n\x7d"
          { category := some .constructor } = .ok g
      ∧ e ∈ g.edits.classes ∧ c ∈ g.classes ∧ c.headChanged = false
      ∧ e.text = (c.declarationLine ++ " \x7b".toList ++ '\n' :: body).removeEnd "\n"
      ∧ sameUpToBlanks (c.declarationLine ++ " \x7b".toList)
        "class A<T>\n    extends B<T>\n    with C, D \x7b" = true := by
  obtain ⟨text, htext⟩ : ∃ t : Text,
      t = "class A<T>\n    extends B<T>\n    with C, D \x7b\n  int x;\n\x7d".toList := ⟨_, rfl⟩
  have hrun : (generate text { category := some .constructor }).toOption.any (fun g =>
      g.edits.classes.length == 1 && g.classes.all fun c =>
        !c.headChanged && !c.isAbstract && c.first == some 1 && c.headLast == some 3) = true := by
    subst htext
    decide +kernel
  have hlines : span text.lines 1 3
      = ["class A<T>".toList, "    extends B<T>".toList, "    with C, D \x7b".toList] := by
    subst htext
    decide +kernel
  rw [← htext]
  cases hg : generate text { category := some .constructor } with
  | error f => simp [hg, Except.toOption] at hrun
  | ok g =>
      simp only [hg, Except.toOption, Option.any_some, Bool.and_eq_true, beq_iff_eq,
        List.all_eq_true, Bool.not_eq_true'] at hrun
      obtain ⟨e, he⟩ := List.exists_mem_of_length_pos (l := g.edits.classes) (by omega)
      obtain ⟨c, hc, -, hhead⟩ := generate_head_iff (by decide) hg he
      obtain ⟨⟨⟨hno, habstract⟩, hfirst⟩, hlast⟩ := hrun.2 c hc
      obtain ⟨s, k, l, body, hs, hk, -, -, hnew, hiff⟩ := hhead hno
      obtain rfl : s = 1 := Option.some.inj (hs.symm.trans hfirst)
      obtain rfl : k = 3 := Option.some.inj (hk.symm.trans hlast)
      rw [hlines, habstract] at hiff
      have hwords : declarationWords (headText
          ["class A<T>".toList, "    extends B<T>".toList, "    with C, D \x7b".toList])
          = Declaration.classWords false ++ "A<T>".toList :: (["extends".toList, "B<T>".toList]
            ++ (["with".toList, "C,".toList, "D".toList] ++ [])) := by decide +kernel
      refine ⟨g, e, c, body, rfl, he, hc, hno, hnew, (hiff [] (by decide +kernel)
        ⟨_, _, hwords, by decide⟩).mpr
          ⟨⟨_, _, _, _, hwords, by decide, by decide, ?_, ?_, ?_⟩, rfl⟩⟩
      · exact Or.inr ⟨_, rfl, by decide⟩
      · exact Or.inr ⟨_, rfl, by decide, by decide, by decide⟩
      · exact Or.inl rfl

/-- What is written after the brace is lost, and so is a comment in front of it. -/
theorem generate_loses_note :
    (generate "class A \x7b // note\n  int x;\n\x7d" { category := some .constructor }).toOption.map
          (fun g => (g.classes.map SourceClass.headChanged, g.edits.classes.map ClassEdit.text))
        = some ([false],
          ["class A \x7b\n  int x;\n\n  A(\x7b\n    required this.x,\n  \x7d);\n\x7d".toList])
      ∧ (generate "class A /* note */ \x7b\n  int x;\n\x7d"
        { category := some .constructor }).toOption.map
          (fun g => (g.classes.map SourceClass.headChanged, g.edits.classes.map ClassEdit.text))
        = some ([false],
          ["class A \x7b\n  int x;\n\n  A(\x7b\n    required this.x,\n  \x7d);\n\x7d".toList]) := by
  decide +kernel

end DartData
