import DartData.Proofs.Generation.Edits

/-!
# When generation succeeds

Whatever stands in a file, generation fails for one reason only: a declaration opens the type
parameters of its name and does not close them.  In every other file the classes for which nothing
can be generated are reported, in order, and work on all the others ends well.

`declarations` and `leavesNameOpen` say which files these are without a word about classes.
-/

namespace DartData

/-- **Generation fails exactly at a name that is left open.**  If there is none, the issues are
    those of the classes that are not valid, in order, and each valid class is worked on. -/
theorem generate_outcome_by_names (text : Text) (r : Request) (hf : r.fileName.getD [] ≠ []) :
    ((declarations text).any leavesNameOpen = true → generate text r = .error .unclosedGenerics)
      ∧ ((declarations text).any leavesNameOpen = false →
        ∃ (cs : List SourceClass) (g : Generation), scan text = .ok cs ∧ generate text r = .ok g
          ∧ g.issues = (cs.filter fun c => !c.isValid).map SourceClass.issue
          ∧ Revised (r.work text).Yields cs g.classes g.edits.classes) := by
  constructor
  · intro hopen
    exact generate_of_error (scan_eq_error.mpr ⟨rfl, hopen⟩) r
  · intro hclosed
    cases hs : scan text with
    | error f =>
        -- the scan has no other way to fail
        have hopen := (scan_eq_error.mp hs).2
        rw [hclosed] at hopen
        exact absurd hopen Bool.false_ne_true
    | ok cs =>
        have hname : (r.fileName.getD []).isEmpty = false := by
          rw [List.isEmpty_eq_false_iff]
          exact hf
        obtain ⟨g, -, hg, hissues, -, -, hrev⟩ := generate_of_scan hs (r := r) fun _ => hname
        exact ⟨cs, g, rfl, hg, hissues, hrev.imp fun h => h.1⟩

/-- A class without fields is reported, and the one below it is worked on. -/
theorem generate_outcome_of_two_classes :
    (declarations "class A<T> \x7b\n\x7d\nclass B \x7b\n  int x;\n\x7d").any leavesNameOpen = false
      ∧ ∃ (cs : List SourceClass) (g : Generation),
        scan "class A<T> \x7b\n\x7d\nclass B \x7b\n  int x;\n\x7d" = .ok cs
          ∧ generate "class A<T> \x7b\n\x7d\nclass B \x7b\n  int x;\n\x7d" { fileName := some "a" }
            = .ok g
          ∧ g.issues = (cs.filter fun c => !c.isValid).map SourceClass.issue
          ∧ Revised (Request.work { fileName := some "a" }
            "class A<T> \x7b\n\x7d\nclass B \x7b\n  int x;\n\x7d").Yields cs g.classes
              g.edits.classes := by
  have hclosed :
      (declarations "class A<T> \x7b\n\x7d\nclass B \x7b\n  int x;\n\x7d").any leavesNameOpen
      = false := by decide +kernel
  exact ⟨hclosed, (generate_outcome_by_names _ { fileName := some "a" } (by decide)).2 hclosed⟩

/-- One open name stops generation for the whole file, the complete class above it included. -/
theorem generate_fails_below_complete_class :
    generate "class B \x7b\n  int x;\n\x7d\nclass A<T \x7b" { fileName := some "a" }
      = .error .unclosedGenerics :=
  generate_of_error (scan_eq_error.mpr ⟨rfl, by decide +kernel⟩) _

end DartData
