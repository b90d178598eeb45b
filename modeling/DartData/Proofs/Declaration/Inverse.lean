import DartData.Proofs.Declaration.Ink
import Mathlib.Data.List.TakeWhile

/-!
# Reading a class line is inverse to writing it

A class line is written from the name, the type parameters and the supertypes of a class.  Whatever
they are, as long as they are names with type arguments, reading the line gives them back if and
only if the word for the name is no keyword (`SourceClass.read_declarationLine_iff`).  The reader
takes such a word for what it announces, and no line gives a class the name of a keyword unless
type parameters follow it (`Declaration.readWords_isTold`).
-/

namespace DartData

open List

namespace Declaration

/-! ## §1. Names that no line gives. -/

/-- A name that is a keyword has type parameters, which tell the two apart. -/
def IsTold (d : Declaration) : Prop :=
  ∀ name, d.name = some name → name ∈ declarationKeywords → d.generics ≠ []

/-- A word that is no keyword may begin with one, as far as type parameters follow it. -/
theorem splitClassName_keyword {w name : Text} {g : Option Text}
    (h : splitClassName w = .ok (name, g)) (hw : w ∉ declarationKeywords)
    (hname : name ∈ declarationKeywords) : ∃ generics, g = some generics ∧ generics ≠ [] := by
  unfold splitClassName at h
  split at h
  next =>
    obtain ⟨rfl, -⟩ := Prod.mk.inj (Except.ok.inj h)
    exact absurd hname hw
  next before after hcut =>
    split at h
    next hangle =>
      obtain ⟨rfl, rfl⟩ := Prod.mk.inj (Except.ok.inj h)
      refine ⟨_, rfl, ?_⟩
      obtain rfl : w = before ++ ('<' :: after) := Text.append_of_cut? w hcut
      -- the closing bracket cannot stand within the keyword
      have hnone : ∀ k ∈ declarationKeywords, '>' ∉ k := by decide
      have hafter : '>' ∈ '<' :: after :=
        (mem_append.mp (Text.has_singleton_iff.mp hangle)).resolve_left (hnone _ hname)
      have hdrop : ('<' :: after).reverse.dropWhile (· ≠ '>') ≠ [] := by
        intro hnil
        simpa using dropWhile_eq_nil_iff.mp hnil '>' (mem_reverse.mpr hafter)
      rw [reverse_append, dropWhile_append, if_neg (by simpa using hdrop),
        reverse_append, reverse_reverse, drop_left]
      simpa using hdrop
    next => cases h

/-- One word. -/
theorem readWord_isTold {d d' : Declaration} {r r' : DeclarationReader} {w : Text}
    (h : d.readWord r w = .ok (d', r')) (hd : d.IsTold) : d'.IsTold := by
  by_cases hw : w ∈ declarationKeywords
  · -- a keyword may be taken for the superclass, never for the name
    have hsame : d'.name = d.name ∧ d'.generics = d.generics := by
      simp only [declarationKeywords, mem_cons, not_mem_nil, or_false] at hw
      rcases hw with rfl | rfl | rfl | rfl
      · cases h
        exact ⟨rfl, rfl⟩
      · cases h
        exact ⟨rfl, rfl⟩
      all_goals cases hs : r.superclassNext <;>
          (simp [readWord, hs] at h; obtain ⟨rfl, -⟩ := h; exact ⟨rfl, rfl⟩)
    unfold IsTold
    rw [hsame.1, hsame.2]
    exact hd
  · rw [readWord_of_not_mem hw] at h
    split at h
    · cases h
      exact hd
    split at h
    · cases hsplit : splitClassName w with
      | error f =>
        rw [hsplit] at h
        cases h
      | ok x =>
        rw [hsplit] at h
        cases h
        rintro name ⟨⟩ hkey
        obtain ⟨generics, hg, hne⟩ := splitClassName_keyword hsplit hw hkey
        rw [hg]
        exact hne
    split at h
    next l _ =>
      cases h
      cases l <;> exact hd
    next =>
      cases h
      exact hd

/-- **No words give a class the name of a keyword** unless type parameters follow it. -/
theorem readWords_isTold (ws : List Text) {d d' : Declaration} {r : DeclarationReader}
    (h : d.readWords r ws = .ok d') (hd : d.IsTold) : d'.IsTold := by
  induction ws generalizing d d' r with
  | nil =>
    cases h
    exact hd
  | cons w ws ih =>
    obtain ⟨d₁, r₁, hword, hrest⟩ := readWords_cons h
    exact ih hrest (readWord_isTold hword hd)

theorem isTold_empty : IsTold {} := by
  intro name h
  cases h

/-- The words of a declaration that has the name of a keyword do not give it back. -/
theorem not_mem_of_read {d : Declaration} {name line : Text} (h : d.IsRegular name)
    (hread : read {} line = .ok d) : name ++ d.generics ∉ declarationKeywords := by
  have htold := readWords_isTold _ hread isTold_empty
  intro hmem
  rcases h.generics with hnil | ⟨body, hbody, -⟩
  · rw [hnil, append_nil] at hmem
    exact htold name h.name_eq hmem hnil
  · have hnone : ∀ k ∈ declarationKeywords, '<' ∉ k := by decide
    exact hnone _ hmem (by rw [hbody]; simp)

end Declaration

/-! ## §2. The class line. -/

namespace SourceClass

/-- **A class line is read back as what it was written from if and only if the word for the name is
    no keyword.** -/
theorem read_declarationLine_iff (c : SourceClass) {name : Text} (h : c.head.IsRegular name) :
    Declaration.read {} (c.declarationLine ++ " \x7b".toList) = .ok c.head
      ↔ name ++ c.head.generics ∉ declarationKeywords :=
  ⟨Declaration.not_mem_of_read h, fun hkey => h.read_print hkey c.isAbstract⟩

/-- Type parameters with bounds, and supertypes with brackets of each kind. -/
theorem read_declarationLine_pair :
    let c : SourceClass :=
      { head := { name := some "Pair", generics := "<A extends List<int>, B>",
                  superclass := some "Base<(A, B)>",
                  mixins := ["Mixed<Map<A, [B]>>", "Plain"],
                  interfaces := ["Takes<void Function(\x7bA a\x7d)>", "Other"] },
        content := "abstract class" }
    c.head.IsRegular "Pair"
      ∧ Declaration.read {} (c.declarationLine ++ " \x7b") = .ok c.head := by
  intro c
  have hprintable : c.head.Printable "Pair" :=
    ⟨rfl, by decide, by decide, by decide, by decide, by decide, by decide⟩
  exact ⟨hprintable.isRegular, (read_declarationLine_iff c hprintable.isRegular).mpr (by decide)⟩

/-- A class that has the name of a keyword comes back without a name. -/
theorem read_declarationLine_implements :
    let c : SourceClass := { head := { name := some "implements".toList } }
    c.head.IsRegular "implements".toList
      ∧ Declaration.read {} (c.declarationLine ++ " \x7b".toList) = .ok {} :=
  ⟨⟨rfl, by decide, Or.inl rfl, by simp, by simp, by simp⟩, rfl⟩

end SourceClass

end DartData
