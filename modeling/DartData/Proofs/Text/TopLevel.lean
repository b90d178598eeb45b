import DartData.Proofs.Declaration.Ink

/-!
# Splitting loses nothing and is stable

The number that counts open brackets may fall below zero, and the piece in which it does so, or in
which a bracket is left open, is the last one.  So the items can be put together with commas and are
found again, each of them alone and all of them in a row (`splitTopLevel_stable`).
-/

namespace DartData.Text

open List

variable {p t : Text} {ts : List Text}

theorem endDepth?_trim (t : Text) : endDepth? 0 none t.trim = endDepth? 0 none t := by
  obtain ⟨a, b, ha, hb, ht⟩ := exists_trim t
  conv => rhs; rw [ht, endDepth?_blank_append ha, endDepth?_append_blank hb]

/-- Only the last item of a text may leave brackets open. -/
theorem isSequence_splitTopLevel (t : Text) : IsSequence t.splitTopLevel := by
  refine splitTopLevel_induction (P := fun _ items => IsSequence items) ?_ ?_ t
  · intro t e h
    unfold itemOf
    split
    · trivial
    · exact ⟨by rw [endDepth?_trim, h]; rfl, .inr rfl, trivial⟩
  · intro u r hu ih
    rw [← endDepth?_trim] at hu
    unfold itemOf
    split
    · exact ih
    · exact ⟨by rw [hu]; rfl, .inl hu, ih⟩

theorem IsSequence.isSome_endDepth? (h : IsSequence ts) (hp : p ∈ ts) :
    (endDepth? 0 none p).isSome := by
  induction ts with
  | nil => cases hp
  | cons t ts ih =>
    rcases mem_cons.mp hp with rfl | hp
    · exact h.1
    · exact ih h.2.2 hp

theorem trim_of_mem_splitTopLevel (hp : p ∈ t.splitTopLevel) : p ≠ [] ∧ p.trim = p := by
  obtain ⟨hmem, hne⟩ := mem_filter.mp hp
  obtain ⟨q, -, rfl⟩ := mem_map.mp hmem
  exact ⟨by simpa using hne, trim_trim q⟩

/-- **Splitting loses nothing and is stable**, whatever brackets a text has.  Every item is not
    empty and has no blanks around it, and it is the one item of itself; the items with commas
    between them are split into the same items; and they have all of the text but commas and
    blanks. -/
theorem splitTopLevel_stable (t : Text) :
    (∀ p ∈ t.splitTopLevel, p ≠ [] ∧ p.trim = p ∧ p.splitTopLevel = [p])
      ∧ splitTopLevel (join ", " t.splitTopLevel) = t.splitTopLevel
      ∧ inked t.splitTopLevel.flatten = t.inked := by
  have hseq := isSequence_splitTopLevel t
  have htrim : t.splitTopLevel.map trim = t.splitTopLevel :=
    (map_congr_left fun p hp => (trim_of_mem_splitTopLevel hp).2).trans (map_id _)
  refine ⟨fun p hp => ?_, ?_, inked_splitTopLevel t⟩
  · obtain ⟨hne, hp'⟩ := trim_of_mem_splitTopLevel hp
    obtain ⟨e, he⟩ := Option.isSome_iff_exists.mp (hseq.isSome_endDepth? hp)
    exact ⟨hne, hp', by rw [splitTopLevel_eq_itemOf he, itemOf_eq (by rwa [hp']), hp']⟩
  · refine (hseq.splitTopLevel_join (b := " ") (forall_mem_of_all rfl)).trans ?_
    rw [flatMap_itemOf fun p hp => ?_, htrim]
    obtain ⟨hne, hp'⟩ := trim_of_mem_splitTopLevel hp
    rwa [hp']

/-- A list with an empty piece, an arrow between brackets, and a last item in which the depth falls
    below zero. -/
theorem splitTopLevel_stable_unbalanced :
    splitTopLevel "A<B, C>, , (x => y) ,>z, w".toList
        = ["A<B, C>".toList, "(x => y)".toList, ">z, w".toList]
      ∧ splitTopLevel ">z, w".toList = [">z, w".toList]
      ∧ splitTopLevel "A<B, C>, (x => y), >z, w".toList
        = ["A<B, C>".toList, "(x => y)".toList, ">z, w".toList] := by
  have hitems : splitTopLevel "A<B, C>, , (x => y) ,>z, w"
      = ["A<B, C>".toList, "(x => y)".toList, ">z, w".toList] := by decide
  obtain ⟨halone, hjoin, -⟩ := splitTopLevel_stable "A<B, C>, , (x => y) ,>z, w"
  rw [hitems] at halone hjoin
  exact ⟨hitems, (halone _ (by decide)).2.2, hjoin⟩

end DartData.Text
