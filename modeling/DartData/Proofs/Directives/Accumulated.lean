import DartData.Proofs.Directives.Canonical

/-!
# Requiring imports one after another

Many classes and members require the same imports.  However often and in whatever order they ask,
what was read stays in front, a directive that is missing is added once, and what was asked for at
some point is there ever after:

    (d.requireAll is).values = d.values ++ d.added is

Which directives are added depends on the order only through the alternatives that a required import
may have: without them the same directives are added in every order, and the text that is written is
the same.
-/

namespace DartData

open List

/-! ## §1. Directives that stand for themselves. -/

/-- An import without alternatives, whose library has no double quotes and no blanks around it. -/
structure RequiredImport.IsPlain (i : RequiredImport) : Prop where
  no_alternative : i.alternatives = []
  no_quote : '\x22' ∉ i.uri
  trimmed : i.uri.trim = i.uri

instance (i : RequiredImport) : Decidable i.IsPlain :=
  decidable_of_iff (i.alternatives = [] ∧ '\x22' ∉ i.uri ∧ i.uri.trim = i.uri)
    ⟨fun h => ⟨h.1, h.2.1, h.2.2⟩, fun h => ⟨h.1, h.2, h.3⟩⟩

/-- Without double quotes a directive is compared as it is, blanks around it apart. -/
theorem directiveForm_of_not_mem {t : Text} (h : '\x22' ∉ t) : directiveForm t = t.trim := by
  have hmap : t.map (fun c => if c = '\x22' then '\x27' else c) = t := by
    refine (map_congr_left fun c hc => ?_).trans (map_id t)
    have hne : c ≠ '\x22' := fun heq => h (heq ▸ hc)
    exact if_neg hne
  rw [directiveForm, hmap]

namespace Directives

theorem directiveForm_wanted {i : RequiredImport} (h : i.IsPlain) :
    directiveForm (wanted i) = wanted i := by
  unfold wanted directiveFor
  split
  · rw [directiveForm_of_not_mem h.no_quote, h.trimmed]
  · have hquote : '\x22' ∉ importOf i.uri := by
      unfold importOf
      simp [h.no_quote]
    rw [directiveForm_of_not_mem hquote, trim_importOf]

/-! ## §2. A sequence of requirements. -/

variable {d : Directives} {is js : List RequiredImport}

/-- Nothing that is asked for is missing: the directive is there, or one of the alternatives is. -/
def Satisfies (d : Directives) (i : RequiredImport) : Prop :=
  d.includes (wanted i) = true ∨ d.importsOneOf i.alternatives = true

theorem Satisfies.require_eq {i : RequiredImport} (h : d.Satisfies i) :
    d.require i.uri i.alternatives = d := by
  have hthere : (d.includes (directiveFor i.uri) || d.importsOneOf i.alternatives) := by
    rw [Bool.or_eq_true]
    exact h
  rw [require, hthere]
  rfl

/-- What requiring the imports `is` one after another makes of the directives `d`. -/
structure Accumulates (d : Directives) (is : List RequiredImport) : Prop where
  values_eq : (d.requireAll is).values = d.values ++ d.added is
  distinct : ((d.added is).map directiveForm).Nodup
  fresh : ∀ w ∈ d.added is, ∀ v ∈ d.values, directiveForm w ≠ directiveForm v
  satisfied : ∀ i ∈ is, ∀ later, (d.requireAll (is ++ later)).Satisfies i
  settled : ∀ i ∈ is, ∀ later,
    (d.requireAll (is ++ later)).require i.uri i.alternatives = d.requireAll (is ++ later)

/-- **Directives accumulate**: they are kept, added once, and there ever after. -/
theorem accumulates (d : Directives) (is : List RequiredImport) : d.Accumulates is := by
  have hsatisfied : ∀ i ∈ is, ∀ later, (d.requireAll (is ++ later)).Satisfies i :=
    fun i hi later => (d.adds (is ++ later)).satisfied i (mem_append_left later hi)
  refine ⟨(d.adds is).values_eq, (d.adds is).nodup, fun w hw v hv heq => ?_, hsatisfied,
    fun i hi later => (hsatisfied i hi later).require_eq⟩
  have hinc : d.includes w := any_eq_true.mpr ⟨v, hv, by rw [heq, beq_self_eq_true]⟩
  simp [(d.adds is).fresh w hw] at hinc

/-! ## §3. The order of requirements. -/

/-- **What is added are the directives asked for that were not there**, whatever the order. -/
theorem mem_added_iff (his : ∀ i ∈ is, i.IsPlain) {w : Text} :
    w ∈ d.added is ↔ (∃ i ∈ is, w = wanted i) ∧ d.includes w = false := by
  have hadds := d.adds is
  refine ⟨fun hw => ⟨hadds.are_wanted w hw, hadds.fresh w hw⟩, ?_⟩
  rintro ⟨⟨i, hi, rfl⟩, hnot⟩
  have hplain := his i hi
  rcases hadds.satisfied i hi with hinc | halt
  · obtain ⟨v, hv, hform⟩ := any_eq_true.mp hinc
    rw [beq_iff_eq] at hform
    rw [hadds.values_eq] at hv
    rcases mem_append.mp hv with hv | hv
    · -- it would have been there before
      have hthere : d.includes (wanted i) :=
        any_eq_true.mpr ⟨v, hv, beq_iff_eq.mpr hform⟩
      simp [hnot] at hthere
    · obtain ⟨j, hj, rfl⟩ := hadds.are_wanted v hv
      rw [directiveForm_wanted (his j hj), directiveForm_wanted hplain] at hform
      exact hform ▸ hv
  · rw [hplain.no_alternative] at halt
    exact absurd halt Bool.false_ne_true

theorem perm_added (his : ∀ i ∈ is, i.IsPlain) (hperm : js.Perm is) :
    (d.added js).Perm (d.added is) := by
  have hjs : ∀ j ∈ js, j.IsPlain := fun j hj => his j (hperm.mem_iff.mp hj)
  refine (perm_ext_iff_of_nodup (d.adds js).nodup.of_map (d.adds is).nodup.of_map).mpr
    fun w => ?_
  rw [mem_added_iff hjs, mem_added_iff his]
  simp only [hperm.mem_iff]

theorem format_requireAll_perm (his : ∀ i ∈ is, i.IsPlain) (hperm : js.Perm is)
    (package : Option Text) :
    (d.requireAll js).format package = (d.requireAll is).format package := by
  refine format_congr ?_
  rw [(d.adds js).values_eq, (d.adds is).values_eq]
  exact (perm_added his hperm).append_left d.values

/-- **Whatever imports are required of a file, one after another**: what was read comes first; what
    is added differs from it and is added once; each import, once required, stays satisfied and is
    never added again; and plain imports give the same text in every order. -/
theorem requireAll_read (text : Text) (is : List RequiredImport) :
    (read text).Accumulates is
      ∧ ((∀ i ∈ is, i.IsPlain) → ∀ js : List RequiredImport, js.Perm is → ∀ package,
        ((read text).requireAll js).format package = ((read text).requireAll is).format package) :=
  ⟨(read text).accumulates is, fun his _ hperm package => format_requireAll_perm his hperm package⟩

/-- Three imports, one of which is there, in two orders. -/
theorem requireAll_read_three_imports :
    ∃ (text : Text) (is js : List RequiredImport), (∀ i ∈ is, i.IsPlain) ∧ js.Perm is ∧ js ≠ is
      ∧ (read text).Accumulates is
      ∧ (read text).added is = ["part 'a.g.dart';".toList, "import 'dart:ui';".toList]
      ∧ (read text).added js = ["import 'dart:ui';".toList, "part 'a.g.dart';".toList]
      ∧ ((read text).requireAll js).format none = ((read text).requireAll is).format none := by
  let text : Text := "import \"dart:convert\";\nclass A \x7b\x7d"
  let is : List RequiredImport :=
    [⟨"part 'a.g.dart';", []⟩, ⟨"dart:convert", []⟩, ⟨"dart:ui", []⟩, ⟨"import 'dart:ui';", []⟩]
  have his : ∀ i ∈ is, i.IsPlain := by decide +kernel
  have hperm : is.reverse.Perm is := reverse_perm is
  obtain ⟨hacc, hformat⟩ := requireAll_read text is
  exact ⟨text, is, is.reverse, his, hperm, by decide +kernel, hacc, by decide +kernel,
    by decide +kernel, hformat his _ hperm none⟩

end Directives

end DartData
