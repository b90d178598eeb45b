import DartData.Proofs.Directives.Settled

/-!
# The order in which directives are written

Directives are written group by group: libraries of Dart, packages, the package itself, relative
imports, exports and parts.  Inside of a group they stand in dictionary order, and one empty line
divides a group from the next (`spaced`).

Which text is written depends on which directives there are and on nothing else.  Read back, the
text gives the same directives, and written again the same text (`format_canonical`): a file whose
block has been written once is left alone.
-/

namespace DartData

open List Text

/-! ## §1. The order of directives. -/

/-- The place of a group among the others. -/
def DirectiveGroup.rank : DirectiveGroup → Nat
  | .dart => 0
  | .package => 1
  | .ownPackage => 2
  | .relative => 3
  | .exported => 4
  | .part => 5

/-- The directive `v` may stand above `w`: its group comes first, or they are of one group and in
    dictionary order. -/
def Precedes (package : Option Text) (v w : Text) : Prop :=
  (DirectiveGroup.of package v).rank < (DirectiveGroup.of package w).rank
    ∨ (DirectiveGroup.of package v = DirectiveGroup.of package w ∧ v.le w = true)

/-- Directives one a line, with an empty line wherever the group changes. -/
def spaced (package : Option Text) : List Text → List Text
  | [] => []
  | [v] => [v]
  | v :: w :: vs =>
    if DirectiveGroup.of package v = DirectiveGroup.of package w then
      v :: spaced package (w :: vs)
    else v :: [] :: spaced package (w :: vs)

section

variable {package : Option Text} {vs : List Text}

/-- **The groups one after another are in order.** -/
theorem pairwise_flatten_sortedGroups (package : Option Text) (vs : List Text) :
    (sortedGroups package vs).flatten.Pairwise (Precedes package) := by
  have hranks : DirectiveGroup.all.Pairwise (fun g h => g.rank < h.rank) := by decide
  rw [flatten_sortedGroups, pairwise_flatMap]
  constructor
  · -- inside of a group the directives are sorted
    intro g _
    refine (pairwise_sort _).imp_of_mem fun hv hw hle => .inr ⟨?_, hle⟩
    exact (mem_sortedGroup.mp hv).2.trans (mem_sortedGroup.mp hw).2.symm
  · -- between two groups it is the groups that decide
    refine hranks.imp fun hlt v hv w hw => .inl ?_
    rw [(mem_sortedGroup.mp hv).2, (mem_sortedGroup.mp hw).2]
    exact hlt

/-- Between directives of one group there is no empty line, and there is one below them if another
    group follows. -/
theorem spaced_append {g : DirectiveGroup} {ws : List Text} (hne : vs ≠ [])
    (hvs : ∀ v ∈ vs, DirectiveGroup.of package v = g)
    (hws : ∀ w, ws.head? = some w → DirectiveGroup.of package w ≠ g) :
    spaced package (vs ++ ws) = vs ++ (if ws.isEmpty then [] else [] :: spaced package ws) := by
  induction vs with
  | nil => exact absurd rfl hne
  | cons v vs ih =>
    have hv := hvs v mem_cons_self
    cases vs with
    | nil =>
      cases ws with
      | nil => rfl
      | cons w ws =>
        have hdiff : DirectiveGroup.of package v ≠ DirectiveGroup.of package w :=
          fun heq => hws w rfl (heq.symm.trans hv)
        show spaced package (v :: w :: ws) = _
        rw [spaced, if_neg hdiff]
        rfl
    | cons u us =>
      have hsame : DirectiveGroup.of package v = DirectiveGroup.of package u :=
        hv.trans (hvs u (by simp)).symm
      have hrest := ih (cons_ne_nil u us) fun x hx => hvs x (mem_cons_of_mem v hx)
      show spaced package (v :: u :: (us ++ ws)) = _
      rw [spaced, if_pos hsame]
      exact congrArg (v :: ·) hrest

/-- Groups that are not empty and differ from one another are written as their directives, an empty
    line standing wherever the group changes. -/
theorem blockLines_eq_spaced (gs : List (List Text)) (hne : ∀ g ∈ gs, g ≠ [])
    (hsame : ∀ g ∈ gs, ∀ v ∈ g, ∀ w ∈ g, DirectiveGroup.of package v = DirectiveGroup.of package w)
    (hdiff : gs.Pairwise fun g h => ∀ v ∈ g, ∀ w ∈ h,
      DirectiveGroup.of package v ≠ DirectiveGroup.of package w) :
    blockLines gs = spaced package gs.flatten := by
  induction gs with
  | nil => rfl
  | cons g gs ih =>
    obtain ⟨hfirst, hdiff⟩ := pairwise_cons.mp hdiff
    have hrest := ih (fun h hh => hne h (mem_cons_of_mem g hh))
      (fun h hh => hsame h (mem_cons_of_mem g hh)) hdiff
    obtain ⟨v, vs, rfl⟩ := exists_cons_of_ne_nil (hne g mem_cons_self)
    have hof : ∀ x ∈ v :: vs, DirectiveGroup.of package x = DirectiveGroup.of package v :=
      fun x hx => hsame _ mem_cons_self x hx v mem_cons_self
    cases gs with
    | nil =>
      have hlast : spaced package ((v :: vs) ++ []) = _ :=
        spaced_append (cons_ne_nil v vs) hof (by simp)
      simpa [blockLines] using hlast.symm
    | cons h gs =>
      obtain ⟨w, ws, rfl⟩ := exists_cons_of_ne_nil (hne h (by simp))
      -- the next directive is the first one of the next group
      have hnext : ∀ x, ((w :: ws) :: gs).flatten.head? = some x →
          DirectiveGroup.of package x ≠ DirectiveGroup.of package v := by
        intro x hx
        obtain rfl : w = x := Option.some.inj hx
        exact (hfirst _ mem_cons_self v mem_cons_self w mem_cons_self).symm
      rw [flatten_cons, spaced_append (cons_ne_nil v vs) hof hnext, ← hrest]
      rfl

theorem blockLines_sortedGroups (package : Option Text) (vs : List Text) :
    blockLines (sortedGroups package vs) = spaced package (sortedGroups package vs).flatten := by
  have hall : DirectiveGroup.all.Pairwise (· ≠ ·) := by decide
  refine blockLines_eq_spaced _ Directives.sortedGroups_ne_nil (fun g hg v hv w hw => ?_) ?_
  · obtain ⟨k, -, rfl⟩ := mem_map.mp (mem_filter.mp hg).1
    exact (mem_sortedGroup.mp hv).2.trans (mem_sortedGroup.mp hw).2.symm
  · refine List.Pairwise.filter _ (pairwise_map.mpr (hall.imp fun hne v hv w hw => ?_))
    rw [(mem_sortedGroup.mp hv).2, (mem_sortedGroup.mp hw).2]
    exact hne

end

/-! ## §2. Directives on lines of their own. -/

/-- What is asked for is on one line and has no blanks around it. -/
def RequiredImport.IsOnLine (i : RequiredImport) : Prop := '\n' ∉ i.uri ∧ i.uri.trim = i.uri

instance (i : RequiredImport) : Decidable i.IsOnLine := inferInstanceAs (Decidable (_ ∧ _))

namespace Directives

variable {package : Option Text} {d : Directives}

/-- An import begins with its keyword and ends with a semicolon. -/
theorem trim_importOf (uri : Text) : (importOf uri).trim = importOf uri := by
  have hhead : (importOf uri).head? = some 'i' := by
    unfold importOf
    simp
  have hlast : importOf uri = ("import '" ++ (uri ++ ['\x27'])) ++ [';'] := by
    unfold importOf
    simp
  refine trim_eq_self (fun c hc => ?_) fun c hc => ?_
  · obtain rfl : 'i' = c := Option.some.inj (hhead.symm.trans hc)
    decide
  · rw [hlast, getLast?_concat] at hc
    obtain rfl : ';' = c := Option.some.inj hc
    decide

theorem not_mem_importOf {uri : Text} (h : '\n' ∉ uri) : '\n' ∉ importOf uri := by
  unfold importOf
  simp [h]

theorem isDirectiveLine_wanted {i : RequiredImport} (h : i.IsOnLine) :
    IsDirectiveLine (wanted i) := by
  obtain ⟨hfeed, htrim⟩ := h
  refine ⟨isDirective_wanted i, ?_, ?_⟩
  · unfold wanted directiveFor
    split
    · exact htrim
    · exact trim_importOf i.uri
  · unfold wanted directiveFor
    split
    · exact hfeed
    · exact not_mem_importOf hfeed

theorem isDirectiveLine_requireAll (text : Text) {is : List RequiredImport}
    (his : ∀ i ∈ is, i.IsOnLine) :
    ∀ v ∈ ((read text).requireAll is).values, IsDirectiveLine v :=
  isDirectiveLine_of_wanted text fun i hi => isDirectiveLine_wanted (his i hi)

/-! ## §3. The text that is written. -/

/-- The lines of the text that are not empty. -/
def printed (d : Directives) (package : Option Text) : List Text :=
  (d.format package).lines.filter fun l => !l.isEmpty

/-- What is printed are the sorted groups. -/
theorem printed_eq (hd : ∀ v ∈ d.values, IsDirectiveLine v) :
    d.printed package = (sortedGroups package d.values).flatten := by
  by_cases hne : d.values = []
  · rw [printed, format_eq_blockLines, hne]
    rfl
  · have hblank : ∀ l ∈ (sortedGroups package d.values).flatten, l.allBlank = false :=
      fun l hl => (hd l (mem_flatten_sortedGroups.mp hl)).not_blank
    rw [printed, lines_format package (fun v hv => (hd v hv).not_mem) hne,
      ← filter_blockLines hblank]
    -- of the lines of the block only the empty ones are blank
    refine filter_congr fun l hl => ?_
    rcases DartData.mem_blockLines hl with rfl | hl
    · rfl
    · have hl := hblank l hl
      cases l with
      | nil => simp [allBlank] at hl
      | cons c l => rw [hl]; rfl

/-- **A text that was written is read back as it was written.** -/
theorem read_format (hd : ∀ v ∈ d.values, IsDirectiveLine v) (hne : d.values ≠ []) :
    (read (d.format package)).values = (sortedGroups package d.values).flatten
      ∧ (read (d.format package)).found = endLines (sortedGroups package d.values).flatten := by
  have hlines := lines_format package (fun v hv => (hd v hv).not_mem) hne
  have hhead : headDirectives false (d.format package).lines
      = (sortedGroups package d.values).flatten := by
    have hblock : headDirectives false (blockLines (sortedGroups package d.values) ++ [])
        = _ := headDirectives_block hd hne false []
    rw [append_nil] at hblock
    rw [hlines, hblock]
    exact append_nil _
  obtain ⟨-, hvalues, hfound⟩ := read_eq (d.format package)
  exact ⟨hvalues.trans hhead, by rw [hfound, hhead]⟩

theorem format_congr {e : Directives} (h : e.values.Perm d.values) :
    e.format package = d.format package := by
  rw [format_eq, format_eq, sortedGroups_congr h]

/-- The directives are written in one order: each is written as often as it is there, the groups
    come in order with the directives sorted inside of them, and an empty line stands just where the
    group changes.  The text depends on nothing but the directives; it is read back as the
    directives in this order, is written again in the same way, and counts as unchanged. -/
structure IsCanonical (d : Directives) (package : Option Text) : Prop where
  perm : (d.printed package).Perm d.values
  ordered : (d.printed package).Pairwise (Precedes package)
  format_eq : d.format package = unlines (spaced package (d.printed package))
  congr : ∀ e : Directives, e.values.Perm d.values → e.format package = d.format package
  read_back : d.values ≠ [] → (read (d.format package)).values = d.printed package
    ∧ (read (d.format package)).format package = d.format package
    ∧ (read (d.format package)).isChanged package = false

/-- **Whatever was read and asked for, directives are written in one order, and reading them back
    changes nothing.** -/
theorem format_canonical (text : Text) {is : List RequiredImport} (his : ∀ i ∈ is, i.IsOnLine)
    (package : Option Text) : ((read text).requireAll is).IsCanonical package := by
  have hlines := isDirectiveLine_requireAll text his
  generalize (read text).requireAll is = d at hlines
  have hprinted : d.printed package = _ := printed_eq hlines
  have hperm := perm_flatten_sortedGroups package d.values
  exact {
    perm := by rw [hprinted]; exact hperm
    ordered := by rw [hprinted]; exact pairwise_flatten_sortedGroups package d.values
    format_eq := by rw [hprinted, format_eq_blockLines, blockLines_sortedGroups]
    congr := fun e he => format_congr he
    read_back := fun hne => by
      obtain ⟨hvalues, hfound⟩ : (read (d.format package)).values = _ ∧ _ := read_format hlines hne
      refine ⟨hvalues.trans hprinted.symm, format_congr ?_, isChanged_of_sorted hvalues hfound⟩
      rw [hvalues]
      exact hperm }

/-- Directives of five groups. -/
theorem format_canonical_five_groups :
    ∃ (text : Text) (is : List RequiredImport) (package : Option Text) (d : Directives),
      d = (read text).requireAll is ∧ d.IsCanonical package
        ∧ d.format package = Text.join "\n" ["import 'dart:convert';", "",
          "import 'package:b/b.dart';", "", "import 'package:a/a.dart';", "", "import 'z.dart';",
          "", "part 'a.g.dart';", "part 'b.g.dart';"] :=
  ⟨"import 'z.dart';\nimport 'package:a/a.dart';\npart 'b.g.dart';",
    [⟨"package:b/b.dart", []⟩, ⟨"part 'a.g.dart';", []⟩, ⟨"dart:convert", []⟩], some "a", _, rfl,
    format_canonical _ (by decide +kernel) _, by decide +kernel⟩

end Directives

end DartData
