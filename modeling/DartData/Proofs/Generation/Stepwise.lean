import DartData.Proofs.Generation.Idempotence
import DartData.Proofs.Plain.Extended

/-!
# Generating category by category

Members can be asked for all at once, or one category after another, each time from the text that
the last run has left.  For a file of plain classes that begins with a class, and without
`Equatable`, both ways lead to the same text:

    plain ─ constructor ─▸ · ─ copyWith ─▸ · ─ serialization ─▸ · ─ toString ─▸ · ─ equality ─▸ all

After each step the classes have the members of the categories so far, in the order in which they
would be written at once, and the directives at the top of the file are those that these members
need.
-/

namespace DartData

open List Text

/-! ## §1. The plan by categories. -/

/-- The text with the edits of generation worked in. -/
def Request.write (r : Request) (text : Text) : Except Fault Text := do
  (← generate text r).edits.apply text

/-- The category of a member. -/
def MemberSection.category : MemberSection → Category
  | .constructor => .constructor
  | .copyWith => .copyWith
  | .toMap | .fromMap | .toJson | .fromJson => .serialization
  | .toString => .toString
  | .equality | .hashCode => .equality

namespace Request

variable (r : Request)

/-- The request for one category alone. -/
def only (c : Category) : Request := { r with category := some c }

/-- The request for all members of some categories. -/
def among (cs : List Category) : Request :=
  { r with
    category := none
    options := fun
      | .enabled s => r.options (.enabled s) && cs.contains s.category
      | s => r.options s }

/-- The tasks of a category, besides that of the constructor. -/
def tasksOf : Category → List Task
  | .copyWith => (Task.install .copyWith).when (r.options (.enabled .copyWith))
  | .serialization =>
    (Task.install .toMap).when (r.options (.enabled .toMap))
      ++ (Task.install .fromMap).when (r.options (.enabled .fromMap))
      ++ (Task.install .toJson).when (r.options (.enabled .toJson))
      ++ (Task.install .fromJson).when (r.options (.enabled .fromJson))
  | .toString => (Task.install .toString).when (r.options (.enabled .toString))
  | .equality =>
    (Task.install .equality).when (r.options (.enabled .equality))
      ++ (Task.install .hashCode).when (r.options (.enabled .hashCode))
  | _ => []

/-- The categories with members other than the constructor, in the order of the plan. -/
def memberCategories : List Category := [.copyWith, .serialization, .toString, .equality]

variable {r}

/-- **The plan goes through the categories in order**, if `Equatable` is not used. -/
theorem furtherTasks_eq (he : r.options .useEquatable = false) :
    r.furtherTasks = (memberCategories.filter r.selects).flatMap r.tasksOf := by
  have hcompare : r.sparing.comparesByEquatable {} = false := he
  have hspared : ∀ s, s ≠ .constructor →
      r.sparing.options (.enabled s) = r.options (.enabled s) := by
    intro s hs
    simp [sparing, hs]
  have hnone : r.sparing.options (.enabled .constructor) = false := rfl
  have hselects : r.sparing.selects = r.selects := rfl
  unfold furtherTasks plan
  dsimp only
  rw [hcompare, hnone, hselects, hspared _ (by decide), hspared _ (by decide),
    hspared _ (by decide), hspared _ (by decide), hspared _ (by decide), hspared _ (by decide),
    hspared _ (by decide), hspared _ (by decide)]
  rw [if_neg (by decide), if_neg (by decide)]
  cases h₁ : r.selects .copyWith <;> cases h₂ : r.selects .serialization <;>
    cases h₃ : r.selects .toString <;> cases h₄ : r.selects .equality <;>
    simp [memberCategories, tasksOf, Task.when, h₁, h₂, h₃, h₄]

theorem furtherTasks_only (he : r.options .useEquatable = false) (c : Category) :
    (r.only c).furtherTasks = r.tasksOf c := by
  have he : (r.only c).options .useEquatable = false := he
  rw [furtherTasks_eq he]
  cases c <;> simp [memberCategories, selects, only, tasksOf]

/-- The tasks of some categories. -/
theorem furtherTasks_among (he : r.options .useEquatable = false) (cs : List Category) :
    (r.among cs).furtherTasks = (memberCategories.filter (· ∈ cs)).flatMap r.tasksOf := by
  have he : (r.among cs).options .useEquatable = false := he
  have htasks : (r.among cs).tasksOf = fun c => if c ∈ cs then r.tasksOf c else [] := by
    funext c
    by_cases hc : c ∈ cs <;> cases c <;>
      simp [tasksOf, among, MemberSection.category, hc, Task.when]
  have hfilter : ∀ l : List Category, (l.flatMap fun c => if c ∈ cs then r.tasksOf c else [])
      = (l.filter (· ∈ cs)).flatMap r.tasksOf := by
    intro l
    induction l with
    | nil => rfl
    | cons c l ih => by_cases hc : c ∈ cs <;> simp [hc, ih]
  have hall : memberCategories.filter (r.among cs).selects = memberCategories :=
    filter_eq_self.mpr fun _ _ => rfl
  rw [furtherTasks_eq he, htasks, hall, hfilter]

/-- Tasks of different categories are different. -/
theorem category_of_mem_tasksOf {c c' : Category} {k : MemberKind} (h : .install k ∈ r.tasksOf c)
    (h' : .install k ∈ r.tasksOf c') : c = c' := by
  cases c <;> simp only [tasksOf, mem_append, Task.mem_when, not_mem_nil] at h <;>
    cases c' <;> simp only [tasksOf, mem_append, Task.mem_when, not_mem_nil] at h' <;>
    grind

/-- The request for the next category comes after that for the categories before it.  The first of
    them is the constructor, alone. -/
theorem continues_next (he : r.options .useEquatable = false) {s : Request} {c : Category}
    {cs : List Category} (hs : s = r.among cs ∨ (s = r.only .constructor ∧ cs = [.constructor]))
    (hcs : .constructor ∈ cs) (hno : c ∉ cs)
    (hnext : memberCategories.filter (· ∈ cs ++ [c]) = memberCategories.filter (· ∈ cs) ++ [c]) :
    s.Continues (r.only c) (r.among (cs ++ [c])) := by
  have hc : c ≠ .constructor := by
    rintro rfl
    exact hno hcs
  have hadopts : ∀ q : Request, q.options .useEquatable = false → q.adopts = false := by
    intro q hq
    rw [adopts, hq, Bool.false_and]
  have hrebuilds : s.rebuilds = r.options (.enabled .constructor) := by
    rcases hs with rfl | ⟨rfl, -⟩
    · simp [rebuilds, among, selects, MemberSection.category, hcs]
    · simp [rebuilds, only, selects]
  -- the tasks stand in the order of the categories, whatever their order in the request
  have htasks : s.furtherTasks = (memberCategories.filter (· ∈ cs)).flatMap r.tasksOf := by
    rcases hs with rfl | ⟨rfl, rfl⟩
    · exact furtherTasks_among he cs
    · exact furtherTasks_only he .constructor
  refine ⟨⟨?_, hadopts _ he, hadopts _ he⟩, ⟨?_, ?_⟩, ?_, ?_, ?_, ?_⟩
  · rcases hs with rfl | ⟨rfl, -⟩ <;> exact hadopts _ he
  · simp [rebuilds, only, selects, hc]
  · rw [hrebuilds]
    simp [rebuilds, among, selects, MemberSection.category, hcs]
  · rcases hs with rfl | ⟨rfl, -⟩ <;> rfl
  · rw [furtherTasks_among he, hnext, flatMap_append, htasks, furtherTasks_only he]
    simp
  · intro k hk hmem
    rw [furtherTasks_only he] at hk
    rw [htasks, mem_flatMap] at hmem
    obtain ⟨c', hc', hmem⟩ := hmem
    rw [category_of_mem_tasksOf hk hmem] at hno
    exact hno (by simpa using (mem_filter.mp hc').2)
  · intro k d
    rcases hs with rfl | ⟨rfl, -⟩ <;> exact ⟨rfl, rfl⟩

/-- The steps after the constructor. -/
theorem continues_steps (he : r.options .useEquatable = false) :
    (r.only .constructor).Continues (r.only .copyWith) (r.among [.constructor, .copyWith])
      ∧ (r.among [.constructor, .copyWith]).Continues (r.only .serialization)
        (r.among [.constructor, .copyWith, .serialization])
      ∧ (r.among [.constructor, .copyWith, .serialization]).Continues (r.only .toString)
        (r.among [.constructor, .copyWith, .serialization, .toString])
      ∧ (r.among [.constructor, .copyWith, .serialization, .toString]).Continues (r.only .equality)
        (r.among (.constructor :: memberCategories)) :=
  ⟨continues_next he (.inr ⟨rfl, rfl⟩) (by decide) (by decide) (by decide),
    continues_next he (.inl rfl) (by decide) (by decide) (by decide),
    continues_next he (.inl rfl) (by decide) (by decide) (by decide),
    continues_next he (.inl rfl) (by decide) (by decide) (by decide)⟩

/-- All categories together are the whole request. -/
theorem among_all (hr : r.category = none) : r.among (.constructor :: memberCategories) = r := by
  have hoptions : (r.among (.constructor :: memberCategories)).options = r.options := by
    funext s
    cases s with
    | enabled s =>
      have hmem : (Category.constructor :: memberCategories).contains s.category := by
        cases s <;> rfl
      show (r.options (.enabled s) && _) = _
      rw [hmem, Bool.and_true]
    | _ => rfl
  calc r.among (.constructor :: memberCategories)
      = { r with category := none,
                 options := (r.among (.constructor :: memberCategories)).options } := rfl
    _ = { r with category := none } := by rw [hoptions]
    _ = r := by rw [← hr]

end Request

/-! ## §2. The lines at the top. -/

/-- The edit of the directives at the top of the file, with those of the classes below. -/
theorem replaceFrom_top {top top' ls : List Text} {edit : Option Edit}
    (h : Directives.TurnsTop top top' edit) {es : List Edit}
    (hes : ∀ e ∈ es, (top.length : Int) < e.first ∧ e.first ≤ e.last + 1) :
    Edit.replaceFrom 0 (top ++ ls) (edit.toList ++ es)
      = top' ++ Edit.replaceFrom top.length ls es := by
  cases edit with
  | none =>
    have hsame : top' = top := h
    show Edit.replaceFrom 0 (top ++ ls) es = _
    rw [replaceFrom_skip, Nat.zero_add, hsame]
    rwa [Nat.zero_add]
  | some e =>
    obtain ⟨k, hk, hfirst, hlast, htop⟩ := h
    -- the rest of the old lines is passed over
    have hlength : k + (top.drop k).length = top.length := by
      rw [length_drop]
      omega
    have hdrop : (top ++ ls).drop k = top.drop k ++ ls := drop_append_of_le_length hk
    show Edit.replaceFrom 0 (top ++ ls) (e :: es) = _
    rw [Edit.replaceFrom, hfirst, hlast, Int.toNat_natCast, Nat.sub_zero, Nat.sub_zero, hdrop,
      replaceFrom_skip, hlength, htop, append_assoc, append_assoc]
    · rfl
    · rwa [hlength]

/-! ## §3. One step. -/

namespace PlainFile

variable (file : PlainFile) {r s t u : Request} {item : PlainClass → MemberKind → Item}

/-- The lines of a settled file have no slashes but in the imports. -/
theorem no_library_settled (h : ∀ c : PlainClass, c.Writes s (item c)) :
    ∀ i ∈ knownImports, ∀ a ∈ i.alternatives,
      (unlines (file.settledLines s item)).has (importOf a) = false := by
  refine Directives.no_library_of_lines fun l hl => ?_
  rcases mem_append.mp hl with hl | hl
  · rcases Directives.mem_topLines (file.directives_spec s).1.known hl with rfl | hknown
    · exact .inl not_mem_nil
    · exact .inr hknown
  · left
    exact file.forall_lines (fun l hl => not_mem_of_all (isGap_iff.mp hl).1 (by decide))
      (fun c => PlainClass.not_mem_settled (h c) (by decide)) l hl

/-- The directives of a settled file that begins with them. -/
theorem read_settledLines (habove : file.above = []) (h : ∀ c : PlainClass, c.Writes s (item c)) :
    ∃ line more, (unlines (file.settledLines s item)).lines
        = Directives.topLines s.package (file.directives s).values ++ line :: more
      ∧ partsLines (settledParts s item file.classes) = line :: more
      ∧ isClassLine line
      ∧ (Directives.read (unlines (file.settledLines s item))).Fresh
      ∧ ∀ v, v ∈ (Directives.read (unlines (file.settledLines s item))).values
        ↔ v ∈ (file.directives s).values := by
  obtain ⟨line, more, hfirst, hline⟩ := file.exists_first fun c =>
    ⟨c.name, PlainClass.fits_settled (h c)⟩
  have hfirst : partsLines (settledParts s item file.classes) = line :: more := hfirst
  have hfresh := (file.directives_spec s).1
  have hlines : (unlines (file.settledLines s item)).lines
      = Directives.topLines s.package (file.directives s).values ++ ([] ++ line :: more) := by
    rw [file.lines_settled h, settledLines, habove, hfirst]
  obtain ⟨hsource, hvalues, -⟩ := Directives.read_top hfresh.known hlines (by simp) hline
  have hperm := perm_flatten_sortedGroups s.package (file.directives s).values
  refine ⟨line, more, hlines, hfirst, hline, ⟨fun v hv => ?_, ?_, ?_⟩, fun v => ?_⟩
  · rw [hvalues] at hv
    exact hfresh.known v (hperm.mem_iff.mp hv)
  · rw [hvalues]
    exact hperm.nodup_iff.mpr hfresh.nodup
  · rw [hsource]
    exact file.no_library_settled h
  · rw [hvalues, hperm.mem_iff]

/-- **One step**: from the text with the members of `s` the request `t` leads to the text with the
    members of both. -/
theorem write_continues (habove : file.above = []) (h : s.Continues t u)
    (ht : t.category ≠ some .jsonSerializable) (hp : t.package = s.package ∧ u.package = s.package)
    (hw : ∀ c : PlainClass, c.Writes s (item c)) :
    t.write (unlines (file.settledLines s item)) = .ok (unlines (file.settledLines u item)) := by
  obtain ⟨line, more, hlines, hfirst, hline, hread, hmem⟩ := file.read_settledLines habove hw
  have hfresh := (file.directives_spec s).1
  have hscan := file.scan_parts (fun c => ⟨c.name, PlainClass.fits_settled (hw c)⟩)
    (hlines.trans (by rw [← hfirst]; rfl)) fun l hl => (hfresh.not_mem_topLines hl).2
  obtain ⟨cs', es, hall, hbelow, hclasses⟩ := reviseAll_parts
    (fun c n => c.isValid_settled s (item c) n)
    (fun c n d => PlainClass.run_revise_continues (hw c) h n d) file.classes
    (Directives.topLines s.package (file.directives s).values).length
    (Directives.read (unlines (file.settledLines s item)))
  have hg := generate_eq ht hscan hall
  have hknown : ∀ i ∈ file.classes.flatMap fun c => c.1.furtherImports s t, i ∈ knownImports := by
    intro i hi
    refine requiredImports_known u file.classes i ?_
    obtain ⟨c, hc, hi⟩ := mem_flatMap.mp hi
    refine mem_flatMap.mpr ⟨c, hc, ?_⟩
    rw [c.1.imports_continues h]
    exact mem_append_right _ hi
  have htop := Directives.edit?_top hfresh.known hlines hline hread hknown
  -- the directives are those that the members of both requests need
  have hsame : Directives.topLines s.package ((Directives.read (unlines
        (file.settledLines s item))).requireAll
        (file.classes.flatMap fun c => c.1.furtherImports s t)).values
      = Directives.topLines u.package (file.directives u).values := by
    have hfresh' := (hread.requireAll_cases _ hknown).1
    rw [hp.2]
    refine Directives.topLines_congr ((perm_ext_iff_of_nodup hfresh'.nodup
      (file.directives_spec u).1.nodup).mpr fun v => ?_)
    rw [hread.mem_requireAll hknown, hmem, (file.directives_spec s).2, (file.directives_spec u).2]
    have hmem_imports : ∀ i, i ∈ requiredImports u file.classes ↔ i ∈ requiredImports s file.classes
        ∨ i ∈ file.classes.flatMap fun c => c.1.furtherImports s t := by
      intro i
      simp only [requiredImports, mem_flatMap, PlainClass.imports_continues _ h,
        mem_append, and_or_left, exists_or]
    simp only [hmem_imports, or_and_right, exists_or]
  rw [Request.write, hg]
  show Edits.apply _ _ = _
  rw [Edits.apply_eq (generate_disjoint hg)]
  congr 2
  show Edit.replaceFrom 0 (unlines (file.settledLines s item)).lines
    (((Directives.edit? _ t.package).map DirectiveEdit.toEdit).toList
      ++ es.map ClassEdit.placed) = _
  rw [hp.1, hlines, replaceFrom_top htop hbelow, hsame, settledLines, habove, ← hfirst]
  exact congrArg _ hclasses

end PlainFile

/-! ## §4. Main result. -/

/-- **Generating category by category is generating everything at once.**  For a file of plain
    classes without blank lines above the first one, and every request for all members without
    `Equatable`: the request can be carried out, and so can those for the constructor, `copyWith`,
    serialization, `toString` and equality, each on the text that the one before has left.  Both
    ways lead to the same text. -/
theorem write_by_categories (file : PlainFile) (habove : file.above = []) (r : Request)
    (hr : r.category = none) (he : r.options .useEquatable = false) :
    ∃ out, r.write file.print = .ok out
      ∧ [Category.constructor, .copyWith, .serialization, .toString, .equality].foldlM
          (fun text c => Request.write { r with category := some c } text) file.print
        = .ok out := by
  obtain ⟨h₁, h₂, h₃, h₄⟩ := Request.continues_steps he
  let item : PlainClass → MemberKind → Item := fun c =>
    Classical.choose (c.exists_writes (r.only .constructor))
  have hw₀ : ∀ c : PlainClass, c.Writes (r.only .constructor) (item c) := fun c =>
    Classical.choose_spec (c.exists_writes (r.only .constructor))
  have hw₁ := fun c => (hw₀ c).continues h₁
  have hw₂ := fun c => (hw₁ c).continues h₂
  have hw₃ := fun c => (hw₂ c).continues h₃
  have hw₄ := fun c => (hw₃ c).continues h₄
  -- one run for each category
  obtain ⟨g₀, hg₀, happly₀⟩ :=
    file.generate_print (r := r.only .constructor) (by simp [Request.only])
    hw₀
  have hs₁ := file.write_continues habove h₁ (by simp [Request.only]) ⟨rfl, rfl⟩ hw₀
  have hs₂ := file.write_continues habove h₂ (by simp [Request.only]) ⟨rfl, rfl⟩ hw₁
  have hs₃ := file.write_continues habove h₃ (by simp [Request.only]) ⟨rfl, rfl⟩ hw₂
  have hs₄ := file.write_continues habove h₄ (by simp [Request.only]) ⟨rfl, rfl⟩ hw₃
  -- and one for all of them
  rw [Request.among_all hr] at hs₄ hw₄
  obtain ⟨g, hg, happly⟩ := file.generate_print (by simp [hr]) hw₄
  have hs₀ : (r.only .constructor).write file.print
      = .ok (unlines (file.settledLines (r.only .constructor) item)) := by
    rw [Request.write, hg₀]
    exact happly₀
  refine ⟨unlines (file.settledLines r item), ?_, ?_⟩
  · rw [Request.write, hg]
    exact happly
  · show ((r.only .constructor).write file.print >>= fun t₁ => (r.only .copyWith).write t₁ >>=
      fun t₂ => (r.only .serialization).write t₂ >>= fun t₃ => (r.only .toString).write t₃ >>=
      fun t₄ => (r.only .equality).write t₄ >>= pure) = _
    rw [hs₀]
    show ((r.only .copyWith).write _ >>= _) = _
    rw [hs₁]
    show ((r.only .serialization).write _ >>= _) = _
    rw [hs₂]
    show ((r.only .toString).write _ >>= _) = _
    rw [hs₃]
    show ((r.only .equality).write _ >>= _) = _
    rw [hs₄]
    rfl

/-- The file with some more classes below it, after a blank line. -/
def PlainFile.append (file file' : PlainFile) : PlainFile where
  above := file.above
  classes := file.classes.map (fun c => (c.1, c.2 ++ [[]])) ++ file'.classes
  above_blank := file.above_blank
  between_blank := by
    intro c hc l hl
    rcases mem_append.mp hc with hc | hc
    · obtain ⟨b, hb, rfl⟩ := mem_map.mp hc
      rcases mem_append.mp hl with hl | hl
      · exact file.between_blank b hb l hl
      · exact mem_singleton.mp hl ▸ rfl
    · exact file'.between_blank c hc l hl
  classes_ne := append_ne_nil_of_right_ne_nil _ file'.classes_ne

/-- Hash values that need a library of their own. -/
def Request.withJenkins : Request where
  options s := s == .jenkinsHash || Options.default s
  flutter := true

/-- Two classes, whose members need two libraries, which are imported in two steps. -/
theorem write_by_categories_pair :
    (PlainFile.append (.single "A" rfl rfl) (.single "B" rfl rfl)).above = []
      ∧ Request.withJenkins.category = none
      ∧ Request.withJenkins.options .useEquatable = false
      ∧ ∃ out, Request.withJenkins.write
          (PlainFile.append (.single "A" rfl rfl) (.single "B" rfl rfl)).print = .ok out
        ∧ [Category.constructor, .copyWith, .serialization, .toString, .equality].foldlM
            (fun text c => Request.write { Request.withJenkins with category := some c } text)
            (PlainFile.append (.single "A" rfl rfl) (.single "B" rfl rfl)).print
          = .ok out :=
  ⟨rfl, rfl, rfl, write_by_categories (.append (.single "A" rfl rfl) (.single "B" rfl rfl)) rfl
    .withJenkins rfl rfl⟩

end DartData
