import DartData.Proofs.Generation.Edits
import DartData.Proofs.Plain.File

/-!
# Generating twice

For a file of plain classes generation is idempotent: once its edits have been worked in, generating
again with the same request comes to no edit at all.

There is one exception.  A class whose name begins with `Listgetprops`, and which gets both
`copyWith` and `props`, is not settled by the first run: the second run takes `copyWith` for `props`
and replaces it.
-/

namespace DartData

open List Text

namespace PlainFile

variable (file : PlainFile) {r : Request} {item : PlainClass → MemberKind → Item}

/-! ## §1. The lines of a plain file. -/

variable {l : Text} {f : PlainClass → ClassParts}

theorem isGap_iff : isGap l ↔ l.allBlank ∧ '\n' ∉ l := by
  simp [isGap]

theorem above_allBlank (hl : l ∈ file.above) : l.allBlank :=
  (isGap_iff.mp (file.above_blank l hl)).1

/-- What holds of blank lines and of the lines of each class holds of all lines. -/
theorem forall_lines {P : Text → Prop} (hgap : ∀ l, isGap l → P l)
    (hf : ∀ c, ∀ l ∈ (f c).lines, P l) :
    ∀ l ∈ file.above ++ partsLines (file.classes.map fun c => (f c.1, c.2)), P l := by
  intro l hl
  rcases mem_append.mp hl with hl | hl
  · exact hgap l (file.above_blank l hl)
  · obtain ⟨p, hp, hl⟩ := mem_flatMap.mp hl
    obtain ⟨c, hc, rfl⟩ := mem_map.mp hp
    rcases mem_append.mp hl with hl | hl
    · exact hf c.1 l hl
    · exact hgap l (file.between_blank c hc l hl)

theorem print_eq : file.print = unlines (file.above ++ partsLines (printedParts file.classes)) := by
  have hlines : partsLines (printedParts file.classes)
      = file.classes.flatMap fun c => c.1.lines ++ c.2 := by
    rw [partsLines, printedParts, flatMap_map]
    simp only [PlainClass.lines_parts]
  rw [print, hlines]

theorem exists_first (hf : ∀ c, ∃ name, (f c).Fits name) :
    ∃ line more, partsLines (file.classes.map fun c => (f c.1, c.2)) = line :: more
      ∧ isClassLine line := by
  obtain ⟨c, cs, hcs⟩ := exists_cons_of_ne_nil file.classes_ne
  obtain ⟨name, hname⟩ := hf c.1
  refine ⟨(f c.1).header, itemLines (f c.1).body ++ [['}']] ++ c.2
    ++ partsLines (cs.map fun c => (f c.1, c.2)), ?_, hname.header.class_line⟩
  rw [hcs]
  rfl

theorem not_mem_partsLines (hf : ∀ c, (f c).IsLined) :
    ∀ l ∈ file.above ++ partsLines (file.classes.map fun c => (f c.1, c.2)), '\n' ∉ l :=
  file.forall_lines (fun _ h => (isGap_iff.mp h).2) hf

theorem lines_print : file.print.lines = file.above ++ partsLines (printedParts file.classes) := by
  obtain ⟨line, more, hfirst, -⟩ := file.exists_first fun c => ⟨c.name, c.fits_parts⟩
  have hne : file.above ++ partsLines (printedParts file.classes) ≠ [] := by
    have hfirst : partsLines (printedParts file.classes) = line :: more := hfirst
    rw [hfirst]
    simp
  rw [file.print_eq, lines_unlines hne (file.not_mem_partsLines PlainClass.isLined_parts)]

/-- Classes in their parts are scanned one after another, below lines that begin no class. -/
theorem scan_parts (hf : ∀ c, ∃ name, (f c).Fits name) {text : Text} {top : List Text}
    (htext : text.lines = top ++ partsLines (file.classes.map fun c => (f c.1, c.2)))
    (htop : ∀ l ∈ top, isClassLine l = false) :
    scan text = .ok (scannedFrom top.length (file.classes.map fun c => (f c.1, c.2))) := by
  obtain ⟨p, hp⟩ := scanLines_outside top 1 none _ htop
  rw [scan, htext, hp, Nat.add_comm 1]
  refine scanLines_parts _ _ _ fun q hq => ?_
  obtain ⟨c, hc, rfl⟩ := mem_map.mp hq
  exact ⟨hf c.1, fun l hl => (isGap_iff.mp (file.between_blank c hc l hl)).1⟩

/-- A plain file has no slashes, and so imports nothing. -/
theorem slash_not_mem_lines :
    ∀ l ∈ file.above ++ partsLines (printedParts file.classes), '/' ∉ l := by
  refine file.forall_lines (fun l hl => not_mem_of_all (isGap_iff.mp hl).1 (by decide))
    fun c l hl => ?_
  rw [c.lines_parts] at hl
  exact c.not_mem_lines (by decide) (by decide) l hl

/-! ## §2. The first run. -/

/-- The directives of the file with the imports that its classes require. -/
def directives (r : Request) : Directives :=
  Directives.requireAll { source := file.print } (requiredImports r file.classes)

/-- The lines of the file with everything written that the request asks for. -/
def settledLines (r : Request) (item : PlainClass → MemberKind → Item) : List Text :=
  Directives.topLines r.package (file.directives r).values
    ++ (file.above ++ partsLines (settledParts r item file.classes))

theorem read_print : Directives.read file.print = { source := file.print } := by
  obtain ⟨line, more, hfirst, hline⟩ := file.exists_first fun c => ⟨c.name, c.fits_parts⟩
  have hlines : file.print.lines = file.above ++ line :: more := by
    rw [file.lines_print, ← hfirst]
    rfl
  exact Directives.read_of_blank hlines (fun l hl => file.above_allBlank hl) hline

theorem requiredImports_known (r : Request) (cs : List (PlainClass × List Text)) :
    ∀ i ∈ requiredImports r cs, i ∈ knownImports := by
  intro i hi
  obtain ⟨c, -, hi⟩ := mem_flatMap.mp hi
  obtain ⟨t, ht, hi⟩ := mem_flatMap.mp hi
  rcases Request.cases_of_mem_furtherTasks ht with ⟨k, rfl, -⟩ | ⟨rfl, -⟩
  · exact k.imports_mem r _ i hi
  · rw [mem_singleton.mp hi]
    simp [knownImports]

/-- The directives are fresh, and they are those that are required. -/
theorem directives_spec (r : Request) : (file.directives r).Fresh
    ∧ ∀ v, v ∈ (file.directives r).values
      ↔ ∃ i ∈ requiredImports r file.classes, v = Directives.wanted i := by
  have hfresh : Directives.Fresh { source := file.print } := by
    refine ⟨fun v hv => absurd hv not_mem_nil, nodup_nil, ?_⟩
    rw [file.print_eq]
    exact Directives.no_library_of_lines fun l hl => .inl (file.slash_not_mem_lines l hl)
  have hknown := requiredImports_known r file.classes
  refine ⟨(hfresh.requireAll_cases _ hknown).1, fun v => ?_⟩
  rw [directives, hfresh.mem_requireAll hknown]
  exact or_iff_right not_mem_nil

/-- **The first run settles the file.** -/
theorem generate_print (hr : r.category ≠ some .jsonSerializable)
    (h : ∀ c : PlainClass, c.Writes r (item c)) :
    ∃ g, generate file.print r = .ok g
      ∧ g.edits.apply file.print = .ok (unlines (file.settledLines r item)) := by
  have hscan := file.scan_parts (fun c => ⟨c.name, c.fits_parts⟩) file.lines_print
    fun l hl => isClassLine_of_allBlank (file.above_allBlank hl)
  obtain ⟨cs', es, hall, hbelow, hclasses⟩ := reviseAll_parts
    (fun c n => PlainClass.isValid_of (c.isPlain_of rfl rfl ⟨n + 1, rfl⟩) rfl rfl)
    (fun c n d => PlainClass.run_revise_parts (h c) n d) file.classes file.above.length
    (Directives.read file.print)
  have hg := generate_eq hr hscan hall
  have hread : (Directives.read file.print).requireAll (requiredImports r file.classes)
      = file.directives r := by
    rw [file.read_print]
    rfl
  refine ⟨_, hg, ?_⟩
  rw [Edits.apply_eq (generate_disjoint hg)]
  congr 2
  -- the directives stand at the top, the blank lines below them stay, and the classes are settled
  have hclasses : Edit.replaceFrom 0 file.print.lines (es.map ClassEdit.placed)
      = file.above ++ partsLines (settledParts r item file.classes) := by
    rw [file.lines_print, replaceFrom_skip, Nat.zero_add]
    · exact congrArg (file.above ++ ·) hclasses
    · rwa [Nat.zero_add]
  have hfresh := (file.directives_spec r).1
  have hfound : (file.directives r).found = [] :=
    congrArg Directives.found (Directives.requireAll_eq _ _)
  have hfirst : (file.directives r).first = none :=
    congrArg Directives.first (Directives.requireAll_eq _ _)
  have hedit : ((file.directives r).edit? r.package).map DirectiveEdit.toEdit = _ :=
    hfresh.edit?_eq hfound hfirst
  show Edit.replaceFrom 0 file.print.lines
    (((((Directives.read file.print).requireAll (requiredImports r file.classes)).edit?
      r.package).map DirectiveEdit.toEdit).toList
      ++ es.map ClassEdit.placed) = _
  rw [hread, hedit, settledLines, ← hclasses]
  cases hv : (file.directives r).values.isEmpty with
  | true =>
    rw [Directives.topLines, hv]
    rfl
  | false => rfl

/-! ## §3. The second run. -/

theorem lines_settled (h : ∀ c : PlainClass, c.Writes r (item c)) :
    (unlines (file.settledLines r item)).lines = file.settledLines r item := by
  obtain ⟨line, more, hfirst, -⟩ := file.exists_first fun c =>
    ⟨c.name, PlainClass.fits_settled (h c)⟩
  have hfirst : partsLines (settledParts r item file.classes) = line :: more := hfirst
  refine lines_unlines ?_ fun l hl => ?_
  · rw [settledLines, hfirst]
    simp
  · rcases mem_append.mp hl with hl | hl
    · exact ((file.directives_spec r).1.not_mem_topLines hl).1
    · exact file.not_mem_partsLines (fun c => PlainClass.isLined_settled (h c)) l hl

/-- **The second run comes to no edit** just if the members of each class are told apart. -/
theorem generate_settled (hr : r.category ≠ some .jsonSerializable)
    (h : ∀ c : PlainClass, c.Writes r (item c)) :
    ∃ g, generate (unlines (file.settledLines r item)) r = .ok g ∧ g.edits.directives = none
      ∧ (g.edits.classes = [] ↔ ∀ c ∈ file.classes, c.1.Distinct r) := by
  have hlines := file.lines_settled h
  obtain ⟨hfresh, hvalues⟩ := file.directives_spec r
  have hincludes : ∀ i ∈ requiredImports r file.classes,
      (file.directives r).includes (Directives.wanted i) := fun i hi =>
    Directives.includes_of_mem ((hvalues _).mpr ⟨i, hi, rfl⟩)
  obtain ⟨line, more, hfirst, hline⟩ := file.exists_first fun c =>
    ⟨c.name, PlainClass.fits_settled (h c)⟩
  have hfirst : partsLines (settledParts r item file.classes) = line :: more := hfirst
  have hscan := file.scan_parts (fun c => ⟨c.name, PlainClass.fits_settled (h c)⟩)
    (hlines.trans (append_assoc _ _ _).symm) fun l hl => by
      rcases mem_append.mp hl with hl | hl
      · exact (hfresh.not_mem_topLines hl).2
      · exact isClassLine_of_allBlank (file.above_allBlank hl)
  obtain ⟨cs', found, hall, hfound⟩ := reviseAll_settled h file.classes
    (Directives.topLines r.package (file.directives r).values ++ file.above).length
    (Directives.read (unlines (file.settledLines r item)))
  have hsettled : (unlines (file.settledLines r item)).lines
      = Directives.topLines r.package (file.directives r).values
        ++ (file.above ++ line :: more) := by
    rw [hlines, settledLines, hfirst]
  -- what the classes need stands at the top, so nothing is required anew
  obtain ⟨hrequire, hedit⟩ :=
    hfresh.read_settled hsettled (fun l hl => file.above_allBlank hl) hline
    hincludes
  rw [hrequire] at hall
  exact ⟨_, generate_eq hr hscan hall, hedit, hfound⟩

end PlainFile

/-! ## §4. Main result. -/

theorem Edits.apply_empty (text : Text) : Edits.apply {} text = .ok text :=
  congrArg Except.ok (unlines_lines text)

/-- **Generating twice is generating once**, but for one family of names.  For a file of plain
    classes and every request for members, the first run succeeds and its edits can be worked in.
    The second run, from the text that results, succeeds too and leaves the directives as they are.
    It gives no edit of a class, and so changes nothing, just if it is not the case that both
    `copyWith` and `props` are written into a class with a name that begins with `Listgetprops`. -/
theorem generate_idempotent_iff (file : PlainFile) (r : Request)
    (hr : r.category ≠ some .jsonSerializable) :
    ∃ g out g', generate file.print r = .ok g ∧ g.edits.apply file.print = .ok out
      ∧ generate out r = .ok g' ∧ g'.edits.directives = none
      ∧ (g'.edits.classes = [] ↔ (r.copies = true → r.adopts = true →
          ∀ c ∈ file.classes, c.1.name.startsWith "Listgetprops" = false))
      ∧ (g'.edits.classes = [] → g'.edits.apply out = .ok out) := by
  have hwrites : ∀ c : PlainClass, c.Writes r (Classical.choose (c.exists_writes r)) :=
    fun c => Classical.choose_spec (c.exists_writes r)
  obtain ⟨g, hg, happly⟩ := file.generate_print hr hwrites
  obtain ⟨g', hg', hnone, hempty⟩ := file.generate_settled hr hwrites
  refine ⟨g, _, g', hg, happly, hg', hnone, ⟨?_, ?_⟩, ?_⟩
  · intro hclasses hcopies hadopts c hc
    exact hempty.mp hclasses c hc hcopies hadopts
  · intro hnames
    exact hempty.mpr fun c hc hcopies hadopts => hnames hcopies hadopts c hc
  · intro hclasses
    have hedits : g'.edits = {} := by
      rw [← hclasses, ← hnone]
    rw [hedits, Edits.apply_empty]

/-- A file with one class, which has the field `x`. -/
def PlainFile.single (name : Text) (isName : isIdentifier name = true)
    (upper : name.head?.any Char.isUpper = true) : PlainFile where
  above := []
  classes :=
    [({ name, isName, upper, fields_ne := cons_ne_nil _ _, distinct := nodup_singleton _,
        fields :=
          [{ type := "int"
             name := "x"
             isType := .name (n := "int") (m := []) rfl (Or.inl rfl)
             type_words := by decide
             isName := rfl
             lower := rfl
             variable_eq := by decide
             not_required := by decide }] }, [])]
  above_blank := fun _ hl => absurd hl not_mem_nil
  between_blank := fun c hc l hl => by
    rw [mem_singleton.mp hc] at hl
    exact absurd hl not_mem_nil
  classes_ne := cons_ne_nil _ _

/-- A request for all members, with `Equatable`. -/
def Request.withEquatable : Request where
  options s := s == .useEquatable || Options.default s

/-- `copyWith` and `props` are both written, and the name is one letter short of the family. -/
theorem generate_idempotent_listgetprop :
    Request.withEquatable.category ≠ some .jsonSerializable
      ∧ ∃ g out g',
        generate (PlainFile.single "Listgetprop" rfl rfl).print .withEquatable = .ok g
        ∧ g.edits.apply (PlainFile.single "Listgetprop" rfl rfl).print = .ok out
        ∧ generate out .withEquatable = .ok g' ∧ g'.edits.directives = none
        ∧ g'.edits.classes = [] ∧ g'.edits.apply out = .ok out := by
  have hr : Request.withEquatable.category ≠ some .jsonSerializable := by decide
  obtain ⟨g, out, g', hg, hout, hg', hnone, hiff, hsame⟩ :=
    generate_idempotent_iff (.single "Listgetprop" rfl rfl) .withEquatable hr
  have hclasses : g'.edits.classes = [] := by
    refine hiff.mpr fun _ _ c hc => ?_
    rw [mem_singleton.mp hc]
    decide
  exact ⟨hr, g, out, g', hg, hout, hg', hnone, hclasses, hsame hclasses⟩

/-- The second run for a class named `Listgetprops` edits it again. -/
theorem generate_listgetprops_again :
    ∃ g out g',
      generate (PlainFile.single "Listgetprops" rfl rfl).print .withEquatable = .ok g
      ∧ g.edits.apply (PlainFile.single "Listgetprops" rfl rfl).print = .ok out
      ∧ generate out .withEquatable = .ok g' ∧ g'.edits.classes ≠ [] := by
  have hr : Request.withEquatable.category ≠ some .jsonSerializable := by decide
  have hwrites : ∀ c : PlainClass, c.Writes .withEquatable
      (Classical.choose (c.exists_writes .withEquatable)) :=
    fun c => Classical.choose_spec (c.exists_writes .withEquatable)
  obtain ⟨g, hg, happly⟩ := (PlainFile.single "Listgetprops" rfl rfl).generate_print hr hwrites
  obtain ⟨g', hg', -, hempty⟩ :=
    (PlainFile.single "Listgetprops" rfl rfl).generate_settled hr hwrites
  refine ⟨g, _, g', hg, happly, hg', fun hclasses => ?_⟩
  have hdistinct := hempty.mp hclasses _ mem_cons_self (by decide) (by decide)
  exact absurd hdistinct (by decide)

end DartData
