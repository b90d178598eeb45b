import DartData.Proofs.Plain.Plan

/-!
# Work on a plain class

The plan for a plain class is carried out as it should be: the constructor is built, each member is
inserted, since the class has none yet, and `Equatable` is adopted.  Assembled, the class is the one
that `PlainClass.settled` describes.
-/

namespace DartData

open List Text

/-! ## §1. The plan. -/

variable {p : ClassParts} {name : Text} {adopted asMixin : Bool}

theorem isAbstract_scanned (hh : p.header = headLine (plainHead name adopted asMixin)) (n : Int) :
    (p.scanned n).isAbstract = false := by
  have hcontent : (p.scanned n).content = "class " ++ (name ++ ' ' :: headTail adopted asMixin
      ++ '\n' :: unlines (itemLines p.body ++ [['}']])) := by
    show unlines (p.header :: (itemLines p.body ++ [['}']])) = _
    rw [unlines, join_cons (by simp), hh, headLine_plainHead]
    simp only [append_assoc, cons_append, nil_append, unlines]
  rw [SourceClass.isAbstract, hcontent]
  rfl

/-- The plan is the same for a plain class wherever it stands, and after it has adopted
    `Equatable`. -/
theorem plan_scanned {r : Request} (hh : p.header = headLine (plainHead name adopted asMixin))
    (hp : p.head = plainHead name adopted asMixin)
    (ha : adopted → r.options .useEquatable) (n : Int) :
    r.plan (p.scanned n) = r.plan {} := by
  refine Request.plan_congr ?_ (isAbstract_scanned hh n) ?_
  · show p.head.isWidget = false
    rw [hp, isWidget_plainHead]
  · show (p.head.usesEquatable || r.options .useEquatable) = r.options .useEquatable
    rw [hp, usesEquatable_plainHead]
    cases adopted with
    | false => rfl
    | true => rw [ha rfl, Bool.true_or]

/-- What a task asks of the directives of the file. -/
def Task.imports (r : Request) (c : SourceClass) : Task → List RequiredImport
  | .rebuildConstructor => []
  | .install k => (k.build r c).imports
  | .adoptEquatable => [{ uri := equatableLibrary }]

namespace PlainClass

variable {c : PlainClass} {r : Request} {item : MemberKind → Item}

/-- The libraries that the members of the class need. -/
def imports (c : PlainClass) (r : Request) : List RequiredImport :=
  r.furtherTasks.flatMap (Task.imports r (c.rebuilt r 0))

/-! ## §2. One task. -/

/-- The class in work: the constructor is built, some items are inserted, and `Equatable` is adopted
    or not yet. -/
def drafted (c : PlainClass) (r : Request) (n : Int) (adopted : Bool) (is : List Item) :
    SourceClass :=
  { c.rebuilt r n with
    head := plainHead c.name adopted (r.options .equatableMixin)
    headChanged := adopted
    insertion := endLines (itemLines is) }

section

variable (c : PlainClass) (r : Request) (n : Int)

theorem drafted_start : c.drafted r n false [] = c.rebuilt r n := by
  rw [drafted, rebuilt]
  split <;> rfl

theorem first_rebuilt : (c.rebuilt r n).first = some n := by
  rw [rebuilt]
  split <;> rfl

theorem content_rebuilt : (c.rebuilt r n).content = unlines c.parts.lines := by
  rw [rebuilt]
  split <;> rfl

theorem build_drafted (adopted : Bool) (is : List Item) (k : MemberKind) :
    k.build r (c.drafted r n adopted is) = k.build r (c.rebuilt r 0) := by
  rw [← c.build_rebuilt r n]
  have h := c.isPlain_rebuilt r n
  have hd : (c.drafted r n adopted is).IsPlain c.name c.fields :=
    c.isPlain_of (name_plainHead _ _ _) (generics_plainHead _ _ _) h.fields_eq
  refine MemberKind.build_congr (hd.type_eq.trans h.type_eq.symm)
    (hd.shownName_eq.trans h.shownName_eq.symm) ?_ rfl r k
  simp only [SourceClass.hasNamedConstructor, hd.shownName_eq, h.shownName_eq]
  rfl

/-- A plain class has no members yet. -/
theorem findMember_drafted (adopted : Bool) (is : List Item) (name finder : Text) :
    (c.drafted r n adopted is).findMember name finder = .ok none := by
  have hfirst : (c.drafted r n adopted is).first = some n := c.first_rebuilt r n
  have hcontent : (c.drafted r n adopted is).content = unlines c.parts.lines :=
    c.content_rebuilt r n
  refine SourceClass.findMember_none hfirst hcontent c.isLined_parts c.fits_parts.header name
    fun i hi => ?_
  have hi : i ∈ c.fields.map (fun f => { first := f.line }) ++ [] ++ [] := hi
  rw [append_nil, append_nil] at hi
  exact ClassParts.sits_fields (p := c.parts) hi _

end

theorem run_install_drafted (h : c.Writes r item) (n : Int) (adopted : Bool) (is : List Item)
    (k : MemberKind) (d : Directives) :
    (Work.perform r (.install k)).run ⟨c.drafted r n adopted is, d⟩
      = .ok () ⟨c.drafted r n adopted (is ++ (item k).placed k.isMarked),
          d.requireAll (k.build r (c.rebuilt r 0)).imports⟩ := by
  rw [Work.run_perform_install, build_drafted, Work.run_install, findMember_drafted]
  dsimp only
  rw [show (c.drafted r n adopted is).insertion = endLines (itemLines is) from rfl,
    (h k).endLines_append_indent]
  rfl

/-- Adopting the supertype. -/
theorem run_adopt_drafted (c : PlainClass) (r : Request) (n : Int) (adopted : Bool) (is : List Item)
    (d : Directives) :
    (Work.perform r .adoptEquatable).run ⟨c.drafted r n adopted is, d⟩
      = .ok () ⟨c.drafted r n true is, d.requireAll [{ uri := equatableLibrary }]⟩ := by
  have hhead : (c.drafted r n adopted is).head
      = plainHead c.name adopted (r.options .equatableMixin) :=
    rfl
  show (Work.adoptEquatable r).run _ = _
  rw [Work.run_adoptEquatable, hhead, superclass_plainHead, usesEquatable_plainHead]
  cases adopted with
  | true => rfl
  | false =>
    have hadopt : (c.drafted r n false is).adopting (r.options .equatableMixin)
        = c.drafted r n true is := by
      unfold drafted SourceClass.adopting
      cases r.options .equatableMixin <;> rfl
    rw [hadopt]
    rfl

/-! ## §3. The whole plan. -/

/-- The tasks after the constructor. -/
theorem run_tasks_drafted (h : c.Writes r item) (n : Int) (ts : List Task) (adopted : Bool)
    (is : List Item) (d : Directives) (hts : .rebuildConstructor ∉ ts) :
    (ts.forM (Work.perform r)).run ⟨c.drafted r n adopted is, d⟩
      = .ok () ⟨c.drafted r n (adopted || ts.contains .adoptEquatable)
          (is ++ ts.flatMap (Task.items item)),
          d.requireAll (ts.flatMap (Task.imports r (c.rebuilt r 0)))⟩ := by
  induction ts generalizing adopted is d with
  | nil =>
    show EStateM.Result.ok () (_ : Draft) = _
    rw [contains_nil, Bool.or_false, flatMap_nil, append_nil]
    rfl
  | cons t ts ih =>
    rw [mem_cons, not_or] at hts
    rw [Work.run_forM_cons]
    cases t with
    | rebuildConstructor => exact absurd rfl hts.1
    | install k =>
      rw [run_install_drafted h]
      dsimp only
      rw [ih _ _ _ hts.2, flatMap_cons, flatMap_cons, append_assoc,
        Directives.requireAll_append, contains_cons]
      rfl
    | adoptEquatable =>
      rw [run_adopt_drafted]
      dsimp only
      rw [ih _ _ _ hts.2, flatMap_cons, flatMap_cons, Directives.requireAll_append,
        contains_cons]
      simp only [Bool.true_or, beq_self_eq_true, Bool.or_true]
      rfl

theorem indent_constructor (c : PlainClass) (r : Request) (n : Int) :
    indent (unlines (constructorLines (constWordFor r.adopts) c.name
        (newParameters (r.options .constructorDefaults) (fieldsFrom n c.fields))))
      = endLines (c.constructor r).lines := by
  have hfeed := not_mem_constructorLines (constWordFor_cases r.adopts) c.word
    (c.areParameters (r.options .constructorDefaults)) (d := '\n') (by decide)
  have hlines := lines_unlines (cons_ne_nil _ _) hfeed
  rw [newParameters_fieldsFrom, indent_eq_endLines, constructor, ← indentLine_constructorLines]
  exact congrArg (fun ls => endLines (ls.map indentLine)) hlines

/-- The constructor comes first. -/
theorem run_rebuild_parts (c : PlainClass) (r : Request) (n : Int) (d : Directives)
    (ts : List Task) :
    ((Task.rebuildConstructor.when r.rebuilds ++ ts).forM (Work.perform r)).run
        ⟨c.parts.scanned n, d⟩
      = (ts.forM (Work.perform r)).run ⟨c.rebuilt r n, d⟩ := by
  cases hr : r.rebuilds with
  | false =>
    rw [rebuilt, hr]
    rfl
  | true =>
    have hplain : (c.parts.scanned n).IsPlain c.name c.fields := c.isPlain_of rfl rfl ⟨n + 1, rfl⟩
    have hadopts : (r.comparesByEquatable (c.parts.scanned n) && r.selects .useEquatable)
        = r.adopts := rfl
    rw [show Task.rebuildConstructor.when true ++ ts = .rebuildConstructor :: ts from rfl,
      Work.run_forM_cons, rebuilt, hr,
      show Work.perform r .rebuildConstructor = Work.rebuildConstructor r from rfl,
      Work.run_rebuildConstructor, hadopts, SourceClass.newConstructor_of_none hplain rfl rfl rfl]
    dsimp only
    rw [show (c.parts.scanned n).hasConstructor = false from rfl,
      show (c.parts.scanned n).fields = fieldsFrom (n + 1) c.fields from rfl, indent_constructor]
    rfl

/-- **The plan for a plain class is carried out.** -/
theorem run_performAll (h : c.Writes r item) (n : Int) (d : Directives) :
    (Work.performAll r).run ⟨c.parts.scanned n, d⟩
      = .ok () ⟨c.drafted r n r.adopts (c.settled r item).items, d.requireAll (c.imports r)⟩ := by
  have hno : .rebuildConstructor ∉ r.furtherTasks := by
    intro hmem
    rcases Request.cases_of_mem_furtherTasks hmem with ⟨k, hk, -⟩ | ⟨hk, -⟩ <;> simp at hk
  have hcontains : (false || r.furtherTasks.contains .adoptEquatable) = r.adopts := by
    rw [Bool.false_or, Bool.eq_iff_iff, contains_iff_mem]
    refine ⟨fun hmem => ?_, Request.adopts_mem_furtherTasks⟩
    rcases Request.cases_of_mem_furtherTasks hmem with ⟨k, hk, -⟩ | ⟨-, ha⟩
    · simp at hk
    · exact ha
  have hheader : c.parts.header = headLine (plainHead c.name false false) := rfl
  show ((r.plan (c.parts.scanned n)).forM (Work.perform r)).run ⟨c.parts.scanned n, d⟩ = _
  rw [plan_scanned hheader rfl (by simp), r.plan_eq, run_rebuild_parts, ← c.drafted_start,
    run_tasks_drafted h n _ _ _ _ hno, hcontains]
  rfl

end PlainClass

end DartData
