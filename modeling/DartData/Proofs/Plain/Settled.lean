import DartData.Proofs.Assembly.Frame
import DartData.Proofs.Plain.Assembly

/-!
# A settled class stays as it is

Once everything that a request asks for has been written into a plain class, carrying out the plan
again changes nothing: the constructor is built as it is, each member is found where it was written
and has the text that it should have, and `Equatable` has been adopted.  What the tasks ask of the
directives is the same as before.

Members are told apart by their signatures.  They fail to do so in one case, where the name of the
class makes that of `copyWith` begin like that of `props`; `PlainClass.Distinct` rules it out.
-/

namespace DartData

open List Text

namespace PlainClass

variable {c : PlainClass} {r : Request} {item : MemberKind → Item}

/-- The members that are written into the class are told apart. -/
def Distinct (c : PlainClass) (r : Request) : Prop :=
  r.copies = true → r.adopts = true → c.name.startsWith "Listgetprops" = false

/-! ## §1. The constructor. -/

/-- Its constructor is the one that is written. -/
theorem hasWritten_settled (hr : r.rebuilds) (n : Int) :
    ((c.settled r item).scanned n).HasWritten (constWordFor r.adopts) c.name
      (r.options .constructorDefaults) where
  text_eq := by
    show (if r.rebuilds then some (c.constructor r) else none).map _ = _
    rw [if_pos hr, show ((c.settled r item).scanned n).fields = fieldsFrom (n + 1) c.fields
      from rfl,
      newParameters_fieldsFrom]
    rfl
  lines_eq := by
    have hcon : (c.settled r item).constructor = some (c.constructor r) := if_pos hr
    refine ⟨n + c.fields.length + 2,
      n + c.fields.length + 2 + (c.constructor r).rest.length, ?_, ?_,
      ?_⟩
    · show (c.settled r item).constructor.map _ = _
      rw [hcon]
      rfl
    · show (c.settled r item).constructor.map _ = _
      rw [hcon]
      rfl
    · have hpos : 0 < (c.constructor r).rest.length := by simp [constructor, constructorItem]
      omega
  word_eq := constWordFor_cases _

/-- Rebuilding the constructor changes nothing. -/
theorem run_rebuild_settled (hr : r.rebuilds) (n : Int) (d : Directives) :
    (Work.perform r .rebuildConstructor).run ⟨(c.settled r item).scanned n, d⟩
      = .ok () ⟨(c.settled r item).scanned n, d⟩ := by
  have hw : ((c.settled r item).scanned n).HasWritten (constWordFor r.adopts) c.name
      (r.options .constructorDefaults) := hasWritten_settled hr n
  obtain ⟨a, b, ha, hb, -⟩ := hw.lines_eq
  have hnames : (((c.settled r item).scanned n).fields.map Field.name).Nodup := by
    rw [show ((c.settled r item).scanned n).fields = fieldsFrom (n + 1) c.fields from rfl,
      map_name_fieldsFrom]
    exact c.distinct
  have hnew := (c.isPlain_settled r item n).newConstructor_of_written hw (isWidget_plainHead _ _ _)
    hnames (r.comparesByEquatable ((c.settled r item).scanned n) && r.selects .useEquatable)
  have hhas : ((c.settled r item).scanned n).hasConstructor := by
    rw [SourceClass.hasConstructor, ha, hb, hw.text_eq]
    rfl
  -- the constructor stands in the class as it would be written, moved to the right
  have hsame : sameUpToBlanks (((c.settled r item).scanned n).constructorText.getD [])
      (unlines (constructorLines (constWordFor r.adopts) c.name
        (newParameters (r.options .constructorDefaults)
          ((c.settled r item).scanned n).fields))) := by
    rw [hw.text_eq, Option.getD_some, ← indentLine_constructorLines]
    exact sameUpToBlanks_indentLine _
  show (Work.rebuildConstructor r).run _ = _
  rw [Work.run_rebuildConstructor, hnew]
  dsimp only
  rw [hhas, hsame]
  rfl

/-! ## §2. Members. -/

variable {i : Item} {k : MemberKind} {ts : List Task} {n : Int}

/-- The items in front of the members are passed over. -/
theorem avoids_front (k : MemberKind) (hprops : k = .props → r.adopts)
    (hi : i ∈ (c.settled r item).fields.map (fun f => { first := f.line })
      ++ (c.settled r item).constructorItems) : i.Sits ∧ i.Avoids (k.signature c.name) := by
  rcases mem_append.mp hi with hi | hi
  · exact ClassParts.sits_fields hi _
  · rw [constructorItems_settled] at hi
    split at hi
    · rcases mem_cons.mp hi with rfl | hi
      · exact ⟨Item.sits_blank, Item.avoids_blank _⟩
      · rw [mem_singleton.mp hi]
        obtain ⟨mid, last, hrest, hcon⟩ := c.isConstructor_constructor r
        refine ⟨hcon.sits hrest, avoids_constructorItem c.word c.upper (constWordFor_cases _) k ?_⟩
        intro hk
        rw [hprops hk]
        rfl
    · exact absurd hi not_mem_nil

theorem avoids_others (h : c.Writes r item) (hts : ∀ t ∈ ts, t ∈ r.furtherTasks)
    (hapart : ∀ j, .install j ∈ ts → ¬ k.signature c.name <+: j.signature c.name
      ∧ ¬ j.signature c.name <+: k.signature c.name) (hi : i ∈ ts.flatMap (Task.items item)) :
    i.Sits ∧ i.Avoids (k.signature c.name) := by
  obtain ⟨t, ht, hi⟩ := mem_flatMap.mp hi
  rcases Request.cases_of_mem_furtherTasks (hts t ht) with ⟨j, rfl, -⟩ | ⟨rfl, -⟩
  · obtain ⟨h₁, h₂⟩ := hapart j ht
    exact (h j).avoids_placed h₁ h₂ hi
  · exact absurd hi not_mem_nil

/-- The search for the member `k` ends at the member `j`, if that begins like it and all members
    above it begin otherwise. -/
theorem findMember_at (h : c.Writes r item) {j : MemberKind} {us : List Task}
    (hprops : k = .props → r.adopts) (htasks : r.furtherTasks = ts ++ .install j :: us)
    (hapart : ∀ i, .install i ∈ ts → ¬ k.signature c.name <+: i.signature c.name
      ∧ ¬ i.signature c.name <+: k.signature c.name)
    (hj : k.signature c.name <+: j.signature c.name) (n : Int) (name : Text) :
    ∃ found, ((c.settled r item).scanned n).findMember name (k.build r (c.rebuilt r 0)).finder
        = .ok (some found)
      ∧ found.current = some (j.build r (c.rebuilt r 0)).replacement := by
  have hplain := c.isPlain_rebuilt r 0
  have hsig := bareSignature_finder hplain.name_eq hplain.generics_eq c.word r k
  let marks : List Item := Item.blank :: (overrideMark j.isMarked).map (fun _ => Item.mark)
  have hbody : (c.settled r item).body
      = ((c.settled r item).fields.map (fun f => { first := f.line })
        ++ (c.settled r item).constructorItems ++ (ts.flatMap (Task.items item) ++ marks))
      ++ (item j).indented :: us.flatMap (Task.items item) := by
    have hplaced : (Task.install j).items item = marks ++ [(item j).indented] := rfl
    rw [ClassParts.body, show (c.settled r item).items = r.furtherTasks.flatMap (Task.items item)
      from rfl, htasks, flatMap_append, flatMap_cons, hplaced]
    simp only [append_assoc, cons_append, nil_append]
  -- the search passes over fields, constructor, the members above, and the annotation of `j`
  have hbefore : ∀ i ∈ (c.settled r item).fields.map (fun f => { first := f.line })
      ++ (c.settled r item).constructorItems ++ (ts.flatMap (Task.items item) ++ marks),
      i.Sits ∧ i.Avoids (bareSignature (k.build r (c.rebuilt r 0)).finder) := by
    intro i hi
    rw [hsig]
    rcases mem_append.mp hi with hi | hi
    · exact avoids_front k hprops hi
    · rcases mem_append.mp hi with hi | hi
      · exact avoids_others h (fun t ht => htasks ▸ mem_append_left _ ht) hapart hi
      · rcases mem_cons.mp hi with rfl | hi
        · exact ⟨Item.sits_blank, Item.avoids_blank _⟩
        · obtain ⟨-, -, rfl⟩ := mem_map.mp hi
          exact ⟨Item.sits_mark, Item.avoids_mark _⟩
  have hstart : (bareSignature (item j).indented.first.trim).startsWith
      (bareSignature (k.build r (c.rebuilt r 0)).finder) := by
    obtain ⟨tail, htail⟩ := (h j).signature_indented
    rw [hsig, htail, startsWith_iff]
    exact hj.trans (prefix_append _ _)
  rw [(h j).replacement_eq]
  exact SourceClass.findMember_some rfl rfl (isLined_settled h) (fits_settled h).header name hbody
    hbefore (h j).isMember_indented hstart

/-- **Each member is found where it was written.** -/
theorem findMember_settled (h : c.Writes r item) (hd : k = .props → c.Distinct r)
    (hk : .install k ∈ r.furtherTasks) (n : Int) (name : Text) :
    ∃ found, ((c.settled r item).scanned n).findMember name (k.build r (c.rebuilt r 0)).finder
        = .ok (some found)
      ∧ found.current = some (k.build r (c.rebuilt r 0)).replacement := by
  have hprops : k = .props → r.adopts := by
    rintro rfl
    exact Request.adopts_of_mem hk
  obtain ⟨ts, us, htasks, hno⟩ := eq_append_cons_of_mem hk
  have hmem : ∀ {j}, .install j ∈ ts → .install j ∈ r.furtherTasks := fun hj =>
    htasks ▸ mem_append_left _ hj
  -- nothing is written in front of `copyWith`
  have hfirst : k = .copyWith → ts = [] := by
    rintro rfl
    obtain ⟨us', hcons⟩ := Request.furtherTasks_cons (Request.copies_of_mem hk)
    cases ts with
    | nil => rfl
    | cons t ts =>
      rw [hcons, cons_append, List.cons.injEq] at htasks
      exact absurd (htasks.1 ▸ mem_cons_self) hno
  refine findMember_at h hprops htasks (fun j hj => ?_) prefix_rfl n name
  have hne : k ≠ j := by
    rintro rfl
    exact hno hj
  refine ⟨signature_apart c.word c.upper hne ?_, signature_apart c.word c.upper hne.symm ?_⟩
  · rintro hp rfl
    exact hd hp (Request.copies_of_mem (hmem hj)) (hprops hp)
  · rintro - hc
    rw [hfirst hc] at hj
    exact absurd hj not_mem_nil

theorem run_install_settled (h : c.Writes r item) (hd : k = .props → c.Distinct r)
    (hk : .install k ∈ r.furtherTasks) (n : Int) (d : Directives) :
    (Work.perform r (.install k)).run ⟨(c.settled r item).scanned n, d⟩
      = .ok () ⟨(c.settled r item).scanned n,
          d.requireAll (k.build r (c.rebuilt r 0)).imports⟩ := by
  obtain ⟨found, hfound, hcurrent⟩ := findMember_settled h hd hk n (k.build r (c.rebuilt r 0)).name
  have hsame : sameUpToBlanks (found.current.getD []) (k.build r (c.rebuilt r 0)).replacement := by
    rw [hcurrent, Option.getD_some, sameUpToBlanks, beq_self_eq_true]
  rw [Work.run_perform_install, build_settled, Work.run_install, hfound]
  dsimp only
  rw [if_pos hsame]

/-! ## §3. The plan. -/

theorem run_adopt_settled (ha : r.adopts) (n : Int) (d : Directives) :
    (Work.perform r .adoptEquatable).run ⟨(c.settled r item).scanned n, d⟩
      = .ok () ⟨(c.settled r item).scanned n, d.requireAll [{ uri := equatableLibrary }]⟩ := by
  have hhead : ((c.settled r item).scanned n).head
      = plainHead c.name r.adopts (r.options .equatableMixin) := rfl
  show (Work.adoptEquatable r).run _ = _
  rw [Work.run_adoptEquatable, hhead, superclass_plainHead, usesEquatable_plainHead, ha]
  rfl

/-- Tasks of the plan leave a settled class as it is. -/
theorem run_tasks_settled (h : c.Writes r item) (n : Int) (ts : List Task) (d : Directives)
    (hts : ∀ t ∈ ts, t ∈ r.plan {}) (hd : .install .props ∈ ts → c.Distinct r) :
    (ts.forM (Work.perform r)).run ⟨(c.settled r item).scanned n, d⟩
      = .ok () ⟨(c.settled r item).scanned n,
          d.requireAll (ts.flatMap (Task.imports r (c.rebuilt r 0)))⟩ := by
  induction ts generalizing d with
  | nil => rfl
  | cons t ts ih =>
    have hrest := ih (d.requireAll (t.imports r (c.rebuilt r 0)))
      (forall_mem_cons.mp hts).2 fun hp => hd (mem_cons_of_mem _ hp)
    have hstep : (Work.perform r t).run ⟨(c.settled r item).scanned n, d⟩
        = .ok () ⟨(c.settled r item).scanned n, d.requireAll (t.imports r (c.rebuilt r 0))⟩ := by
      have ht := hts t mem_cons_self
      rcases Request.cases_of_mem_plan ht with ⟨rfl, hr⟩ | ⟨k, rfl, -⟩ | ⟨rfl, ha⟩
      · exact run_rebuild_settled hr n d
      · refine run_install_settled h (fun hk => hd (hk ▸ mem_cons_self)) ?_ n d
        rw [r.plan_eq, mem_append, Task.mem_when] at ht
        exact ht.resolve_left fun hc => by simp at hc
      · exact run_adopt_settled ha n d
    rw [Work.run_forM_cons, hstep]
    dsimp only
    rw [hrest, flatMap_cons, Directives.requireAll_append]

theorem plan_settled (c : PlainClass) (r : Request) (item : MemberKind → Item) (n : Int) :
    r.plan ((c.settled r item).scanned n) = r.plan {} := by
  have huse : r.adopts → r.options .useEquatable := by
    intro ha
    rw [Request.adopts, Bool.and_eq_true] at ha
    exact ha.1
  have hheader : (c.settled r item).header
      = headLine (plainHead c.name r.adopts (r.options .equatableMixin)) := rfl
  exact plan_scanned hheader rfl huse n

theorem flatMap_imports_plan (c : PlainClass) (r : Request) :
    (r.plan {}).flatMap (Task.imports r (c.rebuilt r 0)) = c.imports r := by
  have hnone : (Task.rebuildConstructor.when r.rebuilds).flatMap (Task.imports r (c.rebuilt r 0))
      = [] := by
    cases r.rebuilds <;> rfl
  rw [r.plan_eq, flatMap_append, hnone]
  rfl

/-- **The plan for a settled class changes nothing**, if its members are told apart. -/
theorem run_performAll_settled (h : c.Writes r item) (hd : c.Distinct r) (n : Int)
    (d : Directives) :
    (Work.performAll r).run ⟨(c.settled r item).scanned n, d⟩
      = .ok () ⟨(c.settled r item).scanned n, d.requireAll (c.imports r)⟩ := by
  show ((r.plan ((c.settled r item).scanned n)).forM (Work.perform r)).run _ = _
  rw [plan_settled, run_tasks_settled h n _ d (fun _ ht => ht) (fun _ => hd), flatMap_imports_plan]

/-! ## §4. The exception. -/

/-- `copyWith` begins with the name of the class. -/
theorem squeeze_copyWith {d : SourceClass} (hd : d.IsPlain c.name c.fields) :
    ∃ t, (Member.copyWith d).text.squeeze = c.name ++ t := by
  have hname : c.name.squeeze = c.name := by
    refine filter_eq_self.mpr fun x hx => ?_
    rw [isBlank_of_isWord (all_eq_true.mp c.word x hx)]
    rfl
  have htext : ∃ ls, (Member.copyWith d).text
      = unlines (of [d.type, " copyWith(\x7b"] :: ls) := ⟨_, rfl⟩
  obtain ⟨ls, hls⟩ := htext
  refine ⟨squeeze (of [" copyWith(\x7b"]) ++ (ls.map squeeze).flatten, ?_⟩
  rw [hls, squeeze_unlines, map_cons, flatten_cons, hd.type_eq, ← append_assoc]
  congr 1
  show squeeze (c.name ++ of [" copyWith(\x7b"]) = _
  rw [squeeze_append, hname]

theorem squeeze_props (d : SourceClass) :
    ∃ t, (Member.props d).text.squeeze = "@override" ++ ("List<" ++ t) := by
  unfold Member.props
  dsimp only
  split
  · rw [squeeze_unlines]
    exact ⟨_, rfl⟩
  · rw [squeeze_unlines]
    exact ⟨_, rfl⟩

/-- The text of `copyWith` begins with the name of the class, that of `props` with `List<`. -/
theorem replacement_apart (h : c.Writes r item) (hs : c.name.startsWith "Listgetprops") :
    sameUpToBlanks (MemberKind.copyWith.build r (c.rebuilt r 0)).replacement
      (MemberKind.props.build r (c.rebuilt r 0)).replacement = false := by
  have hnone : (unlines (overrideMark MemberKind.copyWith.isMarked)).squeeze = [] := rfl
  have hmark : (unlines (overrideMark MemberKind.props.isMarked)).squeeze = "@override" := by
    decide
  obtain ⟨x, hx⟩ := squeeze_copyWith (c.isPlain_rebuilt r 0)
  obtain ⟨y, hy⟩ := squeeze_props (c.rebuilt r 0)
  obtain ⟨z, hz⟩ := startsWith_iff.mp hs
  have hx : (MemberKind.copyWith.build r (c.rebuilt r 0)).text.squeeze = c.name ++ x := hx
  have hy : (MemberKind.props.build r (c.rebuilt r 0)).text.squeeze
      = "@override" ++ ("List<" ++ y) := hy
  have hcopy : (MemberKind.copyWith.build r (c.rebuilt r 0)).replacement.squeeze
      = "Listgetprops" ++ (z ++ x) := by
    rw [← append_assoc, hz, ← hx, (h .copyWith).squeeze_text, hnone, nil_append]
  have hprops : (MemberKind.props.build r (c.rebuilt r 0)).replacement.squeeze
      = "List<" ++ y := by
    rw [(h .props).squeeze_text, hmark] at hy
    exact append_cancel_left hy
  rw [sameUpToBlanks, beq_eq_false_iff_ne, hcopy, hprops]
  intro heq
  exact absurd (congrArg (fun t : Text => t[4]?) heq) (by simp)

/-- `copyWith` is taken for `props`, and replaced. -/
theorem run_performAll_taken (h : c.Writes r item) (hc : r.copies) (ha : r.adopts)
    (hs : c.name.startsWith "Listgetprops") (n : Int) (d : Directives) :
    ∃ m, (Work.performAll r).run ⟨(c.settled r item).scanned n, d⟩
      = .ok () ⟨{ (c.settled r item).scanned n with replaced := [m] },
          d.requireAll (c.imports r)⟩ := by
  obtain ⟨us, htasks⟩ : ∃ us, r.furtherTasks = [] ++ .install .copyWith :: us :=
    Request.furtherTasks_cons hc
  obtain ⟨ts, hplan, hno⟩ := Request.plan_concat ha
  have hsig : MemberKind.props.signature c.name <+: MemberKind.copyWith.signature c.name :=
    (startsWith_iff.mp hs).trans (prefix_append _ _)
  obtain ⟨found, hfound, hcurrent⟩ := findMember_at (k := .props) h (fun _ => ha)
    htasks (fun i hi => absurd hi not_mem_nil) hsig n
    (MemberKind.props.build r (c.rebuilt r 0)).name
  have happart : ¬ sameUpToBlanks (found.current.getD [])
      (MemberKind.props.build r (c.rebuilt r 0)).replacement := by
    rw [hcurrent, Option.getD_some, replacement_apart h hs]
    exact Bool.false_ne_true
  have hrest := run_tasks_settled h n ts d
    (fun t ht => by rw [hplan]; exact mem_append_left _ ht) fun hp => absurd hp hno
  refine ⟨{ found with
    replacement := some (MemberKind.props.build r (c.rebuilt r 0)).replacement }, ?_⟩
  show ((r.plan ((c.settled r item).scanned n)).forM (Work.perform r)).run _ = _
  rw [plan_settled, ← flatMap_imports_plan, hplan, Work.run_forM_concat, hrest]
  dsimp only
  rw [Work.run_perform_install, build_settled, Work.run_install, hfound]
  dsimp only
  rw [if_neg happart, flatMap_append, Directives.requireAll_append]
  rfl

/-! ## §5. Work on a settled class. -/

theorem isValid_settled (c : PlainClass) (r : Request) (item : MemberKind → Item) (n : Int) :
    ((c.settled r item).scanned n).isValid :=
  isValid_of (c.isPlain_settled r item n) rfl rfl

/-- A settled class can be assembled, whatever is replaced in it. -/
theorem assemble_settled (h : c.Writes r item) (hn : 1 ≤ n) (ms : List ExistingMember) :
    ∃ t, SourceClass.assemble { (c.settled r item).scanned n with replaced := ms } = .ok t := by
  have hpos : 0 < (c.settled r item).lines.length :=
    length_pos_iff.mpr (ClassParts.lines_ne_nil _)
  have hends : ∀ t, ((c.settled r item).scanned n).constructorText = some t →
      ((c.settled r item).scanned n).hasConstructor = false → t.EndsLine := by
    intro t ht hno
    obtain ⟨i, hi, -⟩ := Option.map_eq_some_iff.mp ht
    simp [SourceClass.hasConstructor, ClassParts.scanned, hi] at hno
  obtain ⟨t, ht, -⟩ := SourceClass.assemble_keeps
    (c := { (c.settled r item).scanned n with replaced := ms })
    { first_eq := rfl
      headLast_eq := rfl
      last_eq := rfl
      one_le := hn
      first_le := Int.le_refl n
      headLast_le := by omega
      lines_eq := (isLined_settled h).lines_content
      length_eq := by omega
      insertion_ends := .inl rfl
      constructor_ends := hends }
  exact ⟨t, ht⟩

/-- **Work on a settled class** requires the same imports as before, and comes to an edit just if
    the members are not told apart. -/
theorem run_revise_settled (h : c.Writes r item) (hn : 1 ≤ n) (d : Directives) :
    ∃ edit c', (Work.revise r).run ⟨(c.settled r item).scanned n, d⟩
        = .ok edit ⟨c', d.requireAll (c.imports r)⟩
      ∧ (edit = none ↔ c.Distinct r) := by
  by_cases hd : c.Distinct r
  · obtain ⟨t, ht⟩ := assemble_settled h hn []
    refine ⟨none, _, Work.run_revise (run_performAll_settled h hd n d) ht, ?_⟩
    simp [hd]
  · have htaken : r.copies ∧ r.adopts ∧ c.name.startsWith "Listgetprops" := by
      simpa [Distinct] using hd
    obtain ⟨hc, ha, hs⟩ := htaken
    obtain ⟨m, hm⟩ := run_performAll_taken h hc ha hs n d
    obtain ⟨t, ht⟩ := assemble_settled h hn [m]
    refine ⟨some (SourceClass.edit _ t), _, Work.run_revise hm ht, ?_⟩
    simp [hd]

end PlainClass

end DartData
