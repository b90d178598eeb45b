import DartData.Proofs.Plain.Settled

/-!
# Writing further members

A class into which the members of one request have been written gets those of a second one behind
them.  The outcome is the class into which the members of both are written at once: the second
request finds none of its members, inserts all of them in front of the closing brace, and leaves the
lines above as they are.
-/

namespace DartData

open List Text

/-! ## §1. Inserting into a class in its parts. -/

namespace ClassParts

variable {p : ClassParts} {n : Int}

/-- The class with some more items at its end. -/
def extended (p : ClassParts) (is : List Item) : ClassParts := { p with items := p.items ++ is }

/-- The class in work, with some items to be inserted. -/
def inserting (p : ClassParts) (n : Int) (is : List Item) : SourceClass :=
  { p.scanned n with insertion := endLines (itemLines is) }

theorem lines_extended (p : ClassParts) (is : List Item) :
    (p.extended is).lines = p.header :: (itemLines p.body ++ (itemLines is ++ [['}']])) := by
  have hbody : (p.extended is).body = p.body ++ is := (append_assoc _ _ _).symm
  show p.header :: (itemLines (p.extended is).body ++ [['}']]) = _
  rw [hbody, itemLines_append, append_assoc]

theorem headOffset_inserting (is : List Item) : (p.inserting n is).headOffset n = 0 := by
  have hlast : (p.inserting n is).headLast = some n := rfl
  simp only [SourceClass.headOffset, hlast, Option.getD_some]
  split <;> omega

/-- Below the class line only the last line changes: the items are put in front of it. -/
theorem assembleLine_inserting (hv : (p.scanned n).isValid) {ls : List Text} {l : Text}
    {i : Nat} (hl : ls[i + 1]? = some l) (is : List Item) (last : Int) (after : Text) :
    (p.inserting n is).assembleLine ls n last (i + 1) after = if n + (i + 1 : Nat) = last then
          .ok (of [endLines (itemLines is), l, "\n", after])
        else .ok (of [l, "\n", after]) := by
  have hhead : ¬ ((i + 1 : Nat) : Int) ≤ (p.inserting n is).headOffset n := by
    rw [headOffset_inserting]
    omega
  -- a constructor that is there is kept, and none is put below the fields
  have hnew : ((p.inserting n is).constructorText.isSome && !(p.inserting n is).hasConstructor)
      = false := by
    rw [SourceClass.hasConstructor]
    show ((p.constructor.map _).isSome && !((p.constructor.map _).isSome
      && (p.constructor.map _).isSome && (p.constructor.map _).isSome)) = false
    cases p.constructor <;> rfl
  have hold : ∀ m, (p.inserting n is).inOldConstructor m = false := by
    intro m
    have hunchanged : (p.inserting n is).constructorChanged = false := rfl
    rw [SourceClass.inOldConstructor, hunchanged]
    split <;> simp
  have hreplaced : ∀ m, (p.inserting n is).replacementAt m = none := fun m => rfl
  have hvalid : (p.inserting n is).isValid := hv
  rw [SourceClass.assembleLine, hl]
  dsimp only
  rw [if_neg hhead, Bool.and_assoc, hnew, hvalid, hold, hreplaced]
  simp only [Bool.and_false, Bool.and_true, beq_iff_eq, Bool.false_eq_true, if_false]
  rfl

/-- **A class with some items inserted is assembled to the class with these items at its end.** -/
theorem assemble_inserting {name : Text} {adopted asMixin : Bool}
    (hheader : p.header = headLine (plainHead name adopted asMixin))
    (hhead : p.head = plainHead name adopted asMixin) (hlined : p.IsLined)
    (hv : (p.scanned n).isValid) (is : List Item) :
    (p.inserting n is).assemble = .ok (unlines (p.extended is).lines) := by
  have hlines : p.lines = p.header :: (itemLines p.body ++ [['}']]) := rfl
  have hcontent : (p.inserting n is).content.lines = p.header :: (itemLines p.body ++ [['}']]) :=
    hlined.lines_content
  have hcount : p.lines.length = (itemLines p.body).length + 2 := by simp [hlines]
  have hlast : (n + p.lines.length - 1 - n + 1).toNat = (itemLines p.body).length + 2 := by omega
  -- from the bottom upwards: the brace below the new items, the body, the header
  have hbrace : ∀ after, (p.inserting n is).assembleLine (p.header :: (itemLines p.body ++ [['}']]))
      n (n + p.lines.length - 1) ((itemLines p.body).length + 1) after
      = .ok (endLines (itemLines is) ++ ('}' :: '\n' :: after)) := by
    intro after
    rw [assembleLine_inserting (l := ['}']) hv (by simp), if_pos (by omega)]
    simp [of]
  have hkept : ∀ after, (p.inserting n is).assembleLines
      (p.header :: (itemLines p.body ++ [['}']])) n (n + p.lines.length - 1)
      ((itemLines p.body).length + 1) after
      = (p.inserting n is).assembleLine (p.header :: (itemLines p.body ++ [['}']])) n
        (n + p.lines.length - 1) 0
        (endLines ((itemLines p.body ++ [['}']]).take (itemLines p.body).length) ++ after) := by
    refine SourceClass.assembleLines_kept _ (by simp) fun i l hi hl after => ?_
    rw [assembleLine_inserting hv (by simpa using hl), if_neg (by omega)]
    simp [of]
  have habstract : (p.inserting n is).isAbstract = false := isAbstract_scanned hheader n
  have hfirst : ∀ after, (p.inserting n is).assembleLine
      (p.header :: (itemLines p.body ++ [['}']])) n (n + p.lines.length - 1) 0 after
      = .ok (p.header ++ '\n' :: after) := by
    intro after
    have hmem : '{' ∈ p.header := hheader ▸ mem_headLine _
    rw [SourceClass.assembleLine_header (headOffset_inserting is) habstract hmem,
      show (p.inserting n is).head = p.head from rfl, hhead, ← hheader]
  have hassembled : (p.inserting n is).assembleLines (p.header :: (itemLines p.body ++ [['}']])) n
      (n + p.lines.length - 1) ((itemLines p.body).length + 2) []
      = .ok (endLines (p.extended is).lines) := by
    rw [SourceClass.assembleLines, hbrace]
    show SourceClass.assembleLines _ _ _ _ ((itemLines p.body).length + 1) _ = _
    rw [hkept, hfirst, lines_extended]
    simp
  rw [SourceClass.assemble, show (p.inserting n is).first = some n from rfl,
    show (p.inserting n is).last = some (n + p.lines.length - 1) from rfl]
  dsimp only
  rw [hcontent, hlast, hassembled]
  show Except.ok ((endLines (p.extended is).lines).removeEnd ['\n']) = _
  rw [removeEnd_endLines (lines_ne_nil _)]

end ClassParts

/-! ## §2. One request after another. -/

/-- After `s` the request `t` writes further members, and `u` writes those of both at once. -/
structure Request.Continues (s t u : Request) : Prop where
  adopts_eq : s.adopts = false ∧ t.adopts = false ∧ u.adopts = false
  rebuilds_eq : t.rebuilds = false ∧ u.rebuilds = s.rebuilds
  defaults_eq : u.options .constructorDefaults = s.options .constructorDefaults
  tasks_eq : u.furtherTasks = s.furtherTasks ++ t.furtherTasks
  apart : ∀ k, .install k ∈ t.furtherTasks → .install k ∉ s.furtherTasks
  build_eq : ∀ k c, MemberKind.build k t c = k.build s c ∧ k.build u c = k.build s c

namespace PlainClass

variable {c : PlainClass} {s t u : Request} {item : MemberKind → Item}

section

variable (c)

/-- The libraries that the further members need. -/
def furtherImports (s t : Request) : List RequiredImport :=
  t.furtherTasks.flatMap (Task.imports s (c.rebuilt s 0))

theorem constructor_continues (h : s.Continues t u) : c.constructor u = c.constructor s := by
  rw [constructor, constructor, h.adopts_eq.1, h.adopts_eq.2.2, h.defaults_eq]

theorem rebuilt_continues (h : s.Continues t u) (n : Int) : c.rebuilt u n = c.rebuilt s n := by
  rw [rebuilt, rebuilt, h.rebuilds_eq.2, c.constructor_continues h]

theorem settled_continues (h : s.Continues t u) : c.settled u item
      = (c.settled s item).extended (t.furtherTasks.flatMap (Task.items item)) := by
  have hhead : ∀ r : Request, r.adopts = false →
      plainHead c.name r.adopts (r.options .equatableMixin) = { name := some c.name } := by
    intro r hr
    rw [hr]
    rfl
  unfold settled ClassParts.extended
  dsimp only
  rw [hhead s h.adopts_eq.1, hhead u h.adopts_eq.2.2, h.rebuilds_eq.2, c.constructor_continues h,
    h.tasks_eq, flatMap_append]

theorem imports_continues (h : s.Continues t u) :
    c.imports u = c.imports s ++ c.furtherImports s t := by
  have himports : Task.imports u (c.rebuilt u 0) = Task.imports s (c.rebuilt s 0) := by
    funext task
    rw [c.rebuilt_continues h]
    cases task with
    | install k => exact congrArg Member.imports (h.build_eq k _).2
    | _ => rfl
  rw [imports, h.tasks_eq, himports, flatMap_append]
  rfl

end

theorem Writes.continues (hw : c.Writes s item) (h : s.Continues t u) : c.Writes u item := by
  intro k
  rw [c.rebuilt_continues h, (h.build_eq k _).2]
  exact hw k

/-! ## §3. One member. -/

theorem build_inserting (h : s.Continues t u) (n : Int) (is : List Item) (k : MemberKind) :
    k.build t ((c.settled s item).inserting n is) = k.build s (c.rebuilt s 0) := by
  rw [← c.build_settled s item n k, (h.build_eq k _).1]
  exact MemberKind.build_congr rfl rfl rfl rfl s k

section

variable (hw : c.Writes s item) (h : s.Continues t u)
include hw h

/-- None of the further members is found. -/
theorem findMember_inserting {k : MemberKind} (hk : .install k ∈ t.furtherTasks) (n : Int)
    (is : List Item) (name : Text) :
    ((c.settled s item).inserting n is).findMember name (k.build s (c.rebuilt s 0)).finder
      = .ok none := by
  have hplain := c.isPlain_rebuilt s 0
  have hsig := bareSignature_finder hplain.name_eq hplain.generics_eq c.word s k
  have hprops : ∀ {r : Request} {j}, r.adopts = false → .install j ∈ r.furtherTasks →
      j ≠ .props := by
    rintro r j hr hj rfl
    exact absurd (Request.adopts_of_mem hj) (by simp [hr])
  have hkp : k ≠ .props := hprops h.adopts_eq.2.1 hk
  refine SourceClass.findMember_none rfl rfl (isLined_settled hw) (fits_settled hw).header name
    fun i hi => ?_
  rw [hsig]
  rcases mem_append.mp hi with hi | hi
  · exact avoids_front k (fun he => absurd he hkp) hi
  · refine avoids_others hw (fun _ ht => ht) (fun j hj => ?_) hi
    have hne : k ≠ j := by
      rintro rfl
      exact h.apart k hk hj
    exact ⟨signature_apart c.word c.upper hne fun he => absurd he hkp,
      signature_apart c.word c.upper hne.symm fun he => absurd he (hprops h.adopts_eq.1 hj)⟩

theorem run_install_inserting {k : MemberKind} (hk : .install k ∈ t.furtherTasks) (n : Int)
    (is : List Item) (d : Directives) :
    (Work.perform t (.install k)).run ⟨(c.settled s item).inserting n is, d⟩
      = .ok () ⟨(c.settled s item).inserting n (is ++ (item k).placed k.isMarked),
          d.requireAll (k.build s (c.rebuilt s 0)).imports⟩ := by
  rw [Work.run_perform_install, build_inserting h, Work.run_install, findMember_inserting hw h hk]
  dsimp only
  rw [show ((c.settled s item).inserting n is).insertion = endLines (itemLines is) from rfl,
    (hw k).endLines_append_indent]
  rfl

/-! ## §4. The class. -/

/-- The members that are missing are put in. -/
theorem run_tasks_inserting (n : Int) (ts : List Task) (is : List Item) (d : Directives)
    (hts : ∀ task ∈ ts, task ∈ t.furtherTasks) :
    (ts.forM (Work.perform t)).run ⟨(c.settled s item).inserting n is, d⟩
      = .ok () ⟨(c.settled s item).inserting n (is ++ ts.flatMap (Task.items item)),
          d.requireAll (ts.flatMap (Task.imports s (c.rebuilt s 0)))⟩ := by
  induction ts generalizing is d with
  | nil =>
    rw [flatMap_nil, append_nil]
    rfl
  | cons task ts ih =>
    have hmem := hts task mem_cons_self
    rcases Request.cases_of_mem_furtherTasks hmem with ⟨k, rfl, -⟩ | ⟨-, ha⟩
    · rw [Work.run_forM_cons, run_install_inserting hw h hmem]
      dsimp only
      rw [ih _ _ (forall_mem_cons.mp hts).2, flatMap_cons,
        flatMap_cons, append_assoc, Directives.requireAll_append]
      rfl
    · rw [h.adopts_eq.2.1] at ha
      exact absurd ha Bool.false_ne_true

/-- **The further members are written into a settled class**, which then is the class with the
    members of both requests. -/
theorem run_revise_continues (n : Int) (d : Directives) :
    ∃ edit c', (Work.revise t).run ⟨(c.settled s item).scanned n, d⟩
        = .ok edit ⟨c', d.requireAll (c.furtherImports s t)⟩
      ∧ (c.settled s item).TurnsInto (c.settled u item) n edit := by
  have hheader : (c.settled s item).header
      = headLine (plainHead c.name s.adopts (s.options .equatableMixin)) := rfl
  have hplan : t.plan ((c.settled s item).scanned n) = t.furtherTasks := by
    rw [plan_scanned hheader rfl (by simp [h.adopts_eq.1]), t.plan_eq, h.rebuilds_eq.1]
    rfl
  have hrun : (Work.performAll t).run ⟨(c.settled s item).scanned n, d⟩
      = .ok () ⟨(c.settled s item).inserting n (t.furtherTasks.flatMap (Task.items item)),
          d.requireAll (c.furtherImports s t)⟩ := by
    show ((t.plan ((c.settled s item).scanned n)).forM (Work.perform t)).run _ = _
    rw [hplan]
    exact run_tasks_inserting hw h n t.furtherTasks [] d fun _ ht => ht
  have hassemble := ClassParts.assemble_inserting hheader rfl (isLined_settled hw)
    (c.isValid_settled s item n) (t.furtherTasks.flatMap (Task.items item))
  refine ⟨_, _, Work.run_revise hrun hassemble, ?_⟩
  rw [← c.settled_continues h]
  split
  · exact ClassParts.turnsInto_edit rfl rfl (isLined_settled (hw.continues h))
  · next hsame =>
    -- nothing is inserted, so there are no lines to insert
    have hnone : itemLines (t.furtherTasks.flatMap (Task.items item)) = [] := by
      cases hls : itemLines (t.furtherTasks.flatMap (Task.items item)) with
      | nil => rfl
      | cons l ls => simp [SourceClass.isChanged, ClassParts.inserting, hls] at hsame
    show (c.settled u item).lines = (c.settled s item).lines
    rw [c.settled_continues h, ClassParts.lines_extended, hnone]
    rfl

end

end PlainClass

end DartData
