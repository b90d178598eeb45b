import DartData.Generation
import DartData.Proofs.Outcome

/-!
# What work on a class comes to

Each task, run on a class and the directives of its file, comes to one of a few outcomes.  The
equations of this module say which, so that later proofs go by the outcomes and do not open the
tasks again.
-/

namespace DartData

/-- The directives with all the imports of a member required. -/
def Directives.requireAll (d : Directives) (is : List RequiredImport) : Directives :=
  is.foldl (fun d i => d.require i.uri i.alternatives) d

theorem Directives.requireAll_append (d : Directives) (is js : List RequiredImport) :
    d.requireAll (is ++ js) = (d.requireAll is).requireAll js := List.foldl_append

theorem Task.mem_when {s t : Task} {b : Bool} : s ∈ t.when b ↔ b ∧ s = t := by
  cases b <;> simp [Task.when]

/-- The class after it has adopted `Equatable`. -/
def SourceClass.adopting (c : SourceClass) (asMixin : Bool) : SourceClass :=
  { c with
    head :=
      if c.head.superclass.isSome || asMixin then
        { c.head with mixins := c.head.mixins ++ ["EquatableMixin".toList] }
      else { c.head with superclass := some "Equatable" }
    headChanged := true }

namespace Work

/-! ## §1. Steps. -/

theorem run_lift {α : Type} (x : Except Fault α) (s : Draft) : (lift x).run s = match x with
      | .ok a => .ok a s
      | .error f => .error f s := by
  cases x <;> rfl

theorem run_requireAll (is : List RequiredImport) (c : SourceClass) (d : Directives) :
    (is.forM fun i => require i.uri i.alternatives).run ⟨c, d⟩ = .ok () ⟨c, d.requireAll is⟩ := by
  induction is generalizing d with
  | nil => rfl
  | cons i is ih => exact ih (d.require i.uri i.alternatives)

/-! ## §2. Tasks. -/

/-- What rebuilding the constructor does. -/
theorem run_rebuildConstructor (r : Request) (c : SourceClass) (d : Directives) :
    (rebuildConstructor r).run ⟨c, d⟩ = match c.newConstructor (r.options .constructorDefaults)
          (r.comparesByEquatable c && r.selects .useEquatable) with
      | .error f => .error f ⟨c, d⟩
      | .ok text =>
        if c.hasConstructor && Text.sameUpToBlanks (c.constructorText.getD []) text then
          .ok () ⟨c, d⟩
        else
          .ok () ⟨{ c with constructorText := some text.indent, constructorChanged := true },
            d⟩ := by
  simp only [rebuildConstructor, EStateM.run_bind, EStateM.run_get, run_lift]
  cases c.newConstructor (r.options .constructorDefaults)
      (r.comparesByEquatable c && r.selects .useEquatable) with
  | error f => rfl
  | ok text =>
    dsimp only
    split <;> rfl

/-- What putting in a member does. -/
theorem run_install (m : Member) (c : SourceClass) (d : Directives) : (install m).run ⟨c, d⟩ =
      match c.findMember m.name m.finder with
      | .error f => .error f ⟨c, d.requireAll m.imports⟩
      | .ok none =>
        .ok () ⟨{ c with insertion := c.insertion ++ ['\n'] ++ m.text.indent },
          d.requireAll m.imports⟩
      | .ok (some found) =>
        if Text.sameUpToBlanks (found.current.getD []) m.replacement then
          .ok () ⟨c, d.requireAll m.imports⟩
        else
          .ok () ⟨{ c with
            replaced := c.replaced ++ [{ found with replacement := some m.replacement }] },
            d.requireAll m.imports⟩ := by
  simp only [install, EStateM.run_bind, run_requireAll, EStateM.run_get, run_lift]
  cases c.findMember m.name m.finder with
  | error f => rfl
  | ok found =>
    cases found with
    | none => rfl
    | some found =>
      dsimp only
      cases Text.sameUpToBlanks (found.current.getD []) m.replacement <;> rfl

theorem run_adoptEquatable (r : Request) (c : SourceClass) (d : Directives) :
    (adoptEquatable r).run ⟨c, d⟩ = if c.head.superclass.any (·.has "Base") then .ok () ⟨c, d⟩
      else if c.head.usesEquatable then .ok () ⟨c, d.require equatableLibrary []⟩
      else .ok () ⟨c.adopting (r.options .equatableMixin), d.require equatableLibrary []⟩ := by
  simp only [adoptEquatable, EStateM.run_bind, EStateM.run_get]
  split
  · rfl
  · simp only [EStateM.run_bind]
    show EStateM.run (if _ then _ else _) _ = _
    split <;> rfl

theorem run_perform_install (r : Request) (k : MemberKind) (c : SourceClass) (d : Directives) :
    (perform r (.install k)).run ⟨c, d⟩ = (install (k.build r c)).run ⟨c, d⟩ := rfl

/-! ## §3. Plans. -/

theorem run_forM_cons (r : Request) (t : Task) (ts : List Task) (s : Draft) :
    ((t :: ts).forM (perform r)).run s = match (perform r t).run s with
      | .ok _ s' => (ts.forM (perform r)).run s'
      | .error f s' => .error f s' := by
  rw [List.forM, EStateM.run_bind]
  cases (perform r t).run s <;> rfl

/-- One more task at the end. -/
theorem run_forM_concat (r : Request) (ts : List Task) (t : Task) (s : Draft) :
    ((ts ++ [t]).forM (perform r)).run s = match (ts.forM (perform r)).run s with
      | .ok _ s' => (perform r t).run s'
      | .error f s' => .error f s' := by
  induction ts generalizing s with
  | nil =>
    rw [List.nil_append, run_forM_cons]
    show _ = (perform r t).run s
    cases (perform r t).run s <;> rfl
  | cons u ts ih =>
    rw [List.cons_append, run_forM_cons, run_forM_cons]
    cases (perform r u).run s with
    | ok _ s' => exact ih s'
    | error f s' => rfl

variable {r : Request} {c c' : SourceClass} {d d' : Directives} {edit : Option ClassEdit}

theorem run_revise {t : Text} (h : (performAll r).run ⟨c, d⟩ = .ok () ⟨c', d'⟩)
    (ht : c'.assemble = .ok t) :
    (revise r).run ⟨c, d⟩ = .ok (if c'.isChanged then some (c'.edit t) else none) ⟨c', d'⟩ := by
  simp only [revise, EStateM.run_bind, h, EStateM.run_get]
  split
  · rw [EStateM.run_bind, ht, run_lift]
    rfl
  · rfl

/-- What the template does. -/
theorem run_reviseByTemplate (r : Request) (text : Text) (c : SourceClass) (d : Directives)
    {b : Bool}
    (hb : c.isAnnotatedIn text = .ok b) :
    (reviseByTemplate r text).run ⟨c, d⟩ =
      .ok (if Text.sameUpToBlanks (c.fromTemplate (!b)) c.content then none
        else some (c.edit (c.fromTemplate (!b))))
        ⟨c, (d.require jsonAnnotationLibrary []).require
          (partDirective (r.fileName.getD "None")) []⟩ := by
  show EStateM.run (do
    let new := c.fromTemplate (!(← lift (c.isAnnotatedIn text)))
    if Text.sameUpToBlanks new c.content then return none else return some (c.edit new)) _ = _
  rw [hb, EStateM.run_bind, run_lift]
  dsimp only
  split <;> rfl

/-- What has been done if the plan for a class was carried out and there was no fault. -/
theorem revise_eq_ok (h : (revise r).run ⟨c, d⟩ = .ok edit ⟨c', d'⟩) :
    (performAll r).run ⟨c, d⟩ = .ok () ⟨c', d'⟩
      ∧ ∀ e ∈ edit, ∃ t, c'.assemble = .ok t ∧ e = c'.edit t := by
  rw [revise, EStateM.run_bind] at h
  split at h
  · next s hs =>
    obtain ⟨c₁, d₁⟩ := s
    simp only [EStateM.run_bind, EStateM.run_get] at h
    split at h
    · rw [EStateM.run_bind, run_lift] at h
      cases ht : c₁.assemble with
      | ok t =>
        rw [ht] at h
        cases h
        exact ⟨hs, fun e he => ⟨t, ht, (Option.mem_some.mp he).symm⟩⟩
      | error f => rw [ht] at h; cases h
    · cases h
      exact ⟨hs, fun e he => by simp at he⟩
  · cases h

/-- And if the class was written from the template. -/
theorem reviseByTemplate_eq_ok {text : Text}
    (h : (reviseByTemplate r text).run ⟨c, d⟩ = .ok edit ⟨c', d'⟩) :
    c' = c ∧ d' = (d.require jsonAnnotationLibrary []).require
        (partDirective (r.fileName.getD "None")) []
      ∧ ∃ b, c.isAnnotatedIn text = .ok b
        ∧ edit = if Text.sameUpToBlanks (c.fromTemplate (!b)) c.content then none
          else some (c.edit (c.fromTemplate (!b))) := by
  cases hb : c.isAnnotatedIn text with
  | ok b =>
    rw [run_reviseByTemplate r text c d hb] at h
    cases h
    exact ⟨rfl, rfl, b, rfl, rfl⟩
  | error f =>
    simp only [reviseByTemplate, EStateM.run_bind, require, EStateM.run_modify, EStateM.run_get,
      hb, run_lift] at h
    cases h

end Work

end DartData
