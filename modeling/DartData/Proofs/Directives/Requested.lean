import DartData.Proofs.Directives.Required
import DartData.Proofs.Generation.Edits

/-!
# The directives that generation asks for

Each class that is worked on asks for libraries, which depend on the request and the class as it was
found.  They are required one after another, so the directives of a file end up as

    (Directives.read text).requireAll ((cs.filter isValid).flatMap r.needs)

(`generate_directives`), and what is added are the wanted directives that were not read, each once
(`Directives.adds`).
-/

namespace DartData

open List

/-! ## §1. What is added. -/

namespace Directives

/-- What requiring some imports adds to the directives. -/
def added (d : Directives) (is : List RequiredImport) : List Text :=
  (d.requireAll is).values.drop d.values.length

/-- The directives `ws` are what is added when the imports are required: they are wanted, they were
    not there, and no two of them are the same. -/
structure Adds (d : Directives) (is : List RequiredImport) (ws : List Text) : Prop where
  values_eq : (d.requireAll is).values = d.values ++ ws
  are_wanted : ∀ w ∈ ws, ∃ i ∈ is, w = wanted i
  nodup : (ws.map directiveForm).Nodup
  fresh : ∀ w ∈ ws, d.includes w = false
  satisfied : ∀ i ∈ is, (d.requireAll is).includes (wanted i) = true
    ∨ (d.requireAll is).importsOneOf i.alternatives = true

variable {d e : Directives}

theorem includes_of_subset (h : d.values ⊆ e.values) {v : Text} (hv : d.includes v) :
    e.includes v := by
  obtain ⟨u, hu, heq⟩ := any_eq_true.mp hv
  exact any_eq_true.mpr ⟨u, h hu, heq⟩

theorem importsOneOf_of_subset (hs : d.source = e.source) (h : d.values ⊆ e.values)
    {uris : List Text} (hi : d.importsOneOf uris) : e.importsOneOf uris := by
  obtain ⟨u, hu, hor⟩ := any_eq_true.mp hi
  refine any_eq_true.mpr ⟨u, hu, ?_⟩
  rw [Bool.or_eq_true] at hor ⊢
  rcases hor with hhas | hinc
  · exact .inl (hs ▸ hhas)
  · exact .inr (includes_of_subset h hinc)

/-- Requiring an import adds it, unless it or an alternative is there. -/
theorem require_cases (d : Directives) (i : RequiredImport) : (d.require i.uri i.alternatives = d
        ∧ (d.includes (wanted i) ∨ d.importsOneOf i.alternatives))
      ∨ (d.require i.uri i.alternatives = { d with values := d.values ++ [wanted i] }
        ∧ d.includes (wanted i) = false) := by
  unfold require
  split
  · next h => exact .inl ⟨rfl, (Bool.or_eq_true _ _).mp h⟩
  · next h =>
    rw [Bool.or_eq_true, not_or] at h
    exact .inr ⟨rfl, Bool.eq_false_iff.mpr h.1⟩

theorem Adds.nil (d : Directives) : d.Adds [] [] :=
  ⟨(append_nil _).symm, by simp, nodup_nil, by simp, by simp⟩

/-- One import more in front. -/
theorem Adds.cons {i : RequiredImport} {is : List RequiredImport} {ws : List Text}
    (h : (d.require i.uri i.alternatives).Adds is ws) : ∃ vs, d.Adds (i :: is) vs := by
  have hsource : ∀ js : List RequiredImport, ((d.require i.uri i.alternatives).requireAll js).source
      = (d.require i.uri i.alternatives).source := fun js => by rw [requireAll_eq]
  have hall : d.requireAll (i :: is) = (d.require i.uri i.alternatives).requireAll is := rfl
  have hsub : (d.require i.uri i.alternatives).values ⊆ (d.requireAll (i :: is)).values := by
    rw [hall, h.values_eq]
    exact subset_append_left _ _
  have hrest : ∀ j ∈ is, (d.requireAll (i :: is)).includes (wanted j)
      ∨ (d.requireAll (i :: is)).importsOneOf j.alternatives := h.satisfied
  rcases d.require_cases i with ⟨heq, hthere⟩ | ⟨heq, hnot⟩
  · -- it is there: nothing is added for it
    refine ⟨ws, ?_, fun w hw => ?_, h.nodup, fun w hw => ?_, ?_⟩
    · rw [hall, h.values_eq, heq]
    · obtain ⟨j, hj, rfl⟩ := h.are_wanted w hw
      exact ⟨j, mem_cons_of_mem _ hj, rfl⟩
    · exact heq ▸ h.fresh w hw
    · intro j hj
      rcases mem_cons.mp hj with rfl | hj
      · rw [heq] at hsub
        refine hthere.imp (includes_of_subset hsub) (importsOneOf_of_subset ?_ hsub)
        rw [hall, hsource, heq]
      · exact hrest j hj
  · -- it is added, and from then on it is there
    have hmem : wanted i ∈ (d.require i.uri i.alternatives).values := by
      rw [heq]
      exact mem_append_right _ (mem_singleton_self _)
    refine ⟨wanted i :: ws, ?_, fun w hw => ?_, ?_, fun w hw => ?_, ?_⟩
    · rw [hall, h.values_eq, heq]
      simp
    · rcases mem_cons.mp hw with rfl | hw
      · exact ⟨i, mem_cons_self, rfl⟩
      · obtain ⟨j, hj, rfl⟩ := h.are_wanted w hw
        exact ⟨j, mem_cons_of_mem _ hj, rfl⟩
    · refine nodup_cons.mpr ⟨fun hform => ?_, h.nodup⟩
      obtain ⟨w, hw, hform⟩ := mem_map.mp hform
      have hinc : (d.require i.uri i.alternatives).includes w :=
        any_eq_true.mpr ⟨_, hmem, by rw [hform, beq_self_eq_true]⟩
      simp [h.fresh w hw] at hinc
    · rcases mem_cons.mp hw with rfl | hw
      · exact hnot
      · rw [Bool.eq_false_iff]
        intro hinc
        have hinc' : (d.require i.uri i.alternatives).includes w :=
          includes_of_subset (by rw [heq]; exact subset_append_left _ _) hinc
        simp [h.fresh w hw] at hinc'
    · intro j hj
      rcases mem_cons.mp hj with rfl | hj
      · exact .inl (includes_of_mem (hsub hmem))
      · exact hrest j hj

/-- **What is added are wanted directives that were not there, each once.** -/
theorem adds (d : Directives) (is : List RequiredImport) : d.Adds is (d.added is) := by
  have hexists : ∃ ws, d.Adds is ws := by
    induction is generalizing d with
    | nil => exact ⟨[], .nil d⟩
    | cons i is ih =>
      obtain ⟨ws, hws⟩ := ih (d.require i.uri i.alternatives)
      exact hws.cons
  obtain ⟨ws, hws⟩ := hexists
  have hadded : d.added is = ws := by rw [added, hws.values_eq, drop_left]
  exact hadded ▸ hws

end Directives

/-! ## §2. What a class asks for. -/

/-- What a task asks of the directives, the class being as it was found. -/
def Task.needs (r : Request) (c : SourceClass) : Task → List RequiredImport
  | .rebuildConstructor => []
  | .install k => (k.build r c).imports
  | .adoptEquatable =>
    if c.head.superclass.any (·.has "Base") then [] else [{ uri := equatableLibrary }]

/-- What a request asks of the directives for a class. -/
def Request.needs (r : Request) (c : SourceClass) : List RequiredImport :=
  if r.category == some .jsonSerializable then
    [{ uri := jsonAnnotationLibrary }, { uri := partDirective (r.fileName.getD "None") }]
  else (r.plan c).flatMap (Task.needs r c)

theorem isDirective_wanted (i : RequiredImport) : isDirective (Directives.wanted i) := by
  unfold Directives.wanted Directives.directiveFor
  split
  · assumption
  · rfl

variable {r : Request} {c c' : SourceClass} {i : RequiredImport}

/-- What can be needed. -/
theorem Request.needs_cases (h : i ∈ r.needs c) :
    i ∈ knownImports ∨ i = { uri := jsonAnnotationLibrary } ∨ (r.category = some .jsonSerializable
        ∧ i = { uri := partDirective (r.fileName.getD "None") }) := by
  unfold needs at h
  split at h
  · next hcat => simpa [beq_iff_eq.mp hcat] using Or.inr (mem_cons.mp h)
  · obtain ⟨t, -, hi⟩ := mem_flatMap.mp h
    left
    cases t with
    | rebuildConstructor => exact absurd hi not_mem_nil
    | install k => exact k.imports_mem r c i hi
    | adoptEquatable =>
      have hi : i ∈ if c.head.superclass.any (·.has "Base") then []
        else [{ uri := equatableLibrary }] := hi
      split at hi
      · exact absurd hi not_mem_nil
      · rw [mem_singleton.mp hi]
        decide

theorem wanted_partDirective (n : Text) :
    Directives.wanted { uri := partDirective n } = partDirective n := by
  have h : isDirective (partDirective n) := rfl
  rw [Directives.wanted, Directives.directiveFor, if_pos h]

theorem trim_partDirective (n : Text) : (partDirective n).trim = partDirective n := by
  refine Text.trim_eq_self (fun c hc => ?_) fun c hc => ?_
  · obtain rfl : 'p' = c := Option.some.inj hc
    decide
  · have hlast : (partDirective n).getLast? = some ';' := by
      rw [show partDirective n = ("part '" ++ (n ++ ".g.dart'")) ++ [';'] by
        simp [partDirective, Text.of], getLast?_concat]
    obtain rfl : ';' = c := Option.some.inj (hlast.symm.trans hc)
    decide

theorem trim_wanted (h : i ∈ r.needs c) : (Directives.wanted i).trim = Directives.wanted i := by
  rcases r.needs_cases h with hk | rfl | ⟨-, rfl⟩
  · exact (Directives.wanted_known i hk).2.1
  · decide +kernel
  · rw [wanted_partDirective, trim_partDirective]

/-- The name of the file is a line, where it goes into a directive. -/
def Request.HasLineName (r : Request) : Prop :=
  r.category = some .jsonSerializable → '\n' ∉ r.fileName.getD "None"

theorem not_mem_wanted (h : i ∈ r.needs c) (hname : r.HasLineName) :
    '\n' ∉ Directives.wanted i := by
  rcases r.needs_cases h with hk | rfl | ⟨hcat, rfl⟩
  · exact (Directives.wanted_known i hk).2.2.2.1
  · decide +kernel
  · rw [wanted_partDirective]
    simpa [partDirective, Text.of] using hname hcat

/-- The libraries that a member needs depend on the fields of its class only. -/
theorem MemberKind.imports_congr (k : MemberKind) (r : Request) (h : c'.fields = c.fields) :
    (k.build r c').imports = (k.build r c).imports := by
  cases k with
  | equality =>
    show (if (c'.fields.filter Field.isCollection).isEmpty then ([] : List RequiredImport) else _)
      = _
    rw [h]
    rfl
  | copyWith | toMap | fromMap | toJson | fromJson | toString | stringify | hashCode | props => rfl

/-- The class `c'` is `c` as far as the task is concerned: it has the same fields, and the same head
    if that matters. -/
structure SourceClass.AgreesFor (c' c : SourceClass) (t : Task) : Prop where
  fields_eq : c'.fields = c.fields
  head_eq : t = .adoptEquatable → c'.head = c.head

theorem Task.needs_congr {t : Task} (h : c'.AgreesFor c t) : t.needs r c' = t.needs r c := by
  cases t with
  | rebuildConstructor => rfl
  | install k => exact k.imports_congr r h.fields_eq
  | adoptEquatable => rw [Task.needs, h.head_eq rfl, Task.needs]

namespace Work

/-- A task requires what it needs; it keeps the fields, and all but one keep the head.  **A task
    that changes the head notes it.** -/
theorem perform_needs {t : Task} {d d' : Directives}
    (h : (perform r t).run ⟨c, d⟩ = .ok () ⟨c', d'⟩) :
    d' = d.requireAll (t.needs r c) ∧ c'.fields = c.fields
      ∧ (t ≠ .adoptEquatable → c'.head = c.head)
      ∧ (c'.headChanged = false → c.headChanged = false ∧ c'.head = c.head) := by
  cases t with
  | rebuildConstructor =>
    rw [show perform r .rebuildConstructor = rebuildConstructor r from rfl,
      run_rebuildConstructor] at h
    split at h
    · simp at h
    · split at h <;> cases h <;> exact ⟨rfl, rfl, fun _ => rfl, fun hno => ⟨hno, rfl⟩⟩
  | install k =>
    rw [run_perform_install, run_install] at h
    split at h
    · simp at h
    · cases h
      exact ⟨rfl, rfl, fun _ => rfl, fun hno => ⟨hno, rfl⟩⟩
    · split at h <;> cases h <;> exact ⟨rfl, rfl, fun _ => rfl, fun hno => ⟨hno, rfl⟩⟩
  | adoptEquatable =>
    -- only here the head may change, and then `headChanged` is set
    rw [show perform r .adoptEquatable = adoptEquatable r from rfl, run_adoptEquatable] at h
    unfold Task.needs
    split at h
    · next hbase =>
      cases h
      rw [if_pos hbase]
      exact ⟨rfl, rfl, fun _ => rfl, fun hno => ⟨hno, rfl⟩⟩
    · next hbase =>
      rw [if_neg hbase]
      split at h <;> cases h
      · exact ⟨rfl, rfl, fun hne => absurd rfl hne, fun hno => ⟨hno, rfl⟩⟩
      · exact ⟨rfl, rfl, fun hne => absurd rfl hne, fun hno => absurd hno Bool.noConfusion⟩

/-- A plan in which the head matters to its first tasks only. -/
theorem forM_needs (ts : List Task)
    (hts : ts.Pairwise fun t u => t = .adoptEquatable → u ≠ .adoptEquatable) {c₁ c' : SourceClass}
    {d d' : Directives} (hc : ∀ t ∈ ts, c₁.AgreesFor c t)
    (h : (ts.forM (perform r)).run ⟨c₁, d⟩ = .ok () ⟨c', d'⟩) :
    d' = d.requireAll (ts.flatMap (Task.needs r c)) := by
  induction ts generalizing c₁ c' d d' with
  | nil =>
    cases h
    rfl
  | cons t ts ih =>
    obtain ⟨hfirst, hrest⟩ := pairwise_cons.mp hts
    rw [run_forM_cons] at h
    split at h
    · next s hs =>
      obtain ⟨c₂, d₂⟩ := s
      obtain ⟨hd, hfields, hhead, -⟩ := perform_needs hs
      have ht := hc t mem_cons_self
      -- after the task that changes the head, no task asks for it
      have hagrees : ∀ u ∈ ts, c₂.AgreesFor c u := by
        intro u hu
        have hcu := hc u (mem_cons_of_mem _ hu)
        refine ⟨hfields.trans hcu.fields_eq, fun hadopt => ?_⟩
        rw [hhead fun he => hfirst u hu he hadopt, hcu.head_eq hadopt]
      rw [ih hrest hagrees h, hd, Task.needs_congr ht, flatMap_cons,
        Directives.requireAll_append]
    · simp at h

end Work

/-- At most one task of a plan changes the head: the others install members or build the
    constructor. -/
theorem Request.plan_pairwise (r : Request) (c : SourceClass) :
    (r.plan c).Pairwise fun t u => t = .adoptEquatable → u ≠ .adoptEquatable := by
  have hnone : ∀ {ts : List Task}, .adoptEquatable ∉ ts →
      ts.Pairwise fun t u => t = .adoptEquatable → u ≠ .adoptEquatable := fun h =>
    pairwise_iff_forall_sublist.mpr fun hsub _ he => h (he ▸ hsub.subset (by simp))
  unfold plan
  dsimp only
  split
  · exact hnone (by simp [Task.mem_when])
  · refine pairwise_append.mpr ⟨hnone ?_, ?_, fun t ht u _ he => ?_⟩
    · split <;> simp [Task.mem_when]
    · split
      · cases r.selects .useEquatable <;> simp [Task.when]
      · exact hnone (by simp [Task.mem_when])
    · subst he
      split at ht <;> simp [Task.mem_when] at ht

/-! ## §3. What a file asks for. -/

variable {r : Request} {text : Text} {c c' : SourceClass} {d d' : Directives}
  {edit : Option ClassEdit}

theorem Work.reviseByTemplate_needs (h : (reviseByTemplate r text).run ⟨c, d⟩ = .ok edit ⟨c', d'⟩) :
    d' = d.requireAll
      [{ uri := jsonAnnotationLibrary }, { uri := partDirective (r.fileName.getD "None") }] :=
  (reviseByTemplate_eq_ok h).2.1

theorem Work.revise_needs (h : (revise r).run ⟨c, d⟩ = .ok edit ⟨c', d'⟩) :
    d' = d.requireAll ((r.plan c).flatMap (Task.needs r c)) :=
  forM_needs (r.plan c) (r.plan_pairwise c) (fun _ _ => ⟨rfl, fun _ => rfl⟩) (revise_eq_ok h).1

/-- Work on a class requires what the request needs for it. -/
theorem Request.work_needs (h : (r.work text).run ⟨c, d⟩ = .ok edit ⟨c', d'⟩) :
    d' = d.requireAll (r.needs c) := by
  unfold work at h
  unfold needs
  split at h
  · next hcat =>
    rw [if_pos hcat]
    exact Work.reviseByTemplate_needs h
  · next hcat =>
    rw [if_neg hcat]
    exact Work.revise_needs h

/-- All valid classes together require what each needs. -/
theorem SourceFile.reviseAll_needs (cs : List SourceClass) {d : Directives}
    {left : List SourceClass × Directives} {found : Findings}
    (h : reviseAll (r.work text) cs d = (left, .ok found)) :
    left.2 = d.requireAll ((cs.filter SourceClass.isValid).flatMap r.needs) := by
  induction cs generalizing d left found with
  | nil =>
    cases h
    rfl
  | cons c cs ih =>
    unfold reviseAll at h
    cases hv : c.isValid with
    | false =>
      rw [hv, if_neg Bool.false_ne_true] at h
      obtain ⟨rfl, hfound⟩ := Prod.mk.inj h
      obtain ⟨found', hfound', -⟩ := map_eq_ok.mp hfound
      have hrest : reviseAll (r.work text) cs d = ((reviseAll (r.work text) cs d).1, .ok found') :=
        Prod.ext rfl hfound'
      have hneeds := ih hrest
      rw [filter_cons_of_neg (by simp [hv])]
      exact hneeds
    | true =>
      rw [hv, if_pos rfl] at h
      split at h
      · simp at h
      · next edit s hrun =>
        obtain ⟨c', d'⟩ := s
        obtain ⟨rfl, hfound⟩ := Prod.mk.inj h
        obtain ⟨found', hfound', -⟩ := map_eq_ok.mp hfound
        have hrest : reviseAll (r.work text) cs d'
            = ((reviseAll (r.work text) cs d').1, .ok found') := Prod.ext rfl hfound'
        have hneeds := ih hrest
        rw [filter_cons_of_pos hv, flatMap_cons, Directives.requireAll_append,
          ← Request.work_needs hrun]
        exact hneeds

/-- The imports that a request needs for the classes of a text. -/
def Request.needsIn (r : Request) (text : Text) : List RequiredImport :=
  match scan text with
  | .ok cs => (cs.filter SourceClass.isValid).flatMap r.needs
  | .error _ => []

theorem Request.needs_of_mem_needsIn (h : i ∈ r.needsIn text) : ∃ c, i ∈ r.needs c := by
  unfold needsIn at h
  split at h
  · obtain ⟨c, -, hc⟩ := mem_flatMap.mp h
    exact ⟨c, hc⟩
  · simp at h

/-- **The directives that generation leaves are those read with all that is needed required.** -/
theorem generate_directives {g : Generation} (h : generate text r = .ok g) :
    g.edits.directives = ((Directives.read text).requireAll (r.needsIn text)).edit? r.package := by
  unfold Request.needsIn
  obtain ⟨file, hfile, h⟩ := bind_eq_ok.mp h
  obtain ⟨cs, hcs, hread⟩ := bind_eq_ok.mp hfile
  cases hread
  rw [hcs]
  unfold SourceFile.generate at h
  dsimp only at h
  split at h
  · cases h
  · obtain ⟨found, hfound, rfl⟩ := map_eq_ok.mp h
    have hall : SourceFile.reviseAll (r.work text) cs (Directives.read text)
        = ((SourceFile.reviseAll (r.work text) cs (Directives.read text)).1, .ok found) :=
      Prod.ext rfl hfound
    exact congrArg (Directives.edit? · r.package) (SourceFile.reviseAll_needs cs hall)

end DartData
