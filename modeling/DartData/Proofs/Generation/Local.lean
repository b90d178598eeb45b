import DartData.Proofs.Generation.Edits
import DartData.Proofs.Member.Invariance
import DartData.Proofs.Scan.Local

/-!
# Generation is local

What is generated for a class depends on the lines of the class and on the request, and on nothing
else in the file: the class by itself comes to the same edit, moved to the top
(`generate_content`).

Line numbers are only ever compared with each other, so each task and the assembly commute with
`movedUp`.  The directives are handed on from class to class, but no task reads them.
-/

namespace DartData

open List

namespace SourceClass

/-! ## §1. What does not move. -/

section

variable (c : SourceClass) (k : Int)

theorem unplaced_movedUp : unplaced (c.movedUp k).fields = unplaced c.fields := by
  show unplaced (c.fields.map (·.movedUp k)) = _
  rw [unplaced, unplaced, map_map]
  rfl

theorem hasConstructor_movedUp : (c.movedUp k).hasConstructor = c.hasConstructor := by
  unfold hasConstructor
  show ((c.constructorFirst.map _).isSome && (c.constructorLast.map _).isSome
    && c.constructorText.isSome) = _
  rw [Option.isSome_map, Option.isSome_map]

theorem isChanged_movedUp : (c.movedUp k).isChanged = c.isChanged := by
  unfold isChanged
  show (!c.insertion.isEmpty || !(c.replaced.map _).isEmpty || c.constructorChanged
    || c.headChanged) = _
  rw [isEmpty_map]

theorem build_movedUp (r : Request) (m : MemberKind) : m.build r (c.movedUp k) = m.build r c :=
  MemberKind.build_congr (c := c.movedUp k) (d := c) rfl rfl rfl (c.unplaced_movedUp k) r m

/-! ## §2. The constructor. -/

/-- The parameters do not depend on the line. -/
theorem parameters_movedUp : (c.movedUp k).parameters = c.parameters := by
  unfold parameters
  rw [show (c.movedUp k).constructorFirst = c.constructorFirst.map (· - k) from rfl,
    show (c.movedUp k).constructorLast = c.constructorLast.map (· - k) from rfl,
    show (c.movedUp k).constructorText = c.constructorText from rfl]
  cases c.constructorFirst with
  | none => rfl
  | some a =>
    cases c.constructorLast with
    | none => rfl
    | some b =>
      cases c.constructorText with
      | none => rfl
      | some t =>
        have hab : (a - k = b - k) = (a = b) := by
          rw [eq_iff_iff]
          omega
        simp only [Option.map_some, hab]

theorem newParameter_movedUp (f : Field) (named defaultValues : Bool) :
    newParameter (f.movedUp k) named defaultValues = newParameter f named defaultValues := by
  have hprimitive : (f.movedUp k).isPrimitive = f.isPrimitive := f.isPrimitive_onLine (f.line - k)
  unfold newParameter
  rw [hprimitive]
  rfl

theorem parameterLine_movedUp (ps : List Parameter) (named defaultValues : Bool) (f : Field) :
    parameterLine ps named defaultValues (f.movedUp k)
      = parameterLine ps named defaultValues f := by
  unfold parameterLine
  rw [newParameter_movedUp]
  rfl

/-- Nor does the new constructor. -/
theorem newConstructor_movedUp (defaultValues makeConst : Bool) :
    (c.movedUp k).newConstructor defaultValues makeConst
      = c.newConstructor defaultValues makeConst := by
  have hlines : ∀ (ps : List Parameter) (named : Bool),
      (c.movedUp k).fields.map (parameterLine ps named defaultValues)
        = c.fields.map (parameterLine ps named defaultValues) := by
    intro ps named
    show (c.fields.map _).map _ = _
    rw [map_map]
    exact map_congr_left fun f _ => parameterLine_movedUp k ps named defaultValues f
  unfold newConstructor
  rw [parameters_movedUp]
  show (c.delimiters >>= fun around => _) = _
  cases c.delimiters with
  | error f => rfl
  | ok around =>
    rw [show (c.movedUp k).head.name = c.head.name from rfl]
    cases c.head.name with
    | none => rfl
    | some name =>
      cases c.parameters with
      | error f => rfl
      | ok ps =>
        show Except.ok (Text.of [_, _, _, _, _, _, Text.of ((c.movedUp k).fields.map
          (parameterLine ps (around == Delimiters.named) defaultValues)), _, _]) = _
        rw [hlines]
        rfl

end

/-! ## §3. Members. -/

theorem memberRest_movedUp (arrow : Bool) (k : Int) (ls : List Text) (n : Int) (b : Brackets) :
    memberRest arrow (n - k) b ls = (memberRest arrow n b ls).map fun x => (x.1 - k, x.2) := by
  induction ls generalizing n b with
  | nil => rfl
  | cons line ls ih =>
    unfold memberRest
    dsimp only
    rw [show n - k + 1 = n + 1 - k by omega, ih]
    cases (if arrow then endsStatement line else (b.feed line).curly == 1) with
    | true => rfl
    | false => cases memberRest arrow (n + 1) (b.feed line) ls <;> rfl

/-- A member is found as many lines higher. -/
theorem memberIn_movedUp (name wanted : Text) (k : Int) (ls : List Text) (n : Int) (b : Brackets) :
    memberIn name wanted (n - k) b ls = (memberIn name wanted n b ls).map (·.movedUp k) := by
  induction ls generalizing n b with
  | nil => rfl
  | cons line ls ih =>
    unfold memberIn
    dsimp only
    rw [show n - k + 1 = n + 1 - k by omega, ih, memberRest_movedUp]
    split
    · split
      · rfl
      · cases memberRest ((b.feed line).curly == 1) (n + 1) (b.feed line) ls <;> rfl
    · rfl

/-- The search moves along with the class. -/
theorem findMember_movedUp (c : SourceClass) (k : Int) (name finder : Text) :
    (c.movedUp k).findMember name finder
      = (c.findMember name finder).map (Option.map (·.movedUp k)) := by
  unfold findMember
  rw [show (c.movedUp k).first = c.first.map (· - k) from rfl,
    show (c.movedUp k).content = c.content from rfl]
  cases c.first with
  | none => rfl
  | some s =>
    cases c.content.lines with
    | nil => rfl
    | cons line ls =>
      simp only [Option.map_some]
      rw [show s - k + 1 = s + 1 - k by omega, memberIn_movedUp]
      rfl

/-! ## §4. Assembly. -/

variable {c : SourceClass} {k : Int}

/-- The head is as long as before. -/
theorem headOffset_movedUp (h : ∀ l ∈ c.headLast, 0 < l ∧ k < l) (s : Int) :
    (c.movedUp k).headOffset (s - k) = c.headOffset s := by
  unfold headOffset
  rw [show (c.movedUp k).headLast = c.headLast.map (· - k) from rfl]
  cases hl : c.headLast with
  | none =>
    show s - k - (s - k) = s - s
    omega
  | some l =>
    obtain ⟨hpos, hk⟩ := h l hl
    have h₁ : (l - k == 0) = false := by
      rw [beq_eq_false_iff_ne]
      omega
    have h₂ : (l == 0) = false := by
      rw [beq_eq_false_iff_ne]
      omega
    simp only [Option.map_some, Option.getD_some, h₁, h₂, Bool.false_eq_true, if_false]
    omega

theorem fieldsLast_movedUp (h : c.fields ≠ []) (k : Int) :
    (c.movedUp k).fieldsLast = c.fieldsLast - k := by
  unfold fieldsLast
  rw [show (c.movedUp k).fields = c.fields.map (·.movedUp k) from rfl, getLast?_map,
    getLast?_eq_some_getLast h]
  rfl

theorem inOldConstructor_movedUp (c : SourceClass) (k n : Int) :
    (c.movedUp k).inOldConstructor (n - k) = c.inOldConstructor n := by
  unfold inOldConstructor
  rw [hasConstructor_movedUp, show (c.movedUp k).constructorChanged = c.constructorChanged from rfl,
    show (c.movedUp k).constructorFirst = c.constructorFirst.map (· - k) from rfl,
    show (c.movedUp k).constructorLast = c.constructorLast.map (· - k) from rfl]
  cases c.constructorFirst with
  | none => rfl
  | some a =>
    cases c.constructorLast with
    | none => rfl
    | some b => simp only [Option.map_some, Int.sub_le_sub_right_iff]

theorem covers_movedUp (m : ExistingMember) (k n : Int) :
    (m.movedUp k).covers (n - k) = m.covers n := by
  unfold ExistingMember.covers
  rw [show (m.movedUp k).first = m.first.map (· - k) from rfl,
    show (m.movedUp k).last = m.last.map (· - k) from rfl]
  cases m.first with
  | none => rfl
  | some a =>
    cases m.last with
    | none => rfl
    | some b => simp only [Option.map_some, Int.sub_le_sub_right_iff]

theorem replacementAt_movedUp (c : SourceClass) (k n : Int) :
    (c.movedUp k).replacementAt (n - k) = c.replacementAt n := by
  unfold replacementAt
  rw [show (c.movedUp k).replaced = c.replaced.map (·.movedUp k) from rfl, find?_map]
  have hcovers : (fun m : ExistingMember => m.covers (n - k)) ∘ (fun m => m.movedUp k)
      = fun m : ExistingMember => m.covers n := funext fun m => covers_movedUp m k n
  rw [hcovers]
  cases c.replaced.find? fun m => m.covers n <;> rfl

section

variable (hf : c.fields ≠ []) (hh : ∀ l ∈ c.headLast, 0 < l ∧ k < l)
include hf hh

/-- Each line is put together as before. -/
theorem assembleLine_movedUp (lines : List Text) (s e : Int) (i : Nat) (after : Text) :
    (c.movedUp k).assembleLine lines (s - k) (e - k) i after
      = c.assembleLine lines s e i after := by
  have hnumber : s - k + (i : Int) = s + i - k := by omega
  have hfield : (s + (i : Int) - k == c.fieldsLast - k) = (s + i == c.fieldsLast) := by
    rw [Bool.eq_iff_iff, beq_iff_eq, beq_iff_eq]
    omega
  have hlast : (s + (i : Int) - k == e - k) = (s + i == e) := by
    rw [Bool.eq_iff_iff, beq_iff_eq, beq_iff_eq]
    omega
  have hfirst : ((c.movedUp k).constructorFirst == some (s + (i : Int) - k))
      = (c.constructorFirst == some (s + i)) := by
    show (c.constructorFirst.map (· - k) == some (s + (i : Int) - k)) = _
    cases c.constructorFirst with
    | none => rfl
    | some a =>
      rw [Bool.eq_iff_iff, beq_iff_eq, beq_iff_eq, Option.map_some, Option.some.injEq,
        Option.some.injEq]
      omega
  unfold assembleLine
  cases lines[i]? with
  | none => rfl
  | some line =>
    dsimp only
    rw [headOffset_movedUp hh, hnumber, fieldsLast_movedUp hf, hfield, hasConstructor_movedUp,
      hlast, isValid_movedUp, inOldConstructor_movedUp, hfirst, replacementAt_movedUp]
    rfl

theorem assembleLines_movedUp (lines : List Text) (s e : Int) (count : Nat) :
    ∀ after, (c.movedUp k).assembleLines lines (s - k) (e - k) count after
      = c.assembleLines lines s e count after := by
  induction count with
  | zero => intro after; rfl
  | succ i ih =>
    intro after
    unfold assembleLines
    rw [assembleLine_movedUp hf hh]
    cases c.assembleLine lines s e i after with
    | error f => rfl
    | ok t => exact ih t

/-- **The class is assembled to the same text further up.** -/
theorem assemble_movedUp : (c.movedUp k).assemble = c.assemble := by
  unfold assemble
  rw [show (c.movedUp k).first = c.first.map (· - k) from rfl,
    show (c.movedUp k).last = c.last.map (· - k) from rfl]
  cases c.first with
  | none => rfl
  | some s =>
    cases c.last with
    | none => rfl
    | some e =>
      simp only [Option.map_some]
      rw [show e - k - (s - k) + 1 = e - s + 1 by omega, assembleLines_movedUp hf hh]
      rfl

end

end SourceClass

/-! ## §5. Tasks. -/

/-- The edit `k` lines further up. -/
def ClassEdit.movedUp (e : ClassEdit) (k : Int) : ClassEdit :=
  { e with first := e.first.map (· - k), last := e.last.map (· - k) }

namespace Work

variable {r : Request} {c c' : SourceClass} {d d' : Directives}

/-- The constructor is rebuilt in the same way. -/
theorem rebuildConstructor_movedUp (h : (rebuildConstructor r).run ⟨c, d⟩ = .ok () ⟨c', d'⟩)
    (k : Int)
    (e : Directives) : (rebuildConstructor r).run ⟨c.movedUp k, e⟩ = .ok () ⟨c'.movedUp k, e⟩ := by
  rw [run_rebuildConstructor] at h ⊢
  rw [c.newConstructor_movedUp k, c.hasConstructor_movedUp k,
    show r.comparesByEquatable (c.movedUp k) = r.comparesByEquatable c from rfl,
    show (c.movedUp k).constructorText = c.constructorText from rfl]
  cases hnew : c.newConstructor (r.options .constructorDefaults)
      (r.comparesByEquatable c && r.selects .useEquatable) with
  | error f => simp [hnew] at h
  | ok text =>
    rw [hnew] at h
    dsimp only at h ⊢
    split at h
    next hsame =>
      rw [if_pos hsame]
      cases h
      rfl
    next hsame =>
      rw [if_neg hsame]
      cases h
      rfl

/-- A member is put in in the same way. -/
theorem install_movedUp {m : Member} (h : (install m).run ⟨c, d⟩ = .ok () ⟨c', d'⟩) (k : Int)
    (e : Directives) :
    (install m).run ⟨c.movedUp k, e⟩ = .ok () ⟨c'.movedUp k, e.requireAll m.imports⟩ := by
  rw [run_install] at h ⊢
  -- the same member is found, further up, and compared with the same text
  rw [c.findMember_movedUp k]
  cases hfind : c.findMember m.name m.finder with
  | error f => simp [hfind] at h
  | ok found =>
    rw [hfind] at h
    cases found with
    | none =>
      cases h
      rfl
    | some found =>
      dsimp only [Except.map, Option.map] at h ⊢
      rw [show (found.movedUp k).current = found.current from rfl]
      split at h
      next hsame =>
        rw [if_pos hsame]
        cases h
        rfl
      next hsame =>
        rw [if_neg hsame]
        cases h
        simp [SourceClass.movedUp, ExistingMember.movedUp]

/-- The supertype is adopted in the same way. -/
theorem adoptEquatable_movedUp (h : (adoptEquatable r).run ⟨c, d⟩ = .ok () ⟨c', d'⟩) (k : Int)
    (e : Directives) :
    ∃ e', (adoptEquatable r).run ⟨c.movedUp k, e⟩ = .ok () ⟨c'.movedUp k, e'⟩ := by
  rw [run_adoptEquatable] at h ⊢
  rw [show (c.movedUp k).head = c.head from rfl]
  split at h
  next hbase =>
    rw [if_pos hbase]
    cases h
    exact ⟨e, rfl⟩
  next hbase =>
    rw [if_neg hbase]
    split at h
    next huses =>
      rw [if_pos huses]
      cases h
      exact ⟨_, rfl⟩
    next huses =>
      rw [if_neg huses]
      cases h
      exact ⟨_, rfl⟩

/-- **Every task does the same further up, whatever the directives are.** -/
theorem perform_movedUp {t : Task} (h : (perform r t).run ⟨c, d⟩ = .ok () ⟨c', d'⟩) (k : Int)
    (e : Directives) : ∃ e', (perform r t).run ⟨c.movedUp k, e⟩ = .ok () ⟨c'.movedUp k, e'⟩ := by
  cases t with
  | rebuildConstructor => exact ⟨e, rebuildConstructor_movedUp h k e⟩
  | install m =>
    rw [run_perform_install] at h ⊢
    rw [c.build_movedUp k]
    exact ⟨_, install_movedUp h k e⟩
  | adoptEquatable => exact adoptEquatable_movedUp h k e

/-- So all tasks do the same one after another. -/
theorem forM_perform_movedUp (ts : List Task) :
    ∀ {c : SourceClass} {d : Directives}, (ts.forM (perform r)).run ⟨c, d⟩ = .ok () ⟨c', d'⟩ →
      ∀ (k : Int) (e : Directives),
        ∃ e', (ts.forM (perform r)).run ⟨c.movedUp k, e⟩ = .ok () ⟨c'.movedUp k, e'⟩ := by
  induction ts with
  | nil =>
    intro c d h k e
    cases h
    exact ⟨e, rfl⟩
  | cons t ts ih =>
    intro c d h k e
    rw [run_forM_cons] at h
    cases hrun : (perform r t).run ⟨c, d⟩ with
    | error f s => simp [hrun] at h
    | ok u s =>
      rw [hrun] at h
      obtain ⟨e₁, h₁⟩ := perform_movedUp hrun k e
      obtain ⟨e₂, h₂⟩ := ih h k e₁
      refine ⟨e₂, ?_⟩
      rw [run_forM_cons, h₁]
      exact h₂

/-- A complete class is revised to the same text further up. -/
theorem revise_movedUp {text : Text} {s : Nat} (hc : c.Reported text.lines s) (hv : c.isValid)
    {edit : Option ClassEdit} (h : (revise r).run ⟨c, d⟩ = .ok edit ⟨c', d'⟩) (e : Directives) :
    ∃ e', (revise r).run ⟨c.movedUp (s - 1), e⟩
      = .ok (edit.map (·.movedUp (s - 1))) ⟨c'.movedUp (s - 1), e'⟩ := by
  obtain ⟨_, c₁, d₁, hrun, hk, -, t, ht, -⟩ := performAll_keeps r hc hv d
  rw [run_revise hrun ht] at h
  injection h with hedit h
  injection h with h
  subst h
  -- the class keeps its fields and its head, which stands at or below its first line
  have hfields : c₁.fields ≠ [] := by
    simp only [SourceClass.isValid, Bool.and_eq_true, Bool.not_eq_true', isEmpty_eq_false_iff]
      at hv
    rw [hk.fields_eq]
    exact hv.1.2
  have hhead : ∀ l ∈ c₁.headLast, 0 < l ∧ (s : Int) - 1 < l := by
    intro l hl
    obtain ⟨b, hb⟩ := SourceClass.exists_last hv
    obtain ⟨l', hl', hst⟩ := hc.stands b hb
    rw [hk.headLast_eq, hl', Option.mem_some] at hl
    have h₁ := hst.one_le_first
    have h₂ := hst.first_le
    omega
  obtain ⟨e', hrun'⟩ := forM_perform_movedUp (r.plan c) hrun (s - 1) e
  -- the plan is made from the head and the content, so it is the same
  have hrun' : (performAll r).run ⟨c.movedUp (s - 1), e⟩ = .ok () ⟨c₁.movedUp (s - 1), e'⟩ := hrun'
  refine ⟨e', ?_⟩
  rw [run_revise hrun' ((SourceClass.assemble_movedUp hfields hhead).trans ht),
    SourceClass.isChanged_movedUp, ← hedit]
  cases c₁.isChanged <;> rfl

end Work

/-! ## §6. Files. -/

variable {Q : SourceClass → Option ClassEdit → SourceClass → Prop} {cs' : List SourceClass}
  {es : List ClassEdit} {c : SourceClass}

/-- Among the edits of a file, those on the first line of a class are what work on that class came
    to. -/
theorem Revised.filter_first (hfirst : ∀ {c e c'}, Q c (some e) c' → e.first = c.first)
    {cs : List SourceClass} (h : Revised Q cs cs' es)
    (hp : cs.Pairwise fun c d => c.first ≠ d.first) (hc : c ∈ cs) :
    (c.isValid = false ∧ es.filter (fun e => e.first == c.first) = [])
      ∨ (c.isValid ∧ ∃ edit c', Q c edit c'
        ∧ es.filter (fun e => e.first == c.first) = edit.toList) := by
  -- no edit of the classes below stands on the first line of a class
  have hbelow : ∀ {d : SourceClass} {ds ds' : List SourceClass} {fs : List ClassEdit},
      Revised Q ds ds' fs → (∀ c ∈ ds, d.first ≠ c.first) →
      fs.filter (fun e => e.first == d.first) = [] := by
    intro d ds ds' fs hrev hne
    rw [filter_eq_nil_iff]
    intro e he hd
    obtain ⟨c, hc, c', -, -, hq⟩ := hrev.mem_edits he
    exact hne c hc ((beq_iff_eq.mp hd).symm.trans (hfirst hq))
  induction h with
  | nil => simp at hc
  | skip hv h ih =>
    obtain ⟨hne, hp⟩ := pairwise_cons.mp hp
    rcases mem_cons.mp hc with rfl | hc
    · exact .inl ⟨hv, hbelow h hne⟩
    · exact ih hp hc
  | @work d d' edit cs cs' es hv hq h ih =>
    obtain ⟨hne, hp⟩ := pairwise_cons.mp hp
    rcases mem_cons.mp hc with rfl | hc
    · refine .inr ⟨hv, edit, d', hq, ?_⟩
      rw [filter_append, hbelow h hne, append_nil, filter_eq_self]
      intro e he
      rw [Option.mem_toList] at he
      subst he
      exact beq_iff_eq.mpr (hfirst hq)
    · have hno : edit.toList.filter (fun e => e.first == c.first) = [] := by
        rw [filter_eq_nil_iff]
        intro e he hd
        rw [Option.mem_toList] at he
        subst he
        exact hne c hc ((hfirst hq).symm.trans (beq_iff_eq.mp hd))
      rw [filter_append, hno]
      exact ih hp hc

theorem Revised.singleton (h : Revised Q [c] cs' es) :
    (c.isValid = false ∧ es = []) ∨ (c.isValid ∧ ∃ edit c', Q c edit c' ∧ es = edit.toList) := by
  cases h with
  | skip hv h =>
    cases h
    exact .inl ⟨hv, rfl⟩
  | work hv hq h =>
    cases h
    exact .inr ⟨hv, _, _, hq, append_nil _⟩

/-- **What is generated for a class depends on its own lines only.**  Each complete class of a file
    is found again in its content, moved to the top, and the edits of its content are the edits of
    the file for that class, moved to the top with their text as it is. -/
theorem generate_content {text : Text} {r : Request} {g : Generation}
    (hr : r.category ≠ some .jsonSerializable) (h : generate text r = .ok g) :
    ∃ cs, scan text = .ok cs ∧ ∀ c ∈ cs, c.last ≠ none → ∃ s : Int, c.first = some s
      ∧ scan c.content = .ok [c.movedUp (s - 1)]
      ∧ ∃ g', generate c.content r = .ok g'
        ∧ g'.edits.classes
          = (g.edits.classes.filter fun e => e.first == c.first).map (·.movedUp (s - 1)) := by
  have hwork : ∀ t, r.work t = Work.revise r := fun t => if_neg (by simpa using hr)
  cases hs : scan text with
  | error f => simp [generate_of_error hs r] at h
  | ok cs =>
      refine ⟨cs, rfl, fun c hc hlast => ?_⟩
      obtain ⟨g₀, -, hg₀, -, -, -, hrev⟩ := generate_of_scan hs (r := r) fun hcat => absurd hcat hr
      rw [hg₀, Except.ok.injEq] at h
      subst h
      obtain ⟨a, ha, halone⟩ := scan_content hs hc hlast
      obtain ⟨g', -, hg', -, -, -, hrev'⟩ := generate_of_scan halone (r := r)
        fun hcat => absurd hcat hr
      refine ⟨a, ha, halone, g', hg', ?_⟩
      have hlaid := scan_laid hs
      have hdistinct : cs.Pairwise fun c d => c.first ≠ d.first := by
        refine hlaid.1.imp fun {c d} hb he => ?_
        obtain ⟨s, t, hcs, hdt, hlt, -⟩ := hb
        rw [hcs, hdt, Option.some.injEq] at he
        omega
      obtain ⟨s, -, hrep⟩ := hlaid.2 c hc
      rw [hrep.first_eq, Option.some.injEq] at ha
      subst ha
      have hvalid := c.isValid_movedUp (s - 1)
      rcases hrev.filter_first (fun hq => by
          rw [hq.2.2.edit_eq _ rfl]
          exact hq.2.1.first_eq) hdistinct hc with ⟨hv, hnone⟩ | ⟨hv, edit, c', hq, hedit⟩
      · -- the class is left out in both runs
        rcases hrev'.singleton with ⟨-, hnone'⟩ | ⟨hv', -⟩
        · rw [hnone, hnone']
          rfl
        · rw [hvalid, hv] at hv'
          exact absurd hv' Bool.false_ne_true
      · rcases hrev'.singleton with ⟨hv', -⟩ | ⟨-, edit', c'', hq', hedit'⟩
        · rw [hvalid, hv] at hv'
          exact absurd hv'.symm Bool.false_ne_true
        · -- both runs revise the class, with other directives
          obtain ⟨d, d', hrun⟩ := hq.1
          obtain ⟨e, e', hrun'⟩ := hq'.1
          rw [hwork] at hrun hrun'
          obtain ⟨e₁, hmoved⟩ := Work.revise_movedUp hrep hv hrun e
          rw [hmoved] at hrun'
          injection hrun' with hsame
          rw [hedit, hedit', ← hsame]
          cases edit <;> rfl

/-- The second of two classes, with one below that is not closed. -/
theorem generate_content_of_second_class :
    ∃ (text : Text) (r : Request) (g : Generation), r.category ≠ some .jsonSerializable
      ∧ generate text r = .ok g ∧ g.edits.classes.length = 2
      ∧ ∃ cs, scan text = .ok cs ∧ ∀ c ∈ cs, c.last ≠ none → ∃ s : Int, c.first = some s
        ∧ scan c.content = .ok [c.movedUp (s - 1)]
        ∧ ∃ g', generate c.content r = .ok g'
          ∧ g'.edits.classes
            = (g.edits.classes.filter fun e => e.first == c.first).map (·.movedUp (s - 1)) := by
  let text : Text :=
    "import 'a.dart';\nclass A \x7b\n  int x;\n\x7d\n// b\nclass B \x7b
  int y;\n\x7d\nclass C \x7b"
  let r : Request := { category := some .constructor }
  have h : (generate text r).toOption.map (·.edits.classes.length) = some 2 := by decide +kernel
  have hr : r.category ≠ some .jsonSerializable := by decide
  cases hg : generate text r with
  | error f => simp [hg, Except.toOption] at h
  | ok g =>
      have hlen : g.edits.classes.length = 2 := by simpa [hg, Except.toOption] using h
      exact ⟨text, r, g, hr, hg, hlen, generate_content hr hg⟩

end DartData
