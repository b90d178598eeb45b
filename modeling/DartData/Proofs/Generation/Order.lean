import DartData.Proofs.Constructor.Order
import DartData.Proofs.Generation.Placed
import DartData.Proofs.Member.Found

/-!
# The order of positional parameters in the file

A class may have a positional constructor that sets each field once, in any order.  The work on the
class writes the constructor first and `copyWith` second; no other task touches either of them.
Both are written in the order of the fields, but the constructor only if it is asked for: positional
order is respected exactly if the constructor has the order of the fields, or neither is asked for
(`generate_order_iff`).
-/

namespace DartData

open List Text

/-! ## §1. What further tasks add. -/

namespace SourceClass

/-- The class `c` is `c₀` with more members collected. -/
structure Extends (c c₀ : SourceClass) : Prop where
  text_eq : c.constructorText = c₀.constructorText
  changed_eq : c.constructorChanged = c₀.constructorChanged
  copyWith_eq : Member.copyWith c = Member.copyWith c₀
  findMember_eq : c.findMember = c₀.findMember
  insertion_grows : c₀.insertion <+: c.insertion
  replaced_grows : c₀.replaced <+: c.replaced

theorem Extends.refl (c : SourceClass) : c.Extends c :=
  ⟨rfl, rfl, rfl, rfl, prefix_rfl, prefix_rfl⟩

theorem Extends.trans {a b c : SourceClass} (h : a.Extends b) (h' : b.Extends c) : a.Extends c where
  text_eq := h.text_eq.trans h'.text_eq
  changed_eq := h.changed_eq.trans h'.changed_eq
  copyWith_eq := h.copyWith_eq.trans h'.copyWith_eq
  findMember_eq := h.findMember_eq.trans h'.findMember_eq
  insertion_grows := h'.insertion_grows.trans h.insertion_grows
  replaced_grows := h'.replaced_grows.trans h.replaced_grows

theorem hasNamedConstructor_congr {c d : SourceClass} (hname : c.head.name = d.head.name)
    (htext : c.constructorText = d.constructorText) :
    c.hasNamedConstructor = d.hasNamedConstructor := by
  simp only [hasNamedConstructor, htext, shownName, Declaration.shownName, hname]

/-- What is collected does not show in `copyWith`. -/
theorem copyWith_congr {c d : SourceClass} (hname : c.head.name = d.head.name)
    (hgenerics : c.head.generics = d.head.generics) (hfields : c.fields = d.fields)
    (htext : c.constructorText = d.constructorText) : Member.copyWith c = Member.copyWith d := by
  have htype : c.type = d.type := by
    simp only [type, Declaration.type, Declaration.typeArguments, hname, hgenerics]
  have hlabel : c.label = d.label := by
    funext f
    simp only [label, hasNamedConstructor_congr hname htext]
  unfold Member.copyWith
  rw [htype, hlabel, hfields]

/-- A new supertype changes the head only. -/
theorem extends_adopting (c : SourceClass) (asMixin : Bool) : (c.adopting asMixin).Extends c := by
  have hname : (c.adopting asMixin).head.name = c.head.name := by
    unfold adopting
    dsimp only
    split <;> rfl
  have hgenerics : (c.adopting asMixin).head.generics = c.head.generics := by
    unfold adopting
    dsimp only
    split <;> rfl
  have hshown : (c.adopting asMixin).shownName = c.shownName := by
    simp [shownName, Declaration.shownName, hname]
  refine ⟨rfl, rfl, copyWith_congr hname hgenerics rfl rfl, ?_, prefix_rfl, prefix_rfl⟩
  funext name finder
  unfold findMember
  rw [hshown]
  rfl

end SourceClass

namespace Work

variable {r : Request} {c c' : SourceClass} {d d' : Directives}

/-- What installing a member can do to a class. -/
theorem install_cases {m : Member} (h : (install m).run ⟨c, d⟩ = .ok () ⟨c', d'⟩) :
    (c.findMember m.name m.finder = .ok none
        ∧ c' = { c with insertion := c.insertion ++ ['\n'] ++ m.text.indent })
      ∨ ∃ found, c.findMember m.name m.finder = .ok (some found)
        ∧ ((sameUpToBlanks (found.current.getD []) m.replacement ∧ c' = c) ∨ c' = { c with
            replaced := c.replaced ++ [{ found with replacement := some m.replacement }] }) := by
  rw [run_install] at h
  cases hf : c.findMember m.name m.finder with
  | error f => rw [hf] at h; cases h
  | ok found =>
    rw [hf] at h
    cases found with
    | none => cases h; exact .inl ⟨rfl, rfl⟩
    | some found =>
      refine .inr ⟨found, rfl, ?_⟩
      dsimp only at h
      split at h
      next hsame => cases h; exact .inl ⟨hsame, rfl⟩
      next => cases h; exact .inr rfl

/-- **No task but one touches the constructor**, and none takes back what was collected. -/
theorem perform_extends {t : Task} (ht : t ≠ .rebuildConstructor)
    (h : (perform r t).run ⟨c, d⟩ = .ok () ⟨c', d'⟩) : c'.Extends c := by
  cases t with
  | rebuildConstructor => exact absurd rfl ht
  | install k =>
    rw [run_perform_install] at h
    rcases install_cases h with ⟨-, rfl⟩ | ⟨found, -, ⟨-, rfl⟩ | rfl⟩
    · refine ⟨rfl, rfl, rfl, rfl, ?_, prefix_rfl⟩
      rw [append_assoc]
      exact prefix_append ..
    · exact .refl c'
    · exact ⟨rfl, rfl, rfl, rfl, prefix_rfl, prefix_append ..⟩
  | adoptEquatable =>
    rw [show perform r .adoptEquatable = adoptEquatable r from rfl, run_adoptEquatable] at h
    split at h
    · cases h; exact .refl c
    · split at h
      · cases h; exact .refl c
      · cases h; exact c.extends_adopting _

/-- Later tasks leave the constructor alone. -/
theorem forM_perform_extends (ts : List Task) (hts : .rebuildConstructor ∉ ts) {c : SourceClass}
    {d : Directives} (h : (ts.forM (perform r)).run ⟨c, d⟩ = .ok () ⟨c', d'⟩) : c'.Extends c := by
  induction ts generalizing c d with
  | nil =>
    cases h
    exact .refl c'
  | cons t ts ih =>
    rw [mem_cons, not_or] at hts
    rw [run_forM_cons] at h
    cases hrun : (perform r t).run ⟨c, d⟩ with
    | error f s => rw [hrun] at h; cases h
    | ok a s =>
      rw [hrun] at h
      exact (ih hts.2 h).trans (perform_extends (Ne.symm hts.1) hrun)

end Work

/-! ## §2. The first tasks of a plan. -/

/-- The constructor comes first and `copyWith` next, each if it is asked for. -/
theorem Request.exists_plan_eq (r : Request) (c : SourceClass) : ∃ (b₁ b₂ : Bool) (ts : List Task),
    r.plan c = Task.rebuildConstructor.when b₁ ++ ((Task.install .copyWith).when b₂ ++ ts)
      ∧ .rebuildConstructor ∉ ts ∧ .install .copyWith ∉ ts := by
  unfold Request.plan
  dsimp only
  split
  · exact ⟨_, false, [], (append_nil _).symm, by simp, by simp⟩
  · split
    · refine ⟨_, false, _, by rw [append_nil, append_assoc]; rfl, ?_, ?_⟩
      all_goals split <;> simp [Task.mem_when]
    · refine ⟨_, _, _, by simp only [append_assoc]; rfl, ?_, ?_⟩
      all_goals split <;> simp [Task.mem_when]

/-- **A plan is the constructor, then `copyWith`, then the rest**, the first two if they are in
    it. -/
theorem Request.plan_eq_append (r : Request) (c : SourceClass) : ∃ ts : List Task,
    r.plan c = Task.rebuildConstructor.when (decide (.rebuildConstructor ∈ r.plan c))
        ++ ((Task.install .copyWith).when (decide (.install .copyWith ∈ r.plan c)) ++ ts)
      ∧ .rebuildConstructor ∉ ts := by
  obtain ⟨b₁, b₂, ts, hplan, h₁, h₂⟩ := r.exists_plan_eq c
  have hb₁ : decide (.rebuildConstructor ∈ r.plan c) = b₁ := by
    rw [hplan]
    simp [Task.mem_when, h₁]
  have hb₂ : decide (.install .copyWith ∈ r.plan c) = b₂ := by
    rw [hplan]
    simp [Task.mem_when, h₂]
  exact ⟨ts, by rw [hb₁, hb₂]; exact hplan, h₁⟩

/-! ## §3. The constructor. -/

namespace SourceClass

/-- The class with another text for its constructor. -/
def withConstructor (c : SourceClass) (t : Text) (changed : Bool) : SourceClass :=
  { c with constructorText := some t, constructorChanged := changed }

theorem withConstructor_self {c : SourceClass} {t : Text} (ht : c.constructorText = some t)
    (hc : c.constructorChanged = false) : c.withConstructor t false = c := by
  unfold withConstructor
  rw [← ht, ← hc]

end SourceClass

namespace Work

variable {c : SourceClass} {n : PositionalConstructor} {text : Text} {s : Nat}

/-- **After its turn, the constructor takes the fields by position**: in the order of the class if
    it was its turn, and else in its own. -/
theorem run_rebuild_positional (hc : c.Reported text.lines s) (hv : c.isValid)
    (hset : n.SetsFields c) (r : Request) {b : Bool} (hread : b → n.IsLegible)
    (ts : List Task) (d : Directives) : ∃ t changed,
      ((Task.rebuildConstructor.when b ++ ts).forM (perform r)).run ⟨c, d⟩
          = (ts.forM (perform r)).run ⟨c.withConstructor t changed, d⟩
        ∧ setNames t = (if b then c.fields.map Field.name else n.names)
        ∧ (c.withConstructor t changed).hasNamedConstructor = false
        ∧ (changed = false → t = n.print) := by
  obtain ⟨-, name, hname, -⟩ := hset.lead_eq
  have hflat := hset.not_mem_name hname '(' (.inl rfl)
  obtain ⟨e, he⟩ := SourceClass.exists_last hv
  obtain ⟨h, -, hst⟩ := hc.stands e he
  -- the constructor as it is found
  have hself := c.withConstructor_self hset.text_eq hc.unedited.1
  have hold : (c.withConstructor n.print false).hasNamedConstructor = false := by
    obtain ⟨e, hopens, hcurly, he⟩ := n.exists_opensWith
    exact SourceClass.hasNamedConstructor_of_opensWith rfl hname hflat hopens hcurly he
  cases b with
  | false => exact ⟨n.print, false, by rw [hself]; rfl, n.setNames_print, hold, fun _ => rfl⟩
  | true =>
    obtain ⟨new, hnew, hnames, e, hopens, hcurly, he⟩ :=
      SourceClass.setNames_newConstructor hst hv hset (hread rfl) (r.options .constructorDefaults)
        (r.comparesByEquatable c && r.selects .useEquatable)
    have hrun := run_rebuildConstructor r c d
    rw [hnew, hset.found, hset.text_eq] at hrun
    rw [show Task.rebuildConstructor.when true ++ ts = .rebuildConstructor :: ts from rfl,
      run_forM_cons, show perform r .rebuildConstructor = rebuildConstructor r from rfl, hrun]
    by_cases hsame : sameUpToBlanks n.print new
    · -- it stays as it is, so it has the order of the class already
      refine ⟨n.print, false, ?_, ?_, hold, fun _ => rfl⟩
      · simp only [Option.getD_some, hsame, Bool.true_and, if_true, hself]
      · rw [if_pos rfl, ← hnames]
        exact setNames_congr (beq_iff_eq.mp hsame)
    · refine ⟨new.indent, true, ?_, ?_, ?_, fun h => by cases h⟩
      · simp only [Option.getD_some, hsame, Bool.true_and, if_false, Bool.false_eq_true]
        rfl
      · rw [if_pos rfl, ← hnames]
        exact setNames_congr (squeeze_indent new)
      · exact SourceClass.hasNamedConstructor_of_opensWith rfl hname hflat hopens hcurly he

end Work

/-! ## §4. The method `copyWith`. -/

/-- The method `copyWith` of a class as it is left is `u`: it is inserted first of all members, or
    it takes the place of the one that was there, or that one differs in white space only. -/
inductive SourceClass.HasCopyWith (c : SourceClass) : Text → Prop
  | inserted {x : Text} (h : c.insertion = '\n' :: ((Member.copyWith c).text.indent ++ x)) :
      HasCopyWith c (Member.copyWith c).text.indent
  | replaced {m : ExistingMember} {ms : List ExistingMember}
      (hm : c.findMember "copyWith" (Member.copyWith c).finder = .ok (some m))
      (h : c.replaced = { m with replacement := some (Member.copyWith c).replacement } :: ms) :
      HasCopyWith c (Member.copyWith c).replacement
  | kept {m : ExistingMember} {u : Text}
      (hm : c.findMember "copyWith" (Member.copyWith c).finder = .ok (some m))
      (hu : m.current = some u) (hsame : u.sameUpToBlanks (Member.copyWith c).replacement = true) :
      HasCopyWith c u

namespace SourceClass

/-- Later tasks leave `copyWith` alone. -/
theorem HasCopyWith.extends {c c' : SourceClass} {u : Text} (h : c.HasCopyWith u)
    (hc : c'.Extends c) : c'.HasCopyWith u := by
  cases h with
  | @inserted x h =>
    obtain ⟨y, hy⟩ := hc.insertion_grows
    rw [← hc.copyWith_eq] at h ⊢
    exact .inserted (x := x ++ y) (by rw [← hy, h]; simp)
  | @replaced m ms hm h =>
    obtain ⟨ns, hns⟩ := hc.replaced_grows
    rw [← hc.copyWith_eq, ← hc.findMember_eq] at hm
    rw [← hc.copyWith_eq] at h ⊢
    have hgrown : c'.replaced
        = { m with replacement := some (Member.copyWith c').replacement } :: (ms ++ ns) := by
      rw [← hns, h]
      rfl
    exact .replaced hm hgrown
  | @kept m _ hm hu hsame =>
    rw [← hc.copyWith_eq, ← hc.findMember_eq] at hm
    rw [← hc.copyWith_eq] at hsame
    exact .kept hm hu hsame

end SourceClass

namespace Work

variable {c c' : SourceClass} {d d' : Directives}

/-- **Installing `copyWith` in a class without edits** gives it one that passes the fields in their
    order. -/
theorem install_copyWith {s : Int} (hs : c.first = some s) (hins : c.insertion = [])
    (hrep : c.replaced = []) (hpos : c.hasNamedConstructor = false)
    (hw : ∀ f ∈ c.fields, f.name.all isWord)
    (h : (install (Member.copyWith c)).run ⟨c, d⟩ = .ok () ⟨c', d'⟩) :
    ∃ u, c'.HasCopyWith u ∧ passedNames u = c.fields.map Field.name := by
  obtain ⟨htext, hreplacement⟩ := c.passedNames_copyWith hpos hw
  rcases install_cases h with ⟨-, rfl⟩ | ⟨found, hfound, hcase⟩
  · exact ⟨_, .inserted (x := []) (by rw [hins, append_nil]; rfl), htext⟩
  · obtain ⟨a, b, -, hm⟩ := (SourceClass.findMember_eq_some_iff hs _ _ found).mp hfound
    rcases hcase with ⟨hsame, rfl⟩ | rfl
    · have hcurrent : found.current = some (found.current.getD []) := by rw [hm]; rfl
      refine ⟨_, .kept hfound hcurrent hsame, ?_⟩
      rw [passedNames_congr (beq_iff_eq.mp hsame), hreplacement]
    · exact ⟨_, .replaced hfound (by rw [hrep]; rfl), hreplacement⟩

/-- **The order in a class that has been worked on**: that of the fields in `copyWith`, and also in
    the constructor if this was written anew. -/
theorem performAll_order {n : PositionalConstructor} {text : Text} {s : Nat} {r : Request}
    (hc : c.Reported text.lines s) (hv : c.isValid) (hset : n.SetsFields c)
    (hread : .rebuildConstructor ∈ r.plan c → n.IsLegible)
    (h : (performAll r).run ⟨c, d⟩ = .ok () ⟨c', d'⟩) :
    ∃ t changed u, c'.Extends (c.withConstructor t changed)
      ∧ (c.withConstructor t changed).hasNamedConstructor = false ∧ (changed = false → t = n.print)
      ∧ setNames t = (if .rebuildConstructor ∈ r.plan c then c.fields.map Field.name else n.names)
      ∧ (.install .copyWith ∈ r.plan c →
        c'.HasCopyWith u ∧ passedNames u = c.fields.map Field.name) := by
  have hw : ∀ f ∈ c.fields, f.name.all isWord := hset.fields_word
  -- the constructor and `copyWith` come first in the plan, and the rest only adds to the class
  obtain ⟨ts, hplan, hts⟩ := r.plan_eq_append c
  have h : ((r.plan c).forM (perform r)).run ⟨c, d⟩ = .ok () ⟨c', d'⟩ := h
  obtain ⟨t, changed, hrun, hnames, hpos, hunchanged⟩ := run_rebuild_positional hc hv hset r
    (b := decide (.rebuildConstructor ∈ r.plan c)) (fun hb => hread (of_decide_eq_true hb))
    ((Task.install .copyWith).when (decide (.install .copyWith ∈ r.plan c)) ++ ts) d
  rw [← hplan, h] at hrun
  have hnames : setNames t = (if .rebuildConstructor ∈ r.plan c then c.fields.map Field.name
      else n.names) := by simpa using hnames
  by_cases hcopy : .install .copyWith ∈ r.plan c
  · have hbuild : MemberKind.copyWith.build r (c.withConstructor t changed)
        = Member.copyWith (c.withConstructor t changed) := rfl
    rw [decide_eq_true hcopy, show (Task.install .copyWith).when true ++ ts
      = .install .copyWith :: ts from rfl, run_forM_cons, run_perform_install, hbuild] at hrun
    cases hinstall : (install (Member.copyWith (c.withConstructor t changed))).run
        ⟨c.withConstructor t changed, d⟩ with
    | error f x =>
      rw [hinstall] at hrun
      cases hrun
    | ok _ x =>
      obtain ⟨c₂, d₂⟩ := x
      rw [hinstall] at hrun
      have hext := forM_perform_extends ts hts hrun.symm
      have hown : c₂.Extends (c.withConstructor t changed) :=
        perform_extends (t := .install .copyWith) (r := r) (by simp) hinstall
      obtain ⟨u, hu, hpassed⟩ := install_copyWith (c := c.withConstructor t changed) hc.first_eq
        hc.unedited.2.2.1 hc.unedited.2.2.2 hpos hw hinstall
      exact ⟨t, changed, u, hext.trans hown, hpos, hunchanged, hnames,
        fun _ => ⟨hu.extends hext, hpassed⟩⟩
  · rw [decide_eq_false hcopy] at hrun
    exact ⟨t, changed, [], forM_perform_extends ts hts hrun.symm, hpos, hunchanged, hnames,
      fun hmem => absurd hmem hcopy⟩

end Work

/-! ## §5. The file. -/

namespace SourceClass

/-- Whether the first line of a member stands apart from the declaration of the class, its
    constructor and its last line. -/
def standsApart (c : SourceClass) (m : ExistingMember) : Bool :=
  m.first.any fun a => c.headLast.any (· < a) && c.last.any (a < ·)
    && !(c.constructorFirst.any (· ≤ a) && c.constructorLast.any (a ≤ ·))

theorem Keeps.standsApart_eq {c c₀ : SourceClass} (h : c.Keeps c₀) (m : ExistingMember) :
    c.standsApart m = c₀.standsApart m := by
  simp only [standsApart, h.headLast_eq, h.last_eq, h.constructorFirst_eq, h.constructorLast_eq]

variable {c : SourceClass} {ls : List Text} {s h e : Int} {t u : Text}

/-- A member that is found is a piece of the class. -/
theorem has_current (hs : c.first = some s) {name finder : Text} {m : ExistingMember}
    (hm : c.findMember name finder = .ok (some m)) (hu : m.current = some u) :
    c.content.has u := by
  obtain ⟨a, b, hab, rfl⟩ := (findMember_eq_some_iff hs name finder m).mp hm
  have hle := hab.ends.le
  have hlt := hab.ends.holds.1
  have hne : (c.content.lines.take (b + 1)).drop a ≠ [] := by
    rw [ne_eq, drop_eq_nil_iff, length_take]
    omega
  have hlines : c.content.lines = c.content.lines.take a
      ++ ((c.content.lines.take (b + 1)).drop a ++ c.content.lines.drop (b + 1)) := by
    have htake : c.content.lines.take a = (c.content.lines.take (b + 1)).take a := by
      rw [take_take, Nat.min_eq_left (by omega)]
    rw [htake, ← append_assoc, take_append_drop, take_append_drop]
  have hhas := has_unlines (c.content.lines.take a) (c.content.lines.drop (b + 1)) hne
  rw [← hlines, unlines_lines] at hhas
  rw [← Option.some.inj hu]
  exact hhas

/-- **The method `copyWith` stands in the text of the class**, or stood there before. -/
theorem HasCopyWith.has (hu : c.HasCopyWith u) (hc : c.Assembles ls s h e) (hv : c.isValid)
    (hcon : c.hasConstructor) (hhead : h < e) (hpos : c.hasNamedConstructor = false)
    (hw : ∀ f ∈ c.fields, f.name.all isWord)
    (hapart : ∀ m, c.findMember "copyWith" (Member.copyWith c).finder = .ok (some m) →
      c.standsApart m) (ht : c.assemble = .ok t) :
    (c.isChanged ∧ t.has u) ∨ c.content.has u := by
  cases hu with
  | @inserted x hx =>
    exact .inl ⟨by simp [isChanged, hx], hc.has_insertion hv hcon hhead (y := ['\n']) hx ht⟩
  | @replaced m ms hm hms =>
    obtain ⟨a, b, hab, rfl⟩ := (findMember_eq_some_iff hc.first_eq _ _ m).mp hm
    have hle := hab.ends.le
    have hapart := hapart _ hm
    simp only [standsApart, memberAt, hc.headLast_eq, hc.last_eq, Option.any_some, Bool.and_eq_true,
      decide_eq_true_eq] at hapart
    obtain ⟨⟨hbelow, habove⟩, hout⟩ := hapart
    -- within the old constructor the replacement would be left out with its lines
    have hold : c.inOldConstructor (s + a) = false := by
      unfold inOldConstructor
      split
      next x y hx hy =>
        simp only [hx, hy, Option.any_some, Bool.not_eq_true', Bool.and_eq_false_iff,
          decide_eq_false_iff_not] at hout
        simp only [Bool.and_eq_false_iff, decide_eq_false_iff_not]
        omega
      next => rfl
    obtain ⟨q, hq⟩ := exists_replacement_eq hpos hw
    rw [hq] at hms ⊢
    exact .inl ⟨by simp [isChanged, hms], hc.has_replacement hcon hms rfl rfl (by omega) hbelow
      habove hold (by decide) rfl ht⟩
  | @kept m _ hm hcurrent _ => exact .inr (has_current hc.first_eq hm hcurrent)

/-- The same for a class that the work has left, by what is known of the class before it. -/
theorem HasCopyWith.has_of_extends {c' : SourceClass} {new : Text} {changed : Bool}
    (hu : c'.HasCopyWith u) (hext : c'.Extends (c.withConstructor t changed)) (hkeeps : c'.Keeps c)
    (hc : c'.Assembles ls s h e) (hv : c.isValid) (hcon : c.hasConstructor)
    (hhead : h < e) (hpos : (c.withConstructor t changed).hasNamedConstructor = false)
    (hw : ∀ f ∈ c.fields, f.name.all isWord)
    (hapart : ∀ m, c.findMember "copyWith" (Member.copyWith c).finder = .ok (some m) →
      c.standsApart m) (hnew : c'.assemble = .ok new) :
    (c'.isChanged ∧ new.has u) ∨ c.content.has u := by
  have hcon' : c'.hasConstructor := by
    obtain ⟨a, b, ha, hb⟩ := exists_constructor_lines hcon
    simp [hasConstructor, hkeeps.constructorFirst_eq, hkeeps.constructorLast_eq, ha, hb,
      hext.text_eq,
      withConstructor]
  have hpos' : c'.hasNamedConstructor = false :=
    (hasNamedConstructor_congr (d := c.withConstructor t changed) hkeeps.name_eq hext.text_eq).trans
      hpos
  rw [← hkeeps.content_eq]
  refine hu.has hc (hkeeps.isValid_eq.trans hv) hcon' hhead hpos' ?_ (fun m hm => ?_) hnew
  · rw [hkeeps.fields_eq]
    exact hw
  · -- the search reads the content and the name of the class, which are as before
    rw [hext.copyWith_eq, hext.findMember_eq] at hm
    rw [hkeeps.standsApart_eq]
    exact hapart m hm

end SourceClass

/-- The constructor is asked for, and begins above the last line of the class: on that line, it is
    left as it is. -/
def Request.Rewrites (r : Request) (c : SourceClass) : Prop :=
  .rebuildConstructor ∈ r.plan c ∧ c.constructorFirst ≠ c.last

instance (r : Request) (c : SourceClass) : Decidable (r.Rewrites c) :=
  inferInstanceAs (Decidable (_ ∧ _))

/-- What is left of the class `c` with the constructor `n`: the class `c'`, its constructor `t` and
    its `copyWith` `u`, in the file `out`.  A constructor that is written anew stands in the file,
    and any other one is as it was. -/
structure Request.Orders (r : Request) (c : SourceClass) (n : PositionalConstructor)
    (c' : SourceClass) (out t u : Text) : Prop where
  keeps : c'.Keeps c
  rewritten : r.Rewrites c → c'.constructorChanged = true →
    c'.constructorText = some t ∧ out.has (t.removeEnd "\n") = true
  untouched : ¬ (r.Rewrites c ∧ c'.constructorChanged = true) → t = n.print
  sets : setNames t = if r.Rewrites c then c.fields.map Field.name else n.names
  passes : .install .copyWith ∈ r.plan c → c'.HasCopyWith u
    ∧ (out.has u = true ∨ c.content.has u = true) ∧ passedNames u = c.fields.map Field.name

/-- The constructor `t` takes the fields in the order of `n`, and `copyWith`, where it is asked for,
    passes them in the order in which `t` takes them. -/
def Request.RespectsOrder (r : Request) (c : SourceClass) (n : PositionalConstructor) (t u : Text) :
    Prop :=
  setNames t = n.names ∧ (.install .copyWith ∈ r.plan c → passedNames u = setNames t)

/-- The two orders are the one that was found exactly if this is the order of the class, or if
    neither of the two is written. -/
theorem respected_iff {found own set passed : List Text} {p q : Prop} [Decidable p]
    (hset : set = if p then own else found) (hpassed : q → passed = own) :
    (set = found ∧ (q → passed = set)) ↔ found = own ∨ (¬ p ∧ ¬ q) := by
  subst hset
  by_cases hp : p
  · rw [if_pos hp]
    constructor
    · exact fun h => .inl h.1.symm
    · rintro (rfl | h)
      · exact ⟨rfl, hpassed⟩
      · exact absurd hp h.1
  · rw [if_neg hp]
    constructor
    · rintro ⟨-, h⟩
      by_cases hq : q
      · exact .inl ((h hq).symm.trans (hpassed hq))
      · exact .inr ⟨hp, hq⟩
    · rintro (rfl | h)
      · exact ⟨rfl, hpassed⟩
      · exact ⟨rfl, fun hq => absurd hq h.2⟩

/-- **Positional order is respected exactly if the constructor has the order of the fields
    already**, or if nothing is asked for that depends on it.  A constructor that is written anew
    and the call in `copyWith` both take the fields in the order of the class, whatever the order of
    the parameters that are found. -/
theorem generate_order_iff {text : Text} {cs : List SourceClass} (hcs : scan text = .ok cs)
    {c : SourceClass} (hc : c ∈ cs) (hv : c.isValid = true) {n : PositionalConstructor}
    (hset : n.SetsFields c) {r : Request} (hr : r.category ≠ some .jsonSerializable)
    (hread : .rebuildConstructor ∈ r.plan c → n.IsLegible)
    (hapart : .install .copyWith ∈ r.plan c → ∀ m,
      c.findMember "copyWith" (Member.copyWith c).finder = .ok (some m) → c.standsApart m = true) :
    ∃ g out c' t u, generate text r = .ok g ∧ g.edits.apply text = .ok out ∧ c' ∈ g.classes
      ∧ r.Orders c n c' out t u
      ∧ (r.RespectsOrder c n t u ↔ n.names = c.fields.map Field.name
          ∨ (¬ r.Rewrites c ∧ .install .copyWith ∉ r.plan c)) := by
  obtain ⟨s, -, hrep⟩ := (scan_laid hcs).2 c hc
  obtain ⟨e, he⟩ := SourceClass.exists_last hv
  obtain ⟨h, hh, hst⟩ := hrep.stands e he
  obtain ⟨a, b, ha, hb⟩ := SourceClass.exists_constructor_lines hset.found
  obtain ⟨hha, hab, hbe, -⟩ := hst.constructor_inside a b ha hb
  -- the work on the class, and the class that it leaves
  obtain ⟨g, out, c', d, d', new, hg, hout, hc', hkeeps, hperform, hasm, hnew, hstands⟩ :=
    generate_assembled hcs hc hv hrep hst hh he hr
  obtain ⟨t, changed, u, hext, hpos, hunchanged, hnames, hcopy⟩ :=
    Work.performAll_order hrep hv hset hread hperform
  have hpasses (hplanned : .install .copyWith ∈ r.plan c) : c'.HasCopyWith u
      ∧ (out.has u = true ∨ c.content.has u = true)
      ∧ passedNames u = c.fields.map Field.name := by
    obtain ⟨hu, hpassed⟩ := hcopy hplanned
    refine ⟨hu, ?_, hpassed⟩
    rcases hu.has_of_extends hext hkeeps hasm hv hset.found (by omega) hpos hset.fields_word
      (hapart hplanned) hnew with ⟨hnow, hin⟩ | hin
    · exact Or.inl (has_trans (hstands hnow) hin)
    · exact Or.inr hin
  have hrespected {t' : Text}
      (hsets : setNames t' = if r.Rewrites c then c.fields.map Field.name else n.names) :
      r.RespectsOrder c n t' u ↔ n.names = c.fields.map Field.name
        ∨ (¬ r.Rewrites c ∧ .install .copyWith ∉ r.plan c) :=
    respected_iff hsets fun hplanned => (hcopy hplanned).2
  -- the constructor that stands in the file is the new one, or the one that was found
  by_cases hrw : r.Rewrites c
  · have hsets : setNames t = if r.Rewrites c then c.fields.map Field.name else n.names := by
      rw [hnames, if_pos hrw, if_pos hrw.1]
    refine ⟨g, out, c', t, u, hg, hout, hc', {
      keeps := hkeeps
      rewritten := fun _ hch => ?_
      untouched := fun hch => ?_
      sets := hsets
      passes := hpasses }, hrespected hsets⟩
    · have hae : a ≠ e := fun hae => hrw.2 (by rw [ha, he, hae])
      have hnow : c'.isChanged = true := by simp [SourceClass.isChanged, hch]
      exact ⟨hext.text_eq, has_trans (hstands hnow) (hasm.has_constructor
        (hkeeps.constructorFirst_eq.trans ha) (hkeeps.constructorLast_eq.trans hb) hha hab
        (by omega) hext.text_eq hch hnew)⟩
    · have hchanged : c'.constructorChanged = changed := hext.changed_eq
      refine hunchanged ?_
      rw [← hchanged]
      exact Bool.eq_false_iff.mpr fun h => hch ⟨hrw, h⟩
  · have hsets : setNames n.print = if r.Rewrites c then c.fields.map Field.name else n.names := by
      rw [if_neg hrw, n.setNames_print]
    exact ⟨g, out, c', n.print, u, hg, hout, hc', {
      keeps := hkeeps
      rewritten := fun h => absurd h hrw
      untouched := fun _ => rfl
      sets := hsets
      passes := hpasses }, hrespected hsets⟩

/-- A class whose constructor takes the second field first. -/
def turnedClass : Text :=
  ("class A \x7b\n  int x;\n  int y;\n  A([this.y, this.x]);\n"
    ++ "  A copyWith() \x7b\n    return this;\n  \x7d\n\x7d").toList

/-- Its constructor and its `copyWith` get the order of the fields. -/
theorem generate_order_swapped :
    ∃ g out c' t u, generate turnedClass {} = .ok g ∧ g.edits.apply turnedClass = .ok out
        ∧ c' ∈ g.classes ∧ setNames t = ["x".toList, "y".toList]
        ∧ (c'.constructorChanged = true → c'.constructorText = some t
          ∧ out.has (t.removeEnd "\n") = true)
        ∧ c'.HasCopyWith u ∧ passedNames u = ["x".toList, "y".toList] := by
  let parameter (before name : Text) (hb : before.allBlank = true) (hn : isIdentifier name = true) :
      FieldParameter := {
    before := before, modifier := none, name := name, value := none, after := []
    before_blank := hb
    modifier_blank := nofun
    name_identifier := hn
    value_blank := nofun
    value_nested := nofun
    value_end := nofun
    after_blank := by decide }
  let n : PositionalConstructor := {
    lead := "  A", square := some ([], []), tail := ";"
    list := {
      items := [parameter [] "y" (by decide) (by decide), parameter " " "x" (by decide) (by decide)]
      comma := false, close := []
      items_ne_nil := by simp
      distinct := by decide
      close_blank := by decide }
    lead_flat := by decide
    square_blank := by rintro a b ⟨⟩; decide
    bare := by decide }
  obtain ⟨cs, c, hcs, hc, hv, hcon, ht, hname, hfields, hapart, hrewrites, hcopy⟩ :=
    SourceClass.exists_scanned
    (t := turnedClass)
    (P := fun c => c.isValid = true ∧ c.hasConstructor = true ∧ c.constructorText = some n.print
      ∧ c.head.name = some "A" ∧ c.fields.map Field.name = ["x", "y"]
      ∧ (c.findMember "copyWith" (Member.copyWith c).finder).toOption.join.all c.standsApart = true
      ∧ Request.Rewrites {} c ∧ .install .copyWith ∈ Request.plan {} c)
    (by decide +kernel)
  have hset : n.SetsFields c := {
    found := hcon
    text_eq := ht
    lead_eq := ⟨"  ", "A", hname, rfl⟩
    perm := by
      rw [hfields]
      exact List.Perm.swap _ _ _ }
  obtain ⟨g, out, c', t, u, hg, hout, hc', ho, -⟩ :=
    generate_order_iff hcs hc hv hset (r := {}) (by decide) (fun _ => ⟨by decide, by decide⟩)
      fun _ m hm => by rw [hm] at hapart; exact hapart
  obtain ⟨hu, -, hpassed⟩ := ho.passes hcopy
  have hsets := ho.sets
  rw [if_pos hrewrites, hfields] at hsets
  exact ⟨g, out, c', t, u, hg, hout, hc', hsets, ho.rewritten hrewrites, hu, hpassed.trans hfields⟩

/-- A constructor with the two fields in the other order is turned round, and `copyWith`, where it
    is written alone, passes each of them for the other. -/
theorem generate_swaps_positional :
    (generate "class A \x7b\n  int x;\n  int y;\n  A(this.y, this.x);\n\x7d"
          { category := some .constructor }).toOption.map (·.edits.classes.map ClassEdit.text)
        = some
          ["class A \x7b\n  int x;\n  int y;\n  A(\n    this.x,\n    this.y,\n  );\n\x7d".toList]
      ∧ (generate "class A \x7b\n  int x;\n  int y;\n  A(this.y, this.x);\n\x7d"
          { category := some .copyWith }).toOption.map (·.edits.classes.map ClassEdit.text)
        = some
          [("class A \x7b\n  int x;\n  int y;\n  A(this.y, this.x);\n\n  A copyWith(\x7b
    int? x,\n"
          ++ "    int? y,\n  \x7d) \x7b\n    return A(\n      x ?? this.x,\n      y ?? this.y,
    );\n  \x7d\n\x7d").toList] := by
  decide +kernel

end DartData
