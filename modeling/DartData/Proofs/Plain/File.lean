import DartData.Proofs.Directives.Required
import DartData.Proofs.Plain.Settled

/-!
# Files of plain classes

A file of plain classes is scanned class by class.  The first time, each class gets an edit that
settles it, and the edits together settle the file.  After that there is nothing left to do, as long
as the members of each class are told apart.
-/

namespace DartData

open List Text

/-! ## §1. Scanning. -/

/-- The classes of a file in their parts, if the first of them begins after the line `n`.  With each
    class come the lines below it. -/
def scannedFrom (n : Nat) : List (ClassParts × List Text) → List SourceClass
  | [] => []
  | (p, gap) :: ps => p.scanned (n + 1 : Nat) :: scannedFrom (n + (p.lines.length + gap.length)) ps

/-- The lines of the classes. -/
def partsLines (ps : List (ClassParts × List Text)) : List Text :=
  ps.flatMap fun p => p.1.lines ++ p.2

/-- Plain classes are scanned one after another. -/
theorem scanLines_parts (ps : List (ClassParts × List Text)) (n : Nat) (previous : Option Text)
    (hps : ∀ p ∈ ps, (∃ name, p.1.Fits name) ∧ ∀ l ∈ p.2, l.allBlank) :
    scanLines (n + 1) previous none (partsLines ps) = .ok (scannedFrom n ps) := by
  induction ps generalizing n previous with
  | nil => rfl
  | cons p ps ih =>
    obtain ⟨p, gap⟩ := p
    obtain ⟨⟨name, hp⟩, hgap⟩ := hps (p, gap) mem_cons_self
    obtain ⟨q, hq⟩ := ClassParts.scanLines_lines hp (n + 1) previous (gap ++ partsLines ps)
    obtain ⟨q', hq'⟩ := scanLines_outside gap (n + 1 + p.lines.length) q (partsLines ps)
      fun l hl => isClassLine_of_allBlank (hgap l hl)
    have hrest := ih (n + (p.lines.length + gap.length)) q'
      fun x hx => hps x (mem_cons_of_mem _ hx)
    have hlines : partsLines ((p, gap) :: ps) = p.lines ++ (gap ++ partsLines ps) := by
      simp [partsLines]
    rw [hlines, hq, hq', show n + 1 + p.lines.length + gap.length
      = n + (p.lines.length + gap.length) + 1 by omega, hrest]
    rfl

/-! ## §2. Work on all classes. -/

namespace SourceFile

theorem reviseAll_cons {work : Work (Option ClassEdit)} {c c' : SourceClass} {d d' : Directives}
    {edit : Option ClassEdit} (hv : c.isValid) (hc : work.run ⟨c, d⟩ = .ok edit ⟨c', d'⟩)
    {cs cs' : List SourceClass} {d'' : Directives} {found : Findings}
    (hcs : reviseAll work cs d' = ((cs', d''), .ok found)) :
    reviseAll work (c :: cs) d
      = ((c' :: cs', d''), .ok { found with edits := edit.toList ++ found.edits }) := by
  rw [reviseAll, if_pos hv, hc]
  dsimp only
  rw [hcs]
  rfl

end SourceFile

/-- Generation by the work on all classes. -/
theorem generate_eq {text : Text} {r : Request} (hr : r.category ≠ some .jsonSerializable)
    {cs cs' : List SourceClass} {d : Directives} {found : Findings} (hscan : scan text = .ok cs)
    (h : SourceFile.reviseAll (Work.revise r) cs (Directives.read text) = ((cs', d), .ok found)) :
    generate text r = .ok { classes := cs', issues := found.issues, edits :=
      { classes := found.edits, directives := d.edit? r.package } } := by
  have htemplate : (r.category == some .jsonSerializable) = false := beq_eq_false_iff_ne.mpr hr
  rw [generate, SourceFile.read, hscan]
  show (SourceFile.generate ⟨text, cs, Directives.read text⟩ r).2 = _
  rw [SourceFile.generate, htemplate]
  dsimp only
  rw [Bool.false_and, if_neg Bool.false_ne_true, if_neg Bool.false_ne_true, h]
  rfl

section

variable {r : Request} {item : PlainClass → MemberKind → Item}

/-- The classes as they are printed. -/
def printedParts (cs : List (PlainClass × List Text)) : List (ClassParts × List Text) :=
  cs.map fun c => (c.1.parts, c.2)

/-- The classes with everything written that the request asks for. -/
def settledParts (r : Request) (item : PlainClass → MemberKind → Item)
    (cs : List (PlainClass × List Text)) : List (ClassParts × List Text) :=
  cs.map fun c => (c.1.settled r (item c.1), c.2)

/-- The imports that the classes require. -/
def requiredImports (r : Request) (cs : List (PlainClass × List Text)) : List RequiredImport :=
  cs.flatMap fun c => c.1.imports r

/-- Settled classes get no edits, unless the members of one are not told apart. -/
theorem reviseAll_settled (h : ∀ c : PlainClass, c.Writes r (item c))
    (cs : List (PlainClass × List Text)) (n : Nat) (d : Directives) :
    ∃ cs' found, SourceFile.reviseAll (Work.revise r) (scannedFrom n (settledParts r item cs)) d
        = ((cs', d.requireAll (requiredImports r cs)), .ok found)
      ∧ (found.edits = [] ↔ ∀ c ∈ cs, c.1.Distinct r) := by
  induction cs generalizing n d with
  | nil => exact ⟨[], {}, rfl, by simp⟩
  | cons c cs ih =>
    obtain ⟨c, gap⟩ := c
    obtain ⟨edit, c', hrun, hnone⟩ := PlainClass.run_revise_settled (h c)
      (show (1 : Int) ≤ (n + 1 : Nat) by omega) d
    obtain ⟨cs', found, hcs, hfound⟩ := ih
      (n + ((c.settled r (item c)).lines.length + gap.length)) (d.requireAll (c.imports r))
    refine ⟨c' :: cs', { found with edits := edit.toList ++ found.edits },
      (SourceFile.reviseAll_cons (c.isValid_settled r (item c) _) hrun hcs).trans ?_, ?_⟩
    · rw [← Directives.requireAll_append]
      rfl
    · rw [append_eq_nil_iff, hfound, forall_mem_cons, ← hnone]
      cases edit <;> simp

/-! ## §3. The edits worked in. -/

/-- Lines above all edits stay. -/
theorem replaceFrom_skip (a ls : List Text) {k : Nat} {es : List Edit}
    (h : ∀ e ∈ es, ((k + a.length : Nat) : Int) < e.first ∧ e.first ≤ e.last + 1) :
    Edit.replaceFrom k (a ++ ls) es = a ++ Edit.replaceFrom (k + a.length) ls es := by
  cases es with
  | nil => rfl
  | cons e es =>
    obtain ⟨hk, he⟩ := h e mem_cons_self
    have htake : (a ++ ls).take ((e.first - 1).toNat - k)
        = a ++ ls.take ((e.first - 1).toNat - (k + a.length)) := by
      rw [take_append, take_of_length_le (by omega)]
      congr 2
      omega
    have hdrop : (a ++ ls).drop (e.last.toNat - k) = ls.drop (e.last.toNat - (k + a.length)) := by
      rw [drop_append, drop_of_length_le (by omega), nil_append]
      congr 1
      omega
    rw [Edit.replaceFrom, Edit.replaceFrom, htake, hdrop]
    simp only [append_assoc]

/-- The edit of a class, with those of the classes below it. -/
theorem replaceFrom_turns {p q : ClassParts} {n : Nat} {edit : Option ClassEdit}
    (h : p.TurnsInto q (n + 1 : Nat) edit) {gap ls ls' : List Text} {es : List ClassEdit}
    (hes : ∀ e ∈ es.map ClassEdit.placed,
      ((n + (p.lines.length + gap.length) : Nat) : Int) < e.first ∧ e.first ≤ e.last + 1)
    (hls : Edit.replaceFrom (n + (p.lines.length + gap.length)) ls
      (es.map ClassEdit.placed) = ls') :
    Edit.replaceFrom n (p.lines ++ gap ++ ls) ((edit.toList ++ es).map ClassEdit.placed)
      = q.lines ++ gap ++ ls' := by
  have hrest : Edit.replaceFrom (n + p.lines.length) (gap ++ ls) (es.map ClassEdit.placed)
      = gap ++ ls' := by
    rw [replaceFrom_skip, Nat.add_assoc, hls]
    rwa [Nat.add_assoc]
  rw [append_assoc, append_assoc, map_append]
  cases edit with
  | none =>
    have hsame : q.lines = p.lines := h
    rw [hsame]
    show Edit.replaceFrom n (p.lines ++ (gap ++ ls)) (es.map _) = _
    rw [replaceFrom_skip, hrest]
    intro e he
    obtain ⟨h₁, h₂⟩ := hes e he
    exact ⟨by omega, h₂⟩
  | some e =>
    have hpos : 0 < p.lines.length := length_pos_iff.mpr p.lines_ne_nil
    have hlast : (((n + 1 : Nat) : Int) + p.lines.length - 1).toNat = n + p.lines.length := by omega
    have hplaced : e.placed = { first := (n + 1 : Nat), last := (n + 1 : Nat) + p.lines.length - 1,
                                lines := q.lines } := h
    show Edit.replaceFrom n (p.lines ++ (gap ++ ls)) (e.placed :: es.map _) = _
    rw [hplaced, Edit.replaceFrom]
    dsimp only
    rw [hlast, show (((n + 1 : Nat) : Int) - 1).toNat - n = 0 by omega, Nat.add_sub_cancel_left,
      take_zero, nil_append, drop_left, hrest]

/-- **Work on all classes**, if it turns each class `f c` into `g c`: the edits together turn all of
    them. -/
theorem reviseAll_parts {work : Work (Option ClassEdit)} {f g : PlainClass → ClassParts}
    {is : PlainClass → List RequiredImport} (hv : ∀ c n, ((f c).scanned n).isValid)
    (hwork : ∀ (c : PlainClass) (n : Int) (d : Directives), ∃ edit c',
      work.run ⟨(f c).scanned n, d⟩ = .ok edit ⟨c', d.requireAll (is c)⟩
        ∧ (f c).TurnsInto (g c) n edit)
    (cs : List (PlainClass × List Text)) (n : Nat) (d : Directives) :
    ∃ cs' es, SourceFile.reviseAll work (scannedFrom n (cs.map fun c => (f c.1, c.2))) d
        = ((cs', d.requireAll (cs.flatMap fun c => is c.1)), .ok { edits := es })
      ∧ (∀ e ∈ es.map ClassEdit.placed, (n : Int) < e.first ∧ e.first ≤ e.last + 1)
      ∧ Edit.replaceFrom n (partsLines (cs.map fun c => (f c.1, c.2))) (es.map ClassEdit.placed)
        = partsLines (cs.map fun c => (g c.1, c.2)) := by
  induction cs generalizing n d with
  | nil => exact ⟨[], [], rfl, fun e he => absurd he not_mem_nil, rfl⟩
  | cons c cs ih =>
    obtain ⟨c, gap⟩ := c
    obtain ⟨edit, c', hrun, hturns⟩ := hwork c (n + 1 : Nat) d
    -- below, the imports of this class have been asked for
    obtain ⟨cs', es, hcs, hbelow, hlines⟩ := ih (n + ((f c).lines.length + gap.length))
      (d.requireAll (is c))
    refine ⟨c' :: cs', edit.toList ++ es, ?_, ?_, replaceFrom_turns hturns hbelow hlines⟩
    · refine (SourceFile.reviseAll_cons (hv c _) hrun hcs).trans ?_
      rw [← Directives.requireAll_append]
      rfl
    · intro e he
      rw [map_append, mem_append] at he
      rcases he with he | he
      · obtain ⟨e, hmem, rfl⟩ := mem_map.mp he
        rw [Option.mem_toList] at hmem
        subst hmem
        have hplaced : e.placed = { first := (n + 1 : Nat),
                                    last := (n + 1 : Nat) + (f c).lines.length - 1,
                                    lines := (g c).lines } := hturns
        rw [hplaced]
        dsimp only
        omega
      · obtain ⟨h₁, h₂⟩ := hbelow e he
        exact ⟨by omega, h₂⟩

end

end DartData
