import DartData.Proofs.Generation.Edits

/-!
# What is written stands in the file

A class is assembled from its last line upwards, and each line puts something in front of what
follows it.  So a constructor that is written anew, the members that are inserted and the text that
takes the place of a member stand in the new text of the class, and this one stands in the file.
-/

namespace DartData

open List Text

/-! ## §1. Lines of a class. -/

namespace SourceClass

variable {c : SourceClass} {ls : List Text}

theorem of_concat (ps : List Text) (after : Text) :
    of (ps ++ [after]) = of ps ++ after := by
  simp [of]

variable {first last : Int} {k : Nat}

/-- A line puts something in front of what follows it. -/
theorem assembleLine_eq_append {after t : Text} (h : c.assembleLine ls first last k after = .ok t) :
    ∃ x, t = x ++ after := by
  -- every branch puts something or nothing in front of `after`
  unfold assembleLine at h
  split at h
  · cases h
  next line _ =>
    dsimp only at h
    split at h
    · split at h
      · split at h
        · cases h
        · exact ⟨_, (Except.ok.inj h).symm.trans (of_concat [c.declarationLine, _, "\n"] after)⟩
      · exact ⟨[], (Except.ok.inj h).symm⟩
    · split at h
      · exact ⟨_, (Except.ok.inj h).symm.trans
          (of_concat [line, "\n\n", c.constructorText.getD []] after)⟩
      · split at h
        · exact ⟨_, (Except.ok.inj h).symm.trans (of_concat [c.insertion, line, "\n"] after)⟩
        · split at h
          · split at h
            · exact ⟨_, (Except.ok.inj h).symm.trans (of_concat [_, "\n"] after)⟩
            · exact ⟨[], (Except.ok.inj h).symm⟩
          · split at h
            · exact ⟨_, (Except.ok.inj h).symm.trans (of_concat [line, "\n"] after)⟩
            · split at h
              · exact ⟨[], (Except.ok.inj h).symm⟩
              · exact ⟨_, (Except.ok.inj h).symm.trans (of_concat [_, "\n"] after)⟩

theorem assembleLines_eq_append (k : Nat) :
    ∀ {after t : Text}, c.assembleLines ls first last k after = .ok t → ∃ x, t = x ++ after := by
  induction k with
  | zero => exact fun h => ⟨[], (Except.ok.inj h).symm⟩
  | succ k ih =>
    intro after t h
    obtain ⟨u, hu, h⟩ := bind_eq_ok.mp h
    obtain ⟨x, rfl⟩ := assembleLine_eq_append hu
    obtain ⟨y, rfl⟩ := ih h
    exact ⟨y ++ x, by simp⟩

/-- What stands for a line comes through. -/
theorem assembleLines_at (count : Nat) (hk : k < count) :
    ∀ {after t : Text}, c.assembleLines ls first last count after = .ok t →
      ∃ after' u x, c.assembleLine ls first last k after' = .ok u ∧ t = x ++ u := by
  induction count with
  | zero => exact absurd hk (by omega)
  | succ m ih =>
    intro after t h
    obtain ⟨u, hu, h⟩ := bind_eq_ok.mp h
    by_cases hm : k = m
    · subst hm
      obtain ⟨x, rfl⟩ := assembleLines_eq_append k h
      exact ⟨after, u, x, hu, rfl⟩
    · exact ih (by omega) h

section

variable {s h e : Int}

variable {t : Text} {a b : Int}

/-- Below the head, the text of a class that has a constructor has what stands for the line `n`, but
    for a line feed at its end. -/
theorem Assembles.exists_line (hc : c.Assembles ls s h e) (hcon : c.hasConstructor) {n : Int}
    (hs : h < n) (hn : n ≤ e) (ht : c.assemble = .ok t) :
    ∃ line after u x : Text, t = (x ++ u).removeEnd "\n" ∧
      u = if n == e && c.isValid then of [c.insertion, line, "\n", after]
        else if c.inOldConstructor n then
          if c.constructorFirst == some n then
            of [(c.constructorText.getD []).removeEnd "\n", "\n", after]
          else after
        else (c.replacementAt n).elim (of [line, "\n", after]) fun t =>
          if after.has t then after else of [t, "\n", after] := by
  have hlen := hc.length_eq
  have hfirst := hc.first_le
  have hk : (n - s).toNat < ls.length := by omega
  unfold assemble at ht
  rw [hc.first_eq, hc.last_eq] at ht
  obtain ⟨u, hu, ht⟩ := bind_eq_ok.mp ht
  rw [hc.lines_eq] at hu
  obtain ⟨after, v, x, hv, rfl⟩ := assembleLines_at (k := (n - s).toNat) _ (by omega) hu
  unfold assembleLine at hv
  rw [getElem?_eq_getElem hk, headOffset_eq hc.headLast_eq (by have := hc.one_le; omega)] at hv
  dsimp only at hv
  rw [if_neg (by omega), hcon, Bool.not_true, Bool.and_false, if_neg (by decide),
    show s + ((n - s).toNat : Int) = n by omega] at hv
  refine ⟨ls[(n - s).toNat], after, v, x, (Except.ok.inj ht).symm, Except.ok.inj (hv.symm.trans ?_)⟩
  cases c.replacementAt n <;> simp only [apply_ite Except.ok, Option.elim_none, Option.elim_some]

/-- **A constructor that is written anew stands in the text of the class**, unless the old one
    begins on the last line. -/
theorem Assembles.has_constructor (hc : c.Assembles ls s h e) (ha : c.constructorFirst = some a)
    (hb : c.constructorLast = some b) (hhead : h < a) (hab : a ≤ b) (hlast : a < e) {new : Text}
    (hnew : c.constructorText = some new) (hchanged : c.constructorChanged)
    (ht : c.assemble = .ok t) :
    t.has (new.removeEnd "\n") := by
  have hcon : c.hasConstructor := by simp [hasConstructor, ha, hb, hnew]
  have hold : c.inOldConstructor a := by simp [inOldConstructor, ha, hb, hcon, hchanged, hab]
  obtain ⟨line, after, u, x, rfl, hu⟩ := hc.exists_line hcon hhead (Int.le_of_lt hlast) ht
  rw [if_neg (by simp; omega), if_pos hold, ha, if_pos (by simp), hnew] at hu
  have hu : u = new.removeEnd "\n" ++ ('\n' :: after) := by simpa [of] using hu
  rw [hu]
  exact has_removeEnd_feed (by simp)

/-- **What is inserted stands in the text of the class.** -/
theorem Assembles.has_insertion (hc : c.Assembles ls s h e) (hv : c.isValid)
    (hcon : c.hasConstructor) (hhead : h < e) {y p z : Text}
    (hp : c.insertion = y ++ (p ++ z)) (ht : c.assemble = .ok t) : t.has p := by
  obtain ⟨line, after, u, x, rfl, hu⟩ := hc.exists_line hcon hhead (Int.le_refl e) ht
  rw [if_pos (by simp [hv])] at hu
  have hu : x ++ u = (x ++ y) ++ (p ++ (z ++ (line ++ '\n' :: after))) := by
    rw [hu, hp]
    simp [of]
  rw [hu]
  exact has_removeEnd_feed (by simp)

/-- **The text that takes the place of a member stands in the text of the class**, if the member is
    the first to be replaced. -/
theorem Assembles.has_replacement (hc : c.Assembles ls s h e) (hcon : c.hasConstructor)
    {m : ExistingMember} {ms : List ExistingMember} (hm : c.replaced = m :: ms)
    (ha : m.first = some a) (hb : m.last = some b) (hab : a ≤ b) (hhead : h < a) (hlast : a < e)
    (hold : c.inOldConstructor a = false) {q : Text} {d : Char} (hd : d ≠ '\n')
    (hq : m.replacement = some (q ++ [d])) (ht : c.assemble = .ok t) :
    t.has (q ++ [d]) := by
  have hcovers : m.covers a := by simp [ExistingMember.covers, ha, hb, hab]
  have hat : c.replacementAt a = some (q ++ [d]) := by
    rw [replacementAt, hm, find?_cons, hcovers]
    exact hq
  obtain ⟨line, after, u, x, rfl, hu⟩ := hc.exists_line hcon hhead (Int.le_of_lt hlast) ht
  rw [if_neg (by simp; omega), hold, if_neg (by decide), hat, Option.elim_some] at hu
  refine has_removeEnd_concat hd (has_trans (has_iff.mpr ⟨x, [], by simp⟩) (u := u) ?_)
  rw [hu]
  split
  next hafter => exact hafter
  next => exact has_iff.mpr ⟨[], '\n' :: after, by simp [of]⟩

end

end SourceClass

/-! ## §2. Edits of a file. -/

/-- The lines of every edit stand in the result. -/
theorem Edit.exists_replaceFrom {e : Edit} (es : List Edit) (he : e ∈ es) :
    ∀ (k : Nat) (ls : List Text), ∃ above below,
      replaceFrom k ls es = above ++ (e.lines ++ below) := by
  induction es with
  | nil => cases he
  | cons f es ih =>
    intro k ls
    rw [replaceFrom]
    rcases mem_cons.mp he with rfl | he
    · exact ⟨_, _, append_assoc ..⟩
    · obtain ⟨above, below, h⟩ := ih he f.last.toNat (ls.drop (f.last.toNat - k))
      rw [h, ← append_assoc]
      exact ⟨_, _, rfl⟩

/-- **The text of each edit stands in the file with the edits worked in.** -/
theorem Edits.apply_has {es : Edits} {text : Text} (h : es.Disjoint text.lines.length) :
    ∃ out, es.apply text = .ok out ∧ ∀ e ∈ es.classes, out.has e.text := by
  refine ⟨_, apply_eq h, fun e he => ?_⟩
  have hmem : e.placed ∈ es.topDown := mem_append_right _ (mem_map_of_mem he)
  obtain ⟨above, below, heq⟩ := Edit.exists_replaceFrom es.topDown hmem 0 text.lines
  have hlines := has_unlines above below (lines_ne_nil e.text)
  rw [unlines_lines] at hlines
  rw [heq]
  exact hlines

/-- **What is assembled for a class stands in the file**, if the work has changed the class. -/
theorem generate_assembled {text : Text} {cs : List SourceClass} (hcs : scan text = .ok cs)
    {c : SourceClass} (hc : c ∈ cs) (hv : c.isValid) {s : Nat} {h e : Int}
    (hrep : c.Reported text.lines s) (hst : c.Stands text.lines s h e) (hh : c.headLast = some h)
    (he : c.last = some e) {r : Request} (hr : r.category ≠ some .jsonSerializable) :
    ∃ g out c' d d' new, generate text r = .ok g ∧ g.edits.apply text = .ok out
      ∧ c' ∈ g.classes ∧ c'.Keeps c ∧ (Work.performAll r).run ⟨c, d⟩ = .ok () ⟨c', d'⟩
      ∧ c'.Assembles (span text.lines s e) s h e ∧ c'.assemble = .ok new
      ∧ (c'.isChanged → out.has new) := by
  obtain ⟨g, -, hg, -, -, -, hrev⟩ := generate_of_scan hcs (r := r) fun h => absurd h hr
  obtain ⟨edit, c', hc', ⟨⟨d, d', hyields⟩, hkeeps, -⟩, hedits⟩ := hrev.of_mem hc hv
  obtain ⟨out, hout, hhas⟩ := Edits.apply_has (generate_disjoint hg)
  rw [Request.work, if_neg (by simpa using hr)] at hyields
  obtain ⟨hperform, -⟩ := Work.revise_eq_ok hyields
  -- the class can be assembled after any work that is planned
  obtain ⟨_, c₁, d₁, hrun, -, -, hworkable⟩ :=
    Work.forM_perform_keeps r (r.plan c) (hrep.workable hv) d
  obtain ⟨rfl, rfl⟩ : c₁ = c' ∧ d₁ = d' := by
    have := hrun.symm.trans hperform
    simpa using this
  have hasm := hst.assembles hkeeps hworkable hrep.first_eq hh he
  obtain ⟨new, hnew, -⟩ := SourceClass.assemble_keeps hasm
  refine ⟨g, out, c₁, d, d₁, new, hg, hout, hc', hkeeps, hperform, hasm, hnew, fun hchanged => ?_⟩
  have hsame := hyields.symm.trans (Work.run_revise hperform hnew)
  rw [if_pos hchanged] at hsame
  obtain ⟨rfl, -⟩ := EStateM.Result.ok.inj hsame
  exact hhas _ (hedits _ rfl)

end DartData
