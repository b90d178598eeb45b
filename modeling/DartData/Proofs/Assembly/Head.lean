import DartData.Proofs.Assembly.Frame

/-!
# The head and the body of an assembled class

A class is assembled from its last line upwards.  What stands for the lines below the declaration is
put together first and does not depend on the declaration (`assembleFrom`); all lines of the
declaration together become one line in front of it (`Assembles.assemble_eq`).
-/

namespace DartData.SourceClass

open List

variable {c : SourceClass} {ls : List Text} {s h e : Int}

/-! ## §1. The lines from one on. -/

/-- What stands for the lines from the offset `k` on, given those lines. -/
def assembleFrom (c : SourceClass) (lines : List Text) (first last : Int) (k : Nat) :
    List Text → Except Fault Text
  | [] => .ok []
  | _ :: rest => c.assembleFrom lines first last (k + 1) rest >>= c.assembleLine lines first last k

/-- Assembling goes through the lines from `k` on before it comes to those above. -/
theorem assembleLines_from (c : SourceClass) (lines : List Text) (first last : Int)
    (rest : List Text) : ∀ k, c.assembleLines lines first last (k + rest.length) []
      = c.assembleFrom lines first last k rest >>= c.assembleLines lines first last k := by
  induction rest with
  | nil => intro k; rfl
  | cons line rest ih =>
    intro k
    rw [length_cons, show k + (rest.length + 1) = k + 1 + rest.length by omega, ih]
    show _ = (c.assembleFrom lines first last (k + 1) rest >>= _) >>= _
    cases c.assembleFrom lines first last (k + 1) rest <;> rfl

theorem Assembles.assembleFrom_ok (hc : c.Assembles ls s h e) (rest : List Text) :
    ∀ k, ls.drop k = rest → ∃ t, c.assembleFrom ls s e k rest = .ok t ∧ t.EndsLine := by
  induction rest with
  | nil => intro k _; exact ⟨[], rfl, .inl rfl⟩
  | cons line rest ih =>
    intro k hk
    have hget : ls[k]? = some line := by rw [← head?_drop, hk]; rfl
    obtain ⟨after, hafter, hends⟩ := ih (k + 1) (by rw [← drop_drop, hk]; rfl)
    obtain ⟨t, ht, hput⟩ := assembleLine_puts hc hget hends
    exact ⟨t, by rw [assembleFrom, hafter]; exact ht, hput.1⟩

/-! ## §2. The declaration. -/

/-- The line that stands for the declaration, which ends on the line `headLine`. -/
def newHead (c : SourceClass) (headLine : Text) : Text :=
  c.declarationLine ++ (if headLine.has "\x7b" then " \x7b".toList else [])

/-- The lines of the declaration below its first leave no trace. -/
theorem Assembles.assembleLines_head (hc : c.Assembles ls s h e) (after : Text) :
    ∀ j : Nat, (j : Int) ≤ h - s →
      c.assembleLines ls s e (j + 1) after = c.assembleLine ls s e 0 after := by
  have hoff : c.headOffset s = h - s :=
    headOffset_eq hc.headLast_eq (Int.le_trans hc.one_le hc.first_le) s
  have hlen := hc.length_eq
  have hle := hc.headLast_le
  intro j
  induction j with
  | zero =>
    intro _
    show c.assembleLine ls s e 0 after >>= _ = _
    cases c.assembleLine ls s e 0 after <;> rfl
  | succ j ih =>
    intro hj
    have hskip : c.assembleLine ls s e (j + 1) after = .ok after := by
      rw [assembleLine, getElem?_eq_getElem (by omega)]
      dsimp only
      rw [if_pos (by rw [hoff]; omega), if_neg (by omega)]
    rw [assembleLines, hskip]
    exact ih (by omega)

/-- **A class is its declaration line and what stands for the lines below the declaration.** -/
theorem Assembles.assemble_eq (hc : c.Assembles ls s h e) :
    ∃ headLine body, ls[(h - s).toNat]? = some headLine
      ∧ c.assembleFrom ls s e (h - s + 1).toNat (ls.drop (h - s + 1).toNat) = .ok body
      ∧ body.EndsLine
      ∧ c.assemble = .ok ((c.newHead headLine ++ '\n' :: body).removeEnd "\n") := by
  have hoff : c.headOffset s = h - s :=
    headOffset_eq hc.headLast_eq (Int.le_trans hc.one_le hc.first_le) s
  have hlen := hc.length_eq
  have hle := hc.headLast_le
  have hsh := hc.first_le
  obtain ⟨body, hbody, hends⟩ := hc.assembleFrom_ok _ (h - s + 1).toNat rfl
  have hget : ls[(h - s).toNat]? = some ls[(h - s).toNat] := List.getElem?_eq_getElem (by omega)
  refine ⟨_, body, hget, hbody, hends, ?_⟩
  -- lines are assembled from the last one upwards: those below the declaration, then its own
  have hcount : (e - s + 1).toNat = (h - s + 1).toNat + (ls.drop (h - s + 1).toNat).length := by
    rw [List.length_drop]
    omega
  have hfirst : c.assembleLine ls s e 0 body
      = .ok (c.newHead ls[(h - s).toNat] ++ '\n' :: body) := by
    rw [assembleLine, List.getElem?_eq_getElem (by omega)]
    dsimp only
    rw [if_pos (by rw [hoff]; simpa using hsh), if_pos rfl, hoff, hget]
    simp [Text.of, newHead]
  -- of the lines of the declaration only the first gives a line
  have hhead : c.assembleLines ls s e (h - s + 1).toNat body
      = .ok (c.newHead ls[(h - s).toNat] ++ '\n' :: body) := by
    rw [show (h - s + 1).toNat = (h - s).toNat + 1 by omega,
      hc.assembleLines_head body _ (by omega), hfirst]
  rw [assemble, hc.first_eq, hc.last_eq]
  dsimp only
  rw [hc.lines_eq, hcount, assembleLines_from, hbody]
  show (c.assembleLines ls s e (h - s + 1).toNat body >>= _) = _
  rw [hhead]
  rfl

end DartData.SourceClass
