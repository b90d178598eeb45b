import DartData.Proofs.Constructor.Tail
import DartData.Proofs.Generation.Work
import DartData.Proofs.Scan.Depth

/-!
# What the search for a member finds

The search goes through the lines of a class once.  What it finds is said here by the numbers of
two lines: the first line that begins the member, and the first line from there on that ends it
(`FoundAt`, `findMember_eq_some_iff`).

* A member is put into a class exactly if nothing is found (`install_insertion_iff`).
* What is found is a whole member if its first line opens a block; an arrow member is found as a
  whole exactly if its last line is back in the body of the class, and no line before it ends a
  statement in its code but not in its text (`findMember_whole_iff`).
-/

namespace DartData

open List Text

/-! ## §1. The first place. -/

/-- The first number from `k` on that has a property. -/
structure IsFirst (p : Nat → Prop) (k n : Nat) : Prop where
  le : k ≤ n
  holds : p n
  not_before : ∀ i, k ≤ i → i < n → ¬ p i

section

variable {p : Nat → Prop} {k n : Nat}

theorem isFirst_of_holds (h : p k) : IsFirst p k n ↔ n = k := by
  constructor
  · intro hn
    rcases Nat.lt_or_ge k n with hlt | hge
    · exact absurd h (hn.not_before k (Nat.le_refl k) hlt)
    · exact Nat.le_antisymm hge hn.le
  · rintro rfl
    exact ⟨Nat.le_refl n, h, fun i hi hlt => absurd hlt (Nat.not_lt.mpr hi)⟩

theorem isFirst_succ (h : ¬ p k) : IsFirst p k n ↔ IsFirst p (k + 1) n := by
  constructor
  · intro hn
    have hne : k ≠ n := fun he => h (he ▸ hn.holds)
    exact ⟨Nat.lt_of_le_of_ne hn.le hne, hn.holds,
      fun i hi => hn.not_before i (Nat.le_of_succ_le hi)⟩
  · intro hn
    refine ⟨Nat.le_of_succ_le hn.le, hn.holds, fun i hi hlt => ?_⟩
    rcases Nat.eq_or_lt_of_le hi with rfl | hki
    · exact h
    · exact hn.not_before i hki hlt

/-- Where a property holds at all, there is a first place. -/
theorem exists_isFirst (hn : k ≤ n) (h : p n) : ∃ m, IsFirst p k m := by
  obtain ⟨j, rfl⟩ := Nat.exists_eq_add_of_le hn
  clear hn
  induction j generalizing k with
  | zero => exact ⟨k, (isFirst_of_holds h).mpr rfl⟩
  | succ j ih =>
    by_cases hk : p k
    · exact ⟨k, (isFirst_of_holds hk).mpr rfl⟩
    · obtain ⟨m, hm⟩ := ih (k := k + 1) (by rwa [Nat.add_right_comm])
      exact ⟨m, (isFirst_succ hk).mpr hm⟩

end

/-! ## §2. Members by their lines. -/

/-- The line `k` has the head of a member: it stands below the first line of the class, directly in
    the body, and its signature begins as wanted. -/
def HeadAt (ls : List Text) (wanted : Text) (k : Nat) : Prop :=
  0 < k ∧ k < ls.length ∧ depthBefore ls k = 1
    ∧ (bareSignature (lineAt ls k).trim).startsWith wanted = true

/-- The body of a member begins on the line `k`: it opens a block, or it has an arrow. -/
def BodyAt (ls : List Text) (k : Nat) : Prop :=
  depthBefore ls (k + 1) = 2 ∨ (lineAt ls k).has "=>" = true

/-- The line `b` ends a member that begins on the line `a`.  If the depth is unchanged after its
    first line, it is an arrow member, which ends with a semicolon. -/
def EndAt (ls : List Text) (a b : Nat) : Prop :=
  b < ls.length ∧ if depthBefore ls (a + 1) = 1 then endsStatement (lineAt ls b) = true
    else depthBefore ls (b + 1) = 1

/-- A member is found on the lines from `a` to `b`. -/
structure FoundAt (ls : List Text) (wanted : Text) (a b : Nat) : Prop where
  begins : IsFirst (fun k => HeadAt ls wanted k ∧ BodyAt ls k) 1 a
  ends : IsFirst (EndAt ls a) a b

instance (ls : List Text) (wanted : Text) (k : Nat) : Decidable (HeadAt ls wanted k) :=
  inferInstanceAs (Decidable (_ ∧ _))

instance (ls : List Text) (k : Nat) : Decidable (BodyAt ls k) :=
  inferInstanceAs (Decidable (_ ∨ _))

instance (ls : List Text) (a b : Nat) : Decidable (EndAt ls a b) :=
  inferInstanceAs (Decidable (_ ∧ _))

/-- The member on the lines from `a` to `b` of a class that begins on the line `s`. -/
def memberAt (name : Text) (s : Int) (ls : List Text) (a b : Nat) : ExistingMember :=
  { name, first := some (s + a), last := some (s + b),
    current := some (unlines ((ls.take (b + 1)).drop a)) }

section

variable {ls rest : List Text} {line : Text} {k : Nat}

theorem take_drop_cons {n : Nat} (h : ls.drop k = line :: rest) (hn : k ≤ n) :
    (ls.take (n + 1)).drop k = line :: (ls.take (n + 1)).drop (k + 1) := by
  obtain ⟨j, rfl⟩ := Nat.exists_eq_add_of_le hn
  rw [drop_take, drop_take, h, drop_succ_of_drop h]
  have hj : k + j + 1 - k = (k + j + 1 - (k + 1)) + 1 := by omega
  rw [hj]
  rfl

theorem take_drop_self : (ls.take k).drop k = [] :=
  drop_eq_nil_of_le (length_take_le k ls)

end

/-! ## §3. The search. -/

namespace SourceClass

/-- Reading on in a member gets to the first line that ends it. -/
theorem memberRest_eq_some_iff (s : Int) (ls : List Text) (a : Nat) (rest : List Text) (k : Nat)
    (r : Int × List Text) (hk : ls.drop k = rest) :
    (memberRest (depthBefore ls (a + 1) == 1) (s + k) (Brackets.feedAll {} (ls.take k)) rest
        = some r
      ↔ ∃ b : Nat, IsFirst (EndAt ls a) k b ∧ r = (s + b, (ls.take (b + 1)).drop k)) := by
  induction rest generalizing k r with
  | nil =>
    have hle : ls.length ≤ k := drop_eq_nil_iff.mp hk
    refine ⟨nofun, ?_⟩
    rintro ⟨b, hb, -⟩
    exact absurd (Nat.lt_of_lt_of_le hb.holds.1 hle) (Nat.not_lt.mpr hb.le)
  | cons line rest ih =>
    -- the test that is made on the line says whether the line ends the member
    have hends : (if (depthBefore ls (a + 1) == 1) then endsStatement line
        else ((Brackets.feedAll {} (ls.take k)).feed line).curly == 1) ↔ EndAt ls a k := by
      rw [EndAt, lineAt_of_drop hk, depthBefore_succ hk]
      by_cases harrow : depthBefore ls (a + 1) = 1 <;>
        simp [harrow, lt_length_of_drop hk]
    have ih := ih (k + 1)
    rw [memberRest]
    by_cases hend : EndAt ls a k
    · rw [if_pos (hends.mpr hend)]
      simp only [isFirst_of_holds hend, exists_eq_left,
        take_drop_cons hk (Nat.le_refl k), take_drop_self, Option.some.injEq]
      exact eq_comm
    · rw [if_neg fun h => hend (hends.mp h)]
      have hnext : s + (k : Int) + 1 = s + ((k + 1 : Nat) : Int) := by omega
      rw [hnext, ← feedAll_take_succ hk, Option.map_eq_some_iff]
      constructor
      · rintro ⟨r', hrest, rfl⟩
        obtain ⟨b, hb, rfl⟩ := (ih r' (drop_succ_of_drop hk)).mp hrest
        exact ⟨b, (isFirst_succ hend).mpr hb, by rw [take_drop_cons hk (Nat.le_of_succ_le hb.le)]⟩
      · rintro ⟨b, hb, rfl⟩
        have hb' := (isFirst_succ hend).mp hb
        exact ⟨_, (ih _ (drop_succ_of_drop hk)).mpr ⟨b, hb', rfl⟩,
          by rw [take_drop_cons hk hb.le]⟩

/-- A member is read from its first line on: it ends there only if it is an arrow member. -/
theorem memberFrom_eq_some_iff (s : Int) {ls : List Text} {line : Text} {rest : List Text} {k : Nat}
    (hk : ls.drop k = line :: rest) (r : Int × List Text) :
    (if (depthBefore ls (k + 1) == 1 && endsStatement line) then some (s + (k : Int), [])
        else memberRest (depthBefore ls (k + 1) == 1) (s + ((k + 1 : Nat) : Int))
          (Brackets.feedAll {} (ls.take (k + 1))) rest) = some r
      ↔ ∃ b : Nat, IsFirst (EndAt ls k) k b ∧ r = (s + b, (ls.take (b + 1)).drop (k + 1)) := by
  have hends : (depthBefore ls (k + 1) == 1 && endsStatement line) ↔ EndAt ls k k := by
    rw [EndAt, lineAt_of_drop hk]
    by_cases harrow : depthBefore ls (k + 1) = 1 <;> simp [harrow, lt_length_of_drop hk]
  by_cases hend : EndAt ls k k
  · rw [if_pos (hends.mpr hend)]
    simp only [isFirst_of_holds hend, exists_eq_left, take_drop_self, Option.some.injEq]
    exact eq_comm
  · rw [if_neg fun h => hend (hends.mp h),
      memberRest_eq_some_iff s ls k rest (k + 1) r (drop_succ_of_drop hk)]
    simp only [isFirst_succ hend]

/-- The search gets to the first line that begins the member, and reads on from there. -/
theorem memberIn_eq_some_iff (name wanted : Text) (s : Int) (ls : List Text) (m : ExistingMember)
    (rest : List Text) (k : Nat) (hk0 : 0 < k) (hk : ls.drop k = rest) :
    (memberIn name wanted (s + k) (Brackets.feedAll {} (ls.take k)) rest = some m
      ↔ ∃ a b : Nat, IsFirst (fun k => HeadAt ls wanted k ∧ BodyAt ls k) k a
        ∧ IsFirst (EndAt ls a) a b ∧ m = memberAt name s ls a b) := by
  induction rest generalizing k with
  | nil =>
    have hle : ls.length ≤ k := drop_eq_nil_iff.mp hk
    refine ⟨nofun, ?_⟩
    rintro ⟨a, b, ha, -⟩
    exact absurd (Nat.lt_of_lt_of_le ha.holds.1.2.1 hle) (Nat.not_lt.mpr ha.le)
  | cons line rest ih =>
    have hbegins : beginsMember wanted (Brackets.feedAll {} (ls.take k)).curly
        ((Brackets.feedAll {} (ls.take k)).feed line).curly line
          ↔ HeadAt ls wanted k ∧ BodyAt ls k := by
      rw [beginsMember, HeadAt, BodyAt, lineAt_of_drop hk, depthBefore_succ hk]
      simp [depthBefore, hk0, lt_length_of_drop hk, and_assoc]
    have hnext : s + (k : Int) + 1 = s + ((k + 1 : Nat) : Int) := by omega
    rw [memberIn]
    -- the first line that begins the member is this one, or the first one below it
    by_cases hbegin : HeadAt ls wanted k ∧ BodyAt ls k
    · rw [if_pos (hbegins.mpr hbegin)]
      rw [hnext, ← feedAll_take_succ hk, Option.map_eq_some_iff]
      constructor
      · rintro ⟨r, hr, rfl⟩
        obtain ⟨b, hb, rfl⟩ := (memberFrom_eq_some_iff s hk r).mp hr
        exact ⟨k, b, (isFirst_of_holds hbegin).mpr rfl, hb,
          by rw [memberAt, take_drop_cons hk hb.le]⟩
      · rintro ⟨a, b, ha, hb, rfl⟩
        obtain rfl := (isFirst_of_holds hbegin).mp ha
        exact ⟨_, (memberFrom_eq_some_iff s hk _).mpr ⟨b, hb, rfl⟩,
          by rw [memberAt, take_drop_cons hk hb.le]⟩
    · rw [if_neg fun h => hbegin (hbegins.mp h), hnext, ← feedAll_take_succ hk,
        ih (k + 1) (Nat.succ_pos k) (drop_succ_of_drop hk)]
      have hfirst : ∀ a, IsFirst (fun k => HeadAt ls wanted k ∧ BodyAt ls k) (k + 1) a
          ↔ IsFirst (fun k => HeadAt ls wanted k ∧ BodyAt ls k) k a :=
        fun a => (isFirst_succ hbegin).symm
      simp only [hfirst]

/-- **What is found.**  The search finds the member on the lines from `a` to `b` exactly if these
    are the first line that begins it and the first line from there on that ends it. -/
theorem findMember_eq_some_iff {c : SourceClass} {s : Int} (hs : c.first = some s)
    (name finder : Text) (m : ExistingMember) :
    c.findMember name finder = .ok (some m)
      ↔ ∃ a b : Nat, FoundAt c.content.lines (bareSignature finder) a b
        ∧ m = memberAt name s c.content.lines a b := by
  obtain ⟨line, rest, hl⟩ := exists_cons_of_ne_nil (lines_ne_nil c.content)
  have hsearch := memberIn_eq_some_iff name (bareSignature finder) s (line :: rest) m rest 1
    Nat.one_pos rfl
  rw [findMember, hs, hl]
  refine ⟨fun h => ?_, ?_⟩
  · obtain ⟨a, b, ha, hb, hm⟩ := hsearch.mp (Except.ok.inj h)
    exact ⟨a, b, ⟨ha, hb⟩, hm⟩
  · rintro ⟨a, b, hab, hm⟩
    exact congrArg Except.ok (hsearch.mpr ⟨a, b, hab.begins, hab.ends, hm⟩)

end SourceClass

/-! ## §4. Members that are put in. -/

/-- Something is found exactly if some line begins the member, and the first such line has one that
    ends it. -/
theorem exists_foundAt_iff (ls : List Text) (wanted : Text) :
    (∃ a b, FoundAt ls wanted a b) ↔ ∃ a, (HeadAt ls wanted a ∧ BodyAt ls a)
      ∧ (∀ k, k < a → HeadAt ls wanted k → ¬ BodyAt ls k) ∧ ∃ b, a ≤ b ∧ EndAt ls a b := by
  constructor
  · rintro ⟨a, b, ha, hb⟩
    exact ⟨a, ha.holds, fun k hk hhead hbody => ha.not_before k hhead.1 hk ⟨hhead, hbody⟩,
      b, hb.le, hb.holds⟩
  · rintro ⟨a, hbegins, hfirst, b, hab, hend⟩
    obtain ⟨e, he⟩ := exists_isFirst hab hend
    exact ⟨a, e, ⟨hbegins.1.1, hbegins, fun k _ hk h => hfirst k hk h.1 h.2⟩, he⟩

/-- **A member is put in exactly if none is found.**  Work on a class that has been found puts
    nothing into it if, of the lines with the head of the member, one begins its body, and the first
    of these has a line that ends it.  In all other cases the member is put in, whether or not the
    class has a line with its head. -/
theorem install_insertion_iff {text : Text} {cs : List SourceClass} (h : scan text = .ok cs)
    {c : SourceClass} (hc : c ∈ cs) (m : Member) (d : Directives) :
    ∃ c' d', (Work.install m).run ⟨c, d⟩ = .ok () ⟨c', d'⟩
      ∧ (c'.insertion = c.insertion ∨ c'.insertion = c.insertion ++ ['\n'] ++ m.text.indent)
      ∧ (c'.insertion = c.insertion ↔ ∃ a, (HeadAt c.content.lines (bareSignature m.finder) a
            ∧ BodyAt c.content.lines a)
          ∧ (∀ k, k < a → HeadAt c.content.lines (bareSignature m.finder) k →
            ¬ BodyAt c.content.lines k)
          ∧ ∃ b, a ≤ b ∧ EndAt c.content.lines a b) := by
  obtain ⟨s, -, hrep⟩ := (scan_laid h).2 c hc
  have hfinds := SourceClass.findMember_eq_some_iff hrep.first_eq m.name m.finder
  rw [← exists_foundAt_iff]
  have hrun := Work.run_install m c d
  cases hf : c.findMember m.name m.finder with
  | error f =>
      rw [SourceClass.findMember, hrep.first_eq] at hf
      cases hf
  | ok found =>
      rw [hf] at hrun
      cases found with
      | none =>
          refine ⟨_, _, hrun, Or.inr rfl, ?_⟩
          constructor
          · intro hsame
            have hsame : c.insertion ++ ['\n'] ++ m.text.indent = c.insertion := hsame
            simp at hsame
          · rintro ⟨a, b, hab⟩
            have := (hfinds _).mpr ⟨a, b, hab, rfl⟩
            rw [hf] at this
            cases this
      | some found =>
          obtain ⟨a, b, hab, -⟩ := (hfinds found).mp hf
          dsimp only at hrun
          split at hrun
          · exact ⟨_, _, hrun, Or.inl rfl, fun _ => ⟨a, b, hab⟩, fun _ => rfl⟩
          · exact ⟨_, _, hrun, Or.inl rfl, fun _ => ⟨a, b, hab⟩, fun _ => rfl⟩

/-- A member in a block is found. -/
theorem install_insertion_block :
    ∃ cs c c' d', scan
      "class A \x7b\n  int x;\n  String toString() \x7b\n    return 'a';\n  \x7d\n\x7d" = .ok cs
      ∧ c ∈ cs ∧ (Work.install (Member.toString c)).run ⟨c, {}⟩ = .ok () ⟨c', d'⟩
      ∧ c'.insertion = c.insertion := by
  obtain ⟨cs, c, hcs, hc, hbegins, hfirst, hend⟩ := SourceClass.exists_scanned
    (t := "class A \x7b\n  int x;\n  String toString() \x7b\n    return 'a';\n  \x7d\n\x7d")
    (P := fun c =>
      (HeadAt c.content.lines (bareSignature (Member.toString c).finder) 2
          ∧ BodyAt c.content.lines 2)
        ∧ (∀ k : Nat, k < 2 → HeadAt c.content.lines (bareSignature (Member.toString c).finder) k →
          ¬ BodyAt c.content.lines k)
        ∧ EndAt c.content.lines 2 4) (by decide +kernel)
  obtain ⟨c', d', hrun, -, hiff⟩ := install_insertion_iff hcs hc (Member.toString c) {}
  exact ⟨cs, c, c', d', hcs, hc, hrun, hiff.mpr ⟨2, hbegins, hfirst, 4, by decide, hend⟩⟩

/-- What stands ready to be put into a class after a member has been installed. -/
def SourceClass.insertionAfter (c : SourceClass) (m : Member) : Option Text :=
  match (Work.install m).run ⟨c, {}⟩ with
  | .ok _ s => some s.subject.insertion
  | .error _ _ => none

/-- Whether a text holds a class with the head of `toString` on its third line that gets another
    `toString`. -/
def getsAnotherToString (t : Text) : Bool :=
  (scan t).toOption.any fun cs => cs.any fun c =>
    c.isValid && decide (HeadAt c.content.lines (bareSignature (Member.toString c).finder) 2)
      && c.insertionAfter (Member.toString c)
        == some ("\n  @override\n  String toString() => 'A(x: $x)';\n" : Text)

/-- Members with the head of `toString` that are not found: a block on one line, a body that begins
    on a later line, an arrow member with a comment behind its semicolon, and a block that closes
    together with its class. -/
theorem install_repeats_member :
    getsAnotherToString "class A \x7b\n  int x;\n  String toString() \x7b return 'a'; \x7d\n\x7d"
      ∧ getsAnotherToString
        "class A \x7b\n  int x;\n  String toString()\n  \x7b\n    return 'a';\n  \x7d\n\x7d"
      ∧ getsAnotherToString "class A \x7b\n  int x;\n  String toString()\n      => 'a';\n\x7d"
      ∧ getsAnotherToString "class A \x7b\n  int x;\n  String toString() => 'a'; // text\n\x7d"
      ∧ getsAnotherToString
        "class A \x7b\n  int x;\n  String toString() \x7b\n    return 'a'; \x7d\x7d" :=
  ⟨by decide +kernel, by decide +kernel, by decide +kernel, by decide +kernel, by decide +kernel⟩

/-! ## §5. Whole members. -/

/-- The line `k` ends a statement in the body of the class: it leaves the depth at one, and its code
    ends with a semicolon. -/
def StatementEndsAt (ls : List Text) (k : Nat) : Prop :=
  depthBefore ls (k + 1) = 1 ∧ endsStatement (codeAt ls k) = true

/-- The lines from `a` to `b` are a whole member of the class: they stand below its first and above
    its last line, begin and end directly in its body, and no statement of the body ends on the
    way. -/
structure IsWhole (ls : List Text) (a b : Nat) : Prop where
  above : 0 < a
  below : b + 1 < ls.length
  before : depthBefore ls a = 1
  after : depthBefore ls (b + 1) = 1
  within : ∀ k, a ≤ k → k < b → ¬ StatementEndsAt ls k

instance (ls : List Text) (k : Nat) : Decidable (StatementEndsAt ls k) :=
  inferInstanceAs (Decidable (_ ∧ _))

instance (ls : List Text) (a b : Nat) : Decidable (IsWhole ls a b) :=
  decidable_of_iff (0 < a ∧ b + 1 < ls.length ∧ depthBefore ls a = 1 ∧ depthBefore ls (b + 1) = 1
      ∧ ∀ k < b, a ≤ k → ¬ StatementEndsAt ls k)
    ⟨fun ⟨h₁, h₂, h₃, h₄, h₅⟩ => ⟨h₁, h₂, h₃, h₄, fun k hak hkb => h₅ k hkb hak⟩,
      fun h => ⟨h.above, h.below, h.before, h.after, fun k hkb hak => h.within k hak hkb⟩⟩

section

variable {ls : List Text} {wanted : Text} {a b : Nat}

/-- A block ends with the first line that comes back to the body, so no line before it does. -/
theorem FoundAt.isWhole_of_block (h : FoundAt ls wanted a b) (hlast : depthBefore ls ls.length = 0)
    (hblock : depthBefore ls (a + 1) ≠ 1) : IsWhole ls a b := by
  obtain ⟨⟨hpos, -, hbefore, -⟩, -⟩ := h.begins.holds
  have hafter : depthBefore ls (b + 1) = 1 := by
    have := h.ends.holds.2
    rwa [if_neg hblock] at this
  refine ⟨hpos, Nat.lt_of_le_of_ne h.ends.holds.1 fun he => ?_, hbefore, hafter, ?_⟩
  · rw [he, hlast] at hafter
    exact absurd hafter (by decide)
  · intro k hak hkb hstatement
    refine h.ends.not_before k hak hkb ⟨Nat.lt_trans hkb h.ends.holds.1, ?_⟩
    rw [if_neg hblock]
    exact hstatement.1

/-- An arrow member ends with the first line whose text ends with a semicolon. -/
theorem FoundAt.not_endsStatement (h : FoundAt ls wanted a b) (harrow : depthBefore ls (a + 1) = 1)
    {k : Nat} (hak : a ≤ k) (hkb : k < b) : endsStatement (lineAt ls k) = false := by
  refine Bool.eq_false_iff.mpr fun he => ?_
  refine h.ends.not_before k hak hkb ⟨Nat.lt_trans hkb h.ends.holds.1, ?_⟩
  rwa [if_pos harrow]

/-- What is found is a whole member exactly if it is a block, or if its last line comes back to the
    body and all lines before it that do so end a statement in their text if they do in their
    code. -/
theorem FoundAt.isWhole_iff (h : FoundAt ls wanted a b) (hlast : depthBefore ls ls.length = 0) :
    IsWhole ls a b ↔ depthBefore ls (a + 1) ≠ 1 ∨ (depthBefore ls (b + 1) = 1
      ∧ ∀ k, a ≤ k → k < b → depthBefore ls (k + 1) = 1 →
        endsStatement (codeAt ls k) = endsStatement (lineAt ls k)) := by
  by_cases harrow : depthBefore ls (a + 1) = 1
  · constructor
    · intro hw
      refine .inr ⟨hw.after, fun k hak hkb hdepth => ?_⟩
      rw [h.not_endsStatement harrow hak hkb]
      exact Bool.eq_false_iff.mpr fun hcode => hw.within k hak hkb ⟨hdepth, hcode⟩
    · rintro (hblock | ⟨hafter, hsame⟩)
      · exact absurd harrow hblock
      · obtain ⟨⟨hpos, -, hbefore, -⟩, -⟩ := h.begins.holds
        refine ⟨hpos, Nat.lt_of_le_of_ne h.ends.holds.1 fun he => ?_, hbefore, hafter, ?_⟩
        · rw [he, hlast] at hafter
          exact absurd hafter (by decide)
        · rintro k hak hkb ⟨hdepth, hcode⟩
          rw [hsame k hak hkb hdepth, h.not_endsStatement harrow hak hkb] at hcode
          cases hcode
  · exact ⟨fun _ => .inl harrow, fun _ => h.isWhole_of_block hlast harrow⟩

end

/-- **Which members are found as a whole.**  What is found in a complete class stands below its
    first line, is the text of its lines and begins directly in the body of the class.  It is a
    whole member if its first line opens a block; an arrow member is one exactly if its last line
    comes back to the body, and no line before it that does so ends a statement in its code but not
    in its text. -/
theorem findMember_whole_iff {text : Text} {cs : List SourceClass} (h : scan text = .ok cs)
    {c : SourceClass} (hc : c ∈ cs) {e : Int} (he : c.last = some e) {name finder : Text}
    {m : ExistingMember} (hm : c.findMember name finder = .ok (some m)) :
    ∃ (s : Int) (a b : Nat), c.first = some s ∧ (c.content.lines.length : Int) = e - s + 1
      ∧ m.first = some (s + a) ∧ m.last = some (s + b) ∧ 0 < a ∧ a ≤ b ∧ s + b ≤ e
      ∧ m.current = some (unlines (span text.lines (s + a) (s + b)))
      ∧ depthBefore c.content.lines a = 1
      ∧ (IsWhole c.content.lines a b ↔ depthBefore c.content.lines (a + 1) ≠ 1
        ∨ (depthBefore c.content.lines (b + 1) = 1
          ∧ ∀ k, a ≤ k → k < b → depthBefore c.content.lines (k + 1) = 1 →
            endsStatement (codeAt c.content.lines k)
              = endsStatement (lineAt c.content.lines k))) := by
  obtain ⟨s, hs, hlines, hs1, -, -, hlen, hlast⟩ := scan_depth h hc he
  obtain ⟨a, b, hab, rfl⟩ := (SourceClass.findMember_eq_some_iff hs name finder m).mp hm
  have hle : s + b ≤ e := by have := hab.ends.holds.1; omega
  have hcurrent : (c.content.lines.take (b + 1)).drop a = span text.lines (s + a) (s + b) := by
    rw [hlines]
    exact span_span hs1 hle
  exact ⟨s, a, b, hs, hlen, rfl, rfl, hab.begins.holds.1.1, hab.ends.le, hle,
    congrArg (some ∘ unlines) hcurrent, hab.begins.holds.1.2.2.1, hab.isWhole_iff hlast⟩

/-- An arrow member on two lines is found whole. -/
theorem findMember_whole_arrow :
    ∃ cs c m, scan
      "class A \x7b\n  int x;\n  String toString() => // text\n      'a';\n  int f() => 1;\n\x7d"
        = .ok cs ∧ c ∈ cs ∧ c.findMember "toString" "String toString()" = .ok (some m)
      ∧ m.first = some 3 ∧ m.last = some 4 ∧ IsWhole c.content.lines 2 3 := by
  obtain ⟨cs, c, hcs, hc, hfirst, hlast, hfound, hafter, hsame⟩ := SourceClass.exists_scanned
    (t := "class A \x7b\n  int x;\n  String toString() => // text\n      'a';
  int f() => 1;\n\x7d")
    (P := fun c => c.first = some 1 ∧ c.last = some 6
      ∧ (c.findMember "toString" "String toString()").toOption
        = some (some (memberAt "toString" 1 c.content.lines 2 3))
      ∧ depthBefore c.content.lines 4 = 1
      ∧ ∀ k : Nat, k < 3 → 2 ≤ k → depthBefore c.content.lines (k + 1) = 1 →
        endsStatement (codeAt c.content.lines k) = endsStatement (lineAt c.content.lines k))
    (by decide +kernel)
  have hm := toOption_eq_some.mp hfound
  obtain ⟨s, a, b, hs, -, ha, hb, -, -, -, -, -, hiff⟩ := findMember_whole_iff hcs hc hlast hm
  rw [hfirst, Option.some.injEq] at hs
  obtain rfl : 2 = a := by have := Option.some.inj ha; omega
  obtain rfl : 3 = b := by have := Option.some.inj hb; omega
  exact ⟨cs, c, _, hcs, hc, hm, rfl, rfl,
    hiff.mpr (Or.inr ⟨hafter, fun k hak hkb => hsame k hkb hak⟩)⟩

/-- Whether a text holds a class of which the lines from the third to the line `b` are found as
    `toString`, although they are no whole member. -/
def cutsToString (t : Text) (b : Nat) : Bool :=
  (scan t).toOption.any fun cs => cs.any fun c =>
    c.isValid && decide ((c.findMember "toString" "String toString()").toOption
        = some (some (memberAt "toString" 1 c.content.lines 2 b))
      ∧ ¬ IsWhole c.content.lines 2 b)

/-- Arrow members that are not found as a whole: one with a comment behind its semicolon runs on
    over the next members, one with a statement inside ends there, and one without a semicolon
    takes the last line of its class. -/
theorem findMember_cuts_members :
    cutsToString "class A \x7b\n  int x;\n  String toString() => 'a'; // text\n  void f() \x7b\x7d
  int y() => 1;\n\x7d" 4
      ∧ cutsToString
        "class A \x7b\n  int x;\n  String toString() => f(\n    () \x7b\n      g();
    \x7d);\n\x7d" 4
      ∧ cutsToString "class A \x7b\n  int x;\n  String toString() => 'a'\n\x7d;" 3 :=
  ⟨by decide +kernel, by decide +kernel, by decide +kernel⟩

end DartData
