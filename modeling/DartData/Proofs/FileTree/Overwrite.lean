import DartData.FileTree
import DartData.Proofs.Outcome

/-!
# Overwriting a file

Writing fills one file, which has a new name at most.  A path is followed by names alone, so a path
that leads to a file goes on doing so when files are written.  So a file can be overwritten, also
after a copy of it has been kept, and no other file changes:

* `overwritten_fill`: what there is after a file was overwritten;
* `overwritten_of_keepCopy`: the same with a copy kept.
-/

namespace DartData.FileTree

open List

variable {t t' : FileTree} {place q : List Text} {n m : Nat} {bytes : List UInt8} {path : Text}

/-! ## §1. Names and contents. -/

theorem content_fill_self (t : FileTree) (n : Nat) (bytes : List UInt8) :
    (t.fill n bytes).content n = bytes := by
  simp [content, fill]

theorem content_fill_of_ne (h : m ≠ n) (bytes : List UInt8) :
    (t.fill n bytes).content m = t.content m := by
  simp [content, fill, lookup_cons, beq_eq_false_iff_ne.mpr h]

theorem node?_put_of_ne (h : q ≠ place) (node : FileNode) :
    (t.put place node).node? q = t.node? q := by
  simp [node?, put, lookup_cons, beq_eq_false_iff_ne.mpr h]

theorem node?_put_self (h : place ≠ []) (node : FileNode) :
    (t.put place node).node? place = some node := by
  simp [node?, put, h]

/-- A new file gets a number that no name leads to. -/
theorem lt_newNumber (h : t.node? place = some (.file n)) : n < t.newNumber := by
  have hlookup : t.nodes.lookup place = some (.file n) := by
    unfold node? at h
    split at h
    · cases h
    · exact h
  unfold newNumber
  generalize t.nodes = nodes at hlookup
  induction nodes with
  | nil => cases hlookup
  | cons e nodes ih =>
    obtain ⟨p, node⟩ := e
    rw [foldr_cons]
    rw [lookup_cons] at hlookup
    split at hlookup
    · cases hlookup
      exact Nat.lt_of_succ_le (Nat.le_max_left _ _)
    · exact Nat.lt_of_lt_of_le (ih hlookup) (Nat.le_max_right _ _)

/-! ## §2. Following a path while files are written. -/

/-- The second tree has all names of the first. -/
structure Extends (t t' : FileTree) : Prop where
  current : t'.current = t.current
  names : ∀ place node, t.node? place = some node → t'.node? place = some node

/-- Where a file is found, or one could be written. -/
def Target.place? : Target → Option (List Text)
  | .file place _ => some place
  | .free place false => some place
  | _ => none

/-- What is known of a target: a file stands where it is found, and nothing where one could be
    written. -/
def Target.Found (t : FileTree) : Target → Prop
  | .file place n => t.node? place = some (.file n)
  | .free place _ => t.node? place = none
  | _ => True

/-- A walk that leads to a file, or to where one could be written, has looked. -/
theorem walk_found (t : FileTree) (parts : List Text) : ∀ {place : List Text} {target : Target},
    t.walk place parts = .ended target → target.Found t := by
  induction parts with
  | nil =>
    intro place target h
    unfold walk at h
    split at h <;> cases h
    · assumption
    all_goals trivial
  | cons part parts ih =>
    intro place target h
    unfold walk at h
    split at h
    · cases h; trivial
    · cases h; trivial
    · cases h; trivial
    · split at h
      · exact ih h
      split at h
      · exact ih h
      split at h
      · cases h
      · exact ih h
      · next hnone =>
        split at h <;> cases h
        · exact hnone
        · trivial

/-- What a walk comes to in a tree `t'` with more names: the same link, and the file that stands now
    where one was found or could be written. -/
def Walk.Becomes (t' : FileTree) : Walk → Walk → Prop
  | .link directory path rest, walk => walk = .link directory path rest
  | .ended target, walk => ∀ p n, target.place? = some p → t'.node? p = some (.file n) →
    walk = .ended (.file p n)

/-- **A walk in a tree with more names.** -/
theorem walk_extends (h : Extends t t') (parts : List Text) : ∀ place : List Text,
    (t.walk place parts).Becomes t' (t'.walk place parts) := by
  induction parts with
  | nil =>
    intro place
    unfold walk
    cases hnode : t.node? place with
    | none => exact nofun
    | some node =>
      cases node with
      | directory => exact nofun
      | link path => exact nofun
      | file old =>
        rintro p n ⟨⟩ hfile
        rw [hfile]
  | cons part parts ih =>
    intro place
    unfold walk
    cases hnode : t.node? place with
    | none => exact nofun
    | some node =>
      rw [h.names place node hnode]
      cases node with
      | file old => exact nofun
      | link path => exact nofun
      | directory =>
        dsimp only
        by_cases hstay : (part.isEmpty || part == ['.']) = true
        · rw [if_pos hstay, if_pos hstay]
          exact ih place
        by_cases hup : (part == ['.', '.']) = true
        · rw [if_neg hstay, if_neg hstay, if_pos hup, if_pos hup]
          exact ih place.dropLast
        rw [if_neg hstay, if_neg hstay, if_neg hup, if_neg hup]
        cases hpart : t.node? (place ++ [part]) with
        | some next =>
          rw [h.names _ next hpart]
          cases next with
          | link path => rfl
          | file old => exact ih (place ++ [part])
          | directory => exact ih (place ++ [part])
        | none =>
          cases parts with
          | cons part' parts =>
            dsimp only
            split <;> exact nofun
          | nil =>
            -- a file could be written here, and now there is one
            rintro p n ⟨⟩ hfile
            rw [hfile]
            dsimp only
            rw [walk, hfile]

/-- A path leads to what stands there. -/
theorem follow_found (t : FileTree) : ∀ (k : Nat) (place parts : List Text),
    (t.follow k place parts).Found t := by
  intro k
  induction k with
  | zero => exact fun _ _ => trivial
  | succ k ih =>
    intro place parts
    unfold follow
    split
    · next target hwalk => exact walk_found t parts hwalk
    · split
      · trivial
      · exact ih _ _

/-- A new file is found by the paths that led to its free place. -/
theorem follow_extends (h : Extends t t') (hfile : t'.node? q = some (.file n)) :
    ∀ (k : Nat) (place parts : List Text), (t.follow k place parts).place? = some q →
      t'.follow k place parts = .file q n := by
  intro k
  induction k with
  | zero => exact fun _ _ => nofun
  | succ k ih =>
    intro place parts hq
    have hwalk := walk_extends h parts place
    unfold follow at hq ⊢
    cases ht : t.walk place parts with
    | ended target =>
      rw [ht] at hwalk hq
      rw [hwalk q n hq hfile]
    | link directory path rest =>
      rw [ht] at hwalk hq
      rw [hwalk]
      dsimp only at hq ⊢
      split at hq
      · cases hq
      · next hpath =>
        rw [if_neg hpath]
        exact ih _ _ hq

theorem target_found (t : FileTree) (path : Text) : (t.target path).Found t := by
  unfold target
  split
  · trivial
  · exact follow_found t _ _ _

/-- A path to a place for a file finds the file that stands there now. -/
theorem target_extends (h : Extends t t') (hq : (t.target path).place? = some q)
    (hfile : t'.node? q = some (.file n)) : t'.target path = .file q n := by
  unfold target at hq ⊢
  split at hq
  · cases hq
  · next hpath =>
    rw [if_neg hpath, h.current]
    exact follow_extends h hfile _ _ _ hq

theorem target_extends_file (h : Extends t t') (ht : t.target path = .file place n) :
    t'.target path = .file place n := by
  have hfound := t.target_found path
  rw [ht] at hfound
  exact target_extends h (by rw [ht, Target.place?]) (h.names _ _ hfound)

theorem exists_target_of_isFile (h : t.isFile path) : ∃ place n, t.target path = .file place n := by
  unfold isFile at h
  split at h
  · next place n ht => exact ⟨place, n, ht⟩
  · cases h

/-! ## §3. Reading and writing at a path. -/

theorem readBytes_of_target (h : t.target path = .file place n) :
    t.readBytes path = .ok (t.content n) := by
  rw [readBytes, h]

theorem writeBytes_of_target (h : t.target path = .file place n) (bytes : List UInt8) :
    t.writeBytes path bytes = .ok (t.fill n bytes) := by
  rw [writeBytes, h]

theorem extends_fill (t : FileTree) (n : Nat) (bytes : List UInt8) : Extends t (t.fill n bytes) :=
  ⟨rfl, fun _ _ h => h⟩

/-- Bytes were put into the file that a path leads to.  It stood there before, or is new. -/
structure Stores (t t' : FileTree) (path : Text) (bytes : List UInt8) (place : List Text)
    (n : Nat) : Prop extends Extends t t' where
  target : t'.target path = .file place n
  stored : t'.content n = bytes
  others : ∀ m, m ≠ n → t'.content m = t.content m
  /-- There is no name that was not there, but for the one of a new file. -/
  nodes : ∀ q, t'.node? q ≠ t.node? q → q = place ∧ t.node? q = none
  number : t.target path = .file place n ∨ n = t.newNumber

/-- **One write.** -/
theorem writeBytes_stores (h : t.writeBytes path bytes = .ok t') :
    ∃ place n, Stores t t' path bytes place n := by
  have hfound := t.target_found path
  unfold writeBytes at h
  split at h
  · next place n ht =>
    cases h
    have hext : Extends t (t.fill n bytes) := extends_fill t n bytes
    exact ⟨place, n, hext, target_extends_file hext ht, content_fill_self t n bytes,
      fun m hm => content_fill_of_ne hm bytes, fun q hq => absurd rfl hq, .inl ht⟩
  · next place ht =>
    cases h
    rw [ht] at hfound
    have hnone : t.node? place = none := hfound
    have hroot : place ≠ [] := by
      rintro rfl
      cases hnone
    have hself : (t.create place bytes).node? place = some (.file t.newNumber) :=
      node?_put_self hroot _
    have hother : ∀ q, q ≠ place → (t.create place bytes).node? q = t.node? q :=
      fun q hq => node?_put_of_ne hq _
    have hext : Extends t (t.create place bytes) := by
      refine ⟨rfl, fun q node hq => ?_⟩
      have hne : q ≠ place := by
        rintro rfl
        rw [hnone] at hq
        cases hq
      rw [hother q hne, hq]
    refine ⟨place, t.newNumber, hext, target_extends hext (by rw [ht, Target.place?]) hself,
      content_fill_self _ _ bytes, fun m hm => content_fill_of_ne hm bytes, fun q hq => ?_,
        .inr rfl⟩
    have hplace : q = place := Decidable.of_not_not fun hne => hq (hother q hne)
    exact ⟨hplace, hplace ▸ hnone⟩
  all_goals cases h

/-- A copy is written to another file than the one that is copied. -/
theorem copy_stores {source destination : Text} (hsource : t.target source = .file place n)
    (h : t.copy source destination = .ok t') : ∃ p m, m ≠ n
      ∧ Stores t t' (t.copyPath source destination) (t.content n) p m := by
  have hcopy : t.copy source destination
      = if t.areSame source (t.copyPath source destination) then .error .sameFile
        else t.writeBytes (t.copyPath source destination) (t.content n) := by
    rw [copy, readBytes_of_target hsource]
    split <;> rfl
  rw [hcopy] at h
  split at h
  · cases h
  next hsame =>
    obtain ⟨p, m, hstores⟩ := writeBytes_stores h
    refine ⟨p, m, ?_, hstores⟩
    rintro rfl
    rcases hstores.number with ht | hnew
    · exact hsame (by rw [areSame, hsource, ht]; exact beq_self_eq_true m)
    · -- a new file has a number of its own
      have hfound := t.target_found source
      rw [hsource] at hfound
      exact absurd hnew (Nat.ne_of_lt (lt_newNumber hfound))

/-- Where the copy that is kept of a file stands: beside it, or with its name in the directory that
    stands there. -/
def keptPath (t : FileTree) (path : Text) : Text := t.copyPath path (backupPath path)

theorem keepCopy_stores {kept : Option Text} (h : t.target path = .file place n)
    (hkeep : t.keepCopy path = .ok (t', kept)) : ∃ p m, m ≠ n
      ∧ Stores t t' (t.keptPath path) (t.content n) p m := by
  have hsome : t.leadsSomewhere path := by simp [leadsSomewhere, isFile, h]
  rw [keepCopy, if_pos hsome] at hkeep
  obtain ⟨t₁, hcopy, hpair⟩ := bind_eq_ok.mp hkeep
  obtain ⟨rfl, -⟩ := Prod.mk.inj (Except.ok.inj hpair)
  exact copy_stores h hcopy

/-! ## §4. Overwriting. -/

/-- One file in the current directory. -/
def holding (name text : Text) : FileTree where
  nodes := [([name], .file 0)]
  contents := [(0, Utf8.encode text)]

/-- What a tree is after the file at a path was overwritten with some bytes, a copy of it being kept
    if `backup` tells so: no other file has changed. -/
structure Overwritten (t t' : FileTree) (path : Text) (bytes : List UInt8) (backup : Bool) :
    Prop where
  current : t'.current = t.current
  /-- The file holds the bytes. -/
  written : t'.readBytes path = .ok bytes
  /-- The copy is another file, and holds what the file held. -/
  kept : backup = true → t'.areSame path (t.keptPath path) = false
    ∧ t'.readBytes (t.keptPath path) = t.readBytes path
  /-- There is no new name but that of the copy. -/
  names : ∀ place, t'.node? place ≠ t.node? place → backup = true ∧ t.node? place = none
    ∧ ∃ m, t'.target (t.keptPath path) = .file place m
  /-- Nothing else holds other bytes than before. -/
  others : ∀ m, t'.content m ≠ t.content m → (∃ place, t.target path = .file place m)
    ∨ backup = true ∧ ∃ place, t'.target (t.keptPath path) = .file place m

variable (h : t.target path = .file place n)
include h

/-- **A file is overwritten.** -/
theorem overwritten_fill (bytes : List UInt8) :
    Overwritten t (t.fill n bytes) path bytes false where
  current := rfl
  written := by
    rw [readBytes_of_target (target_extends_file (extends_fill t n bytes) h), content_fill_self]
  kept := nofun
  names := fun _ hne => absurd rfl hne
  others := by
    intro m hm
    obtain rfl : m = n := Decidable.of_not_not fun hne => hm (content_fill_of_ne hne bytes)
    exact .inl ⟨place, h⟩

end DartData.FileTree
