import DartData.Proofs.Scan.Body
import DartData.Proofs.Scan.Faults
import DartData.Proofs.Scan.Local

/-!
# The scan goes class by class

A class line begins afresh, whatever was open above it, and after the end of a class nothing is
open.  So the lines of a file fall into those of its valid classes and the gaps between them, and
each part is scanned by itself: `scan_cut` finds the parts, and `scanLines_append` puts the scans of
parts together.

A gap may hold anything, classes that are never closed among it.  A line without braces at its end
changes nothing about its classes (`Barren.concat`).
-/

namespace DartData

open List

/-! ## §1. Class lines begin afresh. -/

/-- Outside of classes the line above does not matter. -/
theorem scanLines_previous (n : Nat) (previous previous' : Option Text) (ls : List Text) :
    scanLines n previous none ls = scanLines n previous' none ls := by
  cases ls with
  | nil => rfl
  | cons line ls =>
    rw [scanLines_cons, scanLines_cons]
    rfl

/-- The first of the lines begins a class, if there is one. -/
def BeginsClass (ls : List Text) : Prop := ∀ l, ls.head? = some l → isClassLine l = true

/-- **The scan of lines above a class line, and of those from it on.** -/
theorem scanLines_append {ms : List Text} (hms : BeginsClass ms) (ls : List Text) (n : Nat)
    (previous : Option Text) (current : Option OpenClass) :
    scanLines n previous current (ls ++ ms) = scanLines n previous current ls >>= fun as =>
        scanLines (n + ls.length) none none ms >>= fun bs => .ok (as ++ bs) := by
  induction ls generalizing n previous current with
  | nil =>
    cases ms with
    | nil =>
      show Except.ok (abandoned current) = Except.ok (abandoned current ++ abandoned none)
      rw [show abandoned none = [] from rfl, append_nil]
    | cons line ms =>
      -- the class line abandons the open class, which is then reported above it
      show scanLines n previous current (line :: ms)
        = scanLines n none none (line :: ms) >>= fun bs => .ok (abandoned current ++ bs)
      rw [scanLines_abandon (hms line rfl)]
      cases scanLines n none none (line :: ms) <;> rfl
  | cons line ls ih =>
    rw [cons_append, scanLines_cons, scanLines_cons, length_cons,
      show n + (ls.length + 1) = n + 1 + ls.length by omega]
    cases readLine n previous current line with
    | error f => rfl
    | ok x =>
      show (scanLines (n + 1) (some line) x.2 (ls ++ ms) >>= _)
        = (scanLines (n + 1) (some line) x.2 ls >>= fun later => _) >>= _
      rw [ih]
      cases scanLines (n + 1) (some line) x.2 ls with
      | error f => rfl
      | ok as =>
        show ((scanLines (n + 1 + ls.length) none none ms >>= fun bs => _) >>= _)
          = scanLines (n + 1 + ls.length) none none ms >>= _
        cases scanLines (n + 1 + ls.length) none none ms with
        | error f => rfl
        | ok bs => exact congrArg Except.ok (append_assoc _ _ _).symm

theorem abandoned_movedUp (k : Int) (current : Option OpenClass) :
    abandoned (current.map (·.movedUp k)) = (abandoned current).map (·.movedUp k) := by
  cases current with
  | none => rfl
  | some o =>
    show (if o.listed then [o.found.movedUp k] else []) = (if o.listed then [o.found] else []).map _
    split <;> rfl

/-- A line further up. -/
theorem readLine_movedUp {k : Int} {n m : Nat} (hm : (m : Int) = n - k) (previous : Option Text)
    (current : Option OpenClass) (line : Text) :
    readLine m previous (current.map (·.movedUp k)) line
      = (readLine n previous current line).map fun x =>
        (x.1.map (·.movedUp k), x.2.map (·.movedUp k)) := by
  cases hc : isClassLine line with
  | true =>
    rw [readLine_class_line hc, readLine_class_line hc, hm, OpenClass.start_movedUp,
      abandoned_movedUp]
    cases OpenClass.start n line with
    | error f => rfl
    | ok o =>
      show Except.map _ ((o.movedUp k).read (n - k) none line true) = Except.map _ (Except.map _ _)
      rw [OpenClass.read_movedUp]
      cases o.read n none line true with
      | error f => rfl
      | ok x =>
        exact congrArg (fun cs => Except.ok (cs, x.2.map (·.movedUp k))) map_append.symm
  | false =>
    rw [readLine_below hc, readLine_below hc]
    cases current with
    | none => rfl
    | some o =>
      show (o.movedUp k).read m previous line false = (o.read n previous line false).map _
      rw [hm, OpenClass.read_movedUp]

/-- The same lines further up hold the same classes further up. -/
theorem scanLines_movedUp (k : Int) (ls : List Text) (n m : Nat) (previous : Option Text)
    (current : Option OpenClass) (hm : (m : Int) = n - k) :
    scanLines m previous (current.map (·.movedUp k)) ls
      = (scanLines n previous current ls).map (·.map (·.movedUp k)) := by
  induction ls generalizing n m previous current with
  | nil =>
    exact congrArg Except.ok (abandoned_movedUp k current)
  | cons line ls ih =>
    rw [scanLines_cons, scanLines_cons, readLine_movedUp hm]
    cases readLine n previous current line with
    | error f => rfl
    | ok x =>
      show (scanLines (m + 1) (some line) (x.2.map (·.movedUp k)) ls >>= _)
        = Except.map _ (scanLines (n + 1) (some line) x.2 ls >>= _)
      rw [ih (n + 1) (m + 1) (some line) x.2 (by omega)]
      cases scanLines (n + 1) (some line) x.2 ls with
      | error f => rfl
      | ok later => exact congrArg Except.ok map_append.symm

/-! ## §2. Classes that are open. -/

/-- The class has no end yet, and as long as it is in its head no brace was opened. -/
structure OpenClass.Ongoing (o : OpenClass) : Prop where
  last_eq : o.found.last = none
  not_closed : o.brackets.closed = false
  head_flat : o.phase = .head → o.brackets.opened = false

namespace OpenClass

variable {o o' : OpenClass} {n : Int} {previous : Option Text} {line : Text} {classLine : Bool}
  {done : List SourceClass}

/-- What a line hands on, if it does not close the class. -/
theorem read_some (h : o.read n previous line classLine = .ok (done, some o')) :
    done = [] ∧ o'.brackets = o.brackets.feed line ∧ o'.brackets.closed = false
      ∧ (o'.phase = .head → o'.brackets.opened = false) := by
  obtain ⟨o₁, p, a, b, t, h₁, hbrackets, hphase, ⟨-, hno, -⟩ | ⟨hcl, rfl, fs, -, ho⟩⟩ :=
    read_frame h
  · cases hno
  · cases ho
    refine ⟨rfl, hbrackets, hcl, fun hp => ?_⟩
    by_cases hh : o₁.phase = .head
    · rcases readHead_cases h₁ with ⟨hp₁, rfl⟩ | ⟨-, hb, rfl⟩ | ⟨-, -, l, d, rfl, -⟩
      · exact absurd hh hp₁
      · exact hb
      · cases hh
    · exact absurd hp (hphase hh)

theorem closed_of_read (h : o.read n previous line classLine = .ok (done, none)) :
    (o.brackets.feed line).closed := by
  obtain ⟨o₁, p, a, b, t, -, hb, -, ⟨hcl, -⟩ | ⟨-, -, fs, -, hno⟩⟩ := read_frame h
  · rwa [hb] at hcl
  · cases hno

theorem Ongoing.read (ho : o.found.last = none)
    (h : o.read n previous line classLine = .ok (done, some o')) : o'.Ongoing := by
  obtain ⟨-, -, hclosed, hhead⟩ := read_some h
  rcases read_content h with ⟨hno, -⟩ | ⟨-, o'', hsome, -, -, hlast⟩
  · simp at hno
  · rw [Option.some.injEq] at hsome
    subst hsome
    exact ⟨hlast.trans ho, hclosed, hhead⟩

end OpenClass

variable {line : Text} {current next : Option OpenClass} {cs done : List SourceClass}
  {c : SourceClass} {n : Nat} {previous : Option Text} {above ls : List Text}

/-- Without braces on a line the curly depth stays. -/
theorem Brackets.feed_of_not_mem {b : Brackets} (ho : '{' ∉ line) (hc : '}' ∉ line) :
    (b.feed line).curly = b.curly ∧ (b.feed line).opened = b.opened := by
  have hsub := b.lexer.feed_sublist line
  have ho : (b.lexer.feed line).1.count '{' = 0 := count_eq_zero.mpr fun h => ho (hsub.subset h)
  have hc : (b.lexer.feed line).1.count '}' = 0 := count_eq_zero.mpr fun h => hc (hsub.subset h)
  simp [feed, countsOf, BracketCounts.ofCode, ho, hc]

/-- A line without braces neither closes a class nor completes a head. -/
theorem OpenClass.Ongoing.read_braceless {o : OpenClass} (h : o.Ongoing)
    (ho : '{' ∉ line) (hc : '}' ∉ line) (n : Int) (previous : Option Text) :
    ∃ o', o.read n previous line false = .ok ([], some o') ∧ o'.Ongoing := by
  obtain ⟨hcurly, hopened⟩ := Brackets.feed_of_not_mem (b := o.brackets) ho hc
  have hclosed : (o.brackets.feed line).closed = false := by
    rw [Brackets.closed, hcurly, hopened]
    exact h.not_closed
  cases hr : o.read n previous line false with
  | error f =>
    obtain ⟨-, hp, hb, -⟩ := read_eq_error.mp hr
    rw [hopened, h.head_flat hp] at hb
    exact absurd hb Bool.false_ne_true
  | ok x =>
    obtain ⟨done, next⟩ := x
    cases next with
    | some o' => exact ⟨o', by rw [(read_some hr).1], .read h.last_eq hr⟩
    | none => exact absurd (closed_of_read hr) (by rw [hclosed]; exact Bool.false_ne_true)

/-! ## §3. Lines without a valid class. -/

theorem not_valid_of_abandoned (h : ∀ o ∈ current, o.found.last = none) :
    ∀ c ∈ abandoned current, c.isValid = false := by
  intro c hc
  simp [SourceClass.isValid, last_of_abandoned h c hc]

theorem filter_isValid_eq_nil (h : ∀ c ∈ cs, c.isValid = false) :
    cs.filter SourceClass.isValid = [] :=
  filter_eq_nil_iff.mpr fun c hc => by
    rw [h c hc]
    exact Bool.false_ne_true

theorem last_ne_of_isValid (h : c.isValid) : c.last ≠ none := by
  intro hlast
  simp [SourceClass.isValid, hlast] at h

theorem LineStep.ongoing (h : LineStep n previous line current done next)
    (hcur : ∀ o ∈ current, o.found.last = none) :
    ∀ o ∈ next, o.Ongoing := by
  intro o ho
  have ho : next = some o := ho
  subst ho
  cases h with
  | begins hc hs hr => exact .read (OpenClass.last_of_start hs) hr
  | inside hc hr => exact .read (hcur _ rfl) hr

/-- A line completes at most one valid class. -/
theorem LineStep.filter_done (h : LineStep n previous line current done next)
    (hcur : ∀ o ∈ current, o.found.last = none) (hc : c ∈ done) (hvalid : c.isValid) :
    done.filter SourceClass.isValid = [c] := by
  have hread : ∀ {o : OpenClass} {p : Option Text} {b : Bool} {done : List SourceClass},
      o.read n p line b = .ok (done, next) → c ∈ done → done.filter SourceClass.isValid = [c] := by
    intro o p b done hr hc
    rcases OpenClass.read_content hr with ⟨-, hdone⟩ | ⟨hno, -⟩
    · rw [(hdone c hc).1, filter_cons_of_pos hvalid, filter_nil]
    · simp [hno] at hc
  cases h with
  | begins hline hs hr =>
    have hgone := filter_isValid_eq_nil (not_valid_of_abandoned hcur)
    rcases mem_append.mp hc with hc | hc
    · simp [not_valid_of_abandoned hcur c hc] at hvalid
    · rw [filter_append, hgone, hread hr hc, nil_append]
  | inside hline hr => exact hread hr hc
  | outside hline => simp at hc

/-- There is no valid class in the lines. -/
def Barren (ls : List Text) : Prop :=
  ∃ cs, scanLines 1 none none ls = .ok cs ∧ ∀ c ∈ cs, c.isValid = false

/-- It does not matter where the lines stand. -/
theorem barren_iff (n : Nat) (previous : Option Text) :
    Barren ls ↔ ∃ cs, scanLines n previous none ls = .ok cs ∧ ∀ c ∈ cs, c.isValid = false := by
  have hmove := scanLines_movedUp (1 - n) ls 1 n none none (by omega)
  have hmove : scanLines n previous none ls = (scanLines 1 none none ls).map
      (·.map (·.movedUp (1 - n))) := (scanLines_previous n previous none ls).trans hmove
  rw [Barren, hmove]
  cases scanLines 1 none none ls with
  | error f => simp [Except.map]
  | ok cs => simp [Except.map, SourceClass.isValid_movedUp]

theorem barren_append {as : List Text} (has : ∀ l ∈ as, isClassLine l = false) :
    Barren (as ++ ls) ↔ Barren ls := by
  obtain ⟨p, hp⟩ := scanLines_outside as 1 none ls has
  rw [Barren, hp, barren_iff (1 + as.length) p]

/-- One more line without braces below changes nothing about valid classes. -/
theorem scanLines_concat (hc : isClassLine line = false) (hopen : '{' ∉ line) (hclose : '}' ∉ line)
    (ls : List Text) (n : Nat) (previous : Option Text) (current : Option OpenClass)
    (cs : List SourceClass) (hcur : ∀ o ∈ current, o.Ongoing)
    (h : scanLines n previous current ls = .ok cs) :
    ∃ cs', scanLines n previous current (ls ++ [line]) = .ok cs'
      ∧ cs'.filter SourceClass.isValid = cs.filter SourceClass.isValid := by
  induction ls generalizing n previous current cs with
  | nil =>
    injection h with h
    subst h
    cases current with
    | none =>
      refine ⟨[], ?_, rfl⟩
      show scanLines n previous none [line] = _
      rw [scanLines_skip hc]
      rfl
    | some o =>
      -- the open class gets one more line, and is not valid either way
      obtain ⟨o', hr, ho'⟩ := (hcur o rfl).read_braceless hopen hclose n previous
      have hnone : ∀ {o : OpenClass}, o.found.last = none →
          (abandoned (some o)).filter SourceClass.isValid = [] := fun ho =>
        filter_isValid_eq_nil (not_valid_of_abandoned fun x hx => Option.mem_some.mp hx ▸ ho)
      refine ⟨abandoned (some o'), ?_, (hnone ho'.last_eq).trans (hnone (hcur o rfl).last_eq).symm⟩
      show scanLines n previous (some o) [line] = _
      rw [scanLines_inside hc, hr]
      rfl
  | cons l ls ih =>
    obtain ⟨done, next, later, hstep, hlater, rfl⟩ := scanLines_cons_eq_ok.mp h
    obtain ⟨later', hlater', hf⟩ := ih (n + 1) (some l) next later
      (hstep.ongoing fun o ho => (hcur o ho).last_eq) hlater
    refine ⟨done ++ later', scanLines_cons_eq_ok.mpr ⟨done, next, later', hstep, hlater', rfl⟩, ?_⟩
    rw [filter_append, filter_append, hf]

theorem Barren.concat (h : Barren ls) (hc : isClassLine line = false)
    (hopen : '{' ∉ line) (hclose : '}' ∉ line) : Barren (ls ++ [line]) := by
  obtain ⟨cs, hcs, hno⟩ := h
  obtain ⟨cs', hcs', hf⟩ := scanLines_concat hc hopen hclose ls 1 none none cs (by simp) hcs
  refine ⟨cs', hcs', fun c hc => ?_⟩
  rw [filter_isValid_eq_nil hno] at hf
  exact Bool.eq_false_iff.mpr (filter_eq_nil_iff.mp hf c hc)

/-! ## §4. The parts of a file. -/

/-- A valid class with its lines, and the lines below it up to the next one. -/
structure ClassBlock where
  found : SourceClass
  lines : List Text
  gap : List Text

/-- The class is found on its lines if they begin with the line `n`, and below it is none. -/
structure ClassBlock.Stands (b : ClassBlock) (n : Nat) : Prop where
  found : ∃ line mine, b.lines = line :: mine ∧ FoundOn b.found n line mine
  valid : b.found.isValid = true
  gap : Barren b.gap

/-- The lines of some blocks. -/
def cutLines (bs : List ClassBlock) : List Text := bs.flatMap fun b => b.lines ++ b.gap

/-- Blocks one after another, below the lines `above`. -/
def Cut (above : List Text) : List ClassBlock → Prop
  | [] => True
  | b :: bs => b.Stands (above.length + 1) ∧ Cut (above ++ b.lines ++ b.gap) bs

/-- The parts of the lines below `above`, if a class may be open there: a gap and some blocks. -/
def CutBelow (above : List Text) (previous : Option Text) (current : Option OpenClass)
    (ls : List Text) (found : List SourceClass) : Prop :=
  ∃ gap bs, ls = gap ++ cutLines bs
    ∧ (∃ as, scanLines (above.length + 1) previous current gap = .ok as
      ∧ ∀ a ∈ as, a.isValid = false)
    ∧ Cut (above ++ gap) bs ∧ found = bs.map ClassBlock.found

/-- The parts of the lines below `above`, if the open class is valid in the end: its lines, and then
    a gap and some blocks. -/
def CutOpen (above : List Text) (previous : Option Text) (current : Option OpenClass)
    (ls : List Text) (found : List SourceClass) : Prop :=
  ∃ (o : OpenClass) (b : ClassBlock) (bs : List ClassBlock), current = some o
    ∧ ls = b.lines ++ b.gap ++ cutLines bs
    ∧ Completes b.found (above.length + 1 : Nat) previous o b.lines ∧ b.found.isValid = true
    ∧ Barren b.gap ∧ Cut (above ++ b.lines ++ b.gap) bs
    ∧ found = b.found :: bs.map ClassBlock.found

/-- A line that is in the gap, since no valid class is complete with it. -/
theorem CutBelow.cons {found : List SourceClass}
    (h : CutBelow (above ++ [line]) (some line) next ls found)
    (hstep : LineStep (above.length + 1) previous line current done next)
    (hdone : ∀ c ∈ done, c.isValid = false) :
    CutBelow above previous current (line :: ls) found := by
  obtain ⟨gap, bs, rfl, ⟨as, has, hno⟩, hcut, hfound⟩ := h
  rw [length_append, length_singleton] at has
  refine ⟨line :: gap, bs, rfl, ⟨done ++ as, ?_, ?_⟩, by simpa using hcut, hfound⟩
  · exact scanLines_cons_eq_ok.mpr ⟨done, next, as, hstep, has, rfl⟩
  · intro a ha
    rcases mem_append.mp ha with ha | ha
    · exact hdone a ha
    · exact hno a ha

/-- A block below a class that was given up. -/
theorem CutBelow.block (hcur : ∀ o ∈ current, o.found.last = none) {b : ClassBlock}
    {bs : List ClassBlock} {mine : List Text} (hlines : b.lines = line :: mine)
    (hb : FoundOn b.found (above.length + 1 : Nat) line mine) (hvalid : b.found.isValid)
    (hgap : Barren b.gap) (hcut : Cut (above ++ b.lines ++ b.gap) bs) :
    CutBelow above previous current (b.lines ++ b.gap ++ cutLines bs)
      (b.found :: bs.map ClassBlock.found) := by
  refine ⟨[], b :: bs, rfl, ⟨abandoned current, rfl, not_valid_of_abandoned hcur⟩, ?_, rfl⟩
  rw [append_nil]
  exact ⟨⟨⟨line, mine, hlines, hb⟩, hvalid, hgap⟩, hcut⟩

/-- **The lines of a scan fall into parts.**  The open class is valid in the end, or its lines
    belong to the gap. -/
theorem scanLines_cut (ls : List Text) (above : List Text) (previous : Option Text)
    (current : Option OpenClass) (cs : List SourceClass)
    (hcur : ∀ o ∈ current, o.found.last = none)
    (h : scanLines (above.length + 1) previous current ls = .ok cs) :
    CutBelow above previous current ls (cs.filter SourceClass.isValid)
      ∨ CutOpen above previous current ls (cs.filter SourceClass.isValid) := by
  induction ls generalizing above previous current cs with
  | nil =>
    injection h with h
    subst h
    exact .inl ⟨[], [], rfl, ⟨_, rfl, not_valid_of_abandoned hcur⟩, trivial,
      filter_isValid_eq_nil (not_valid_of_abandoned hcur)⟩
  | cons line ls ih =>
    obtain ⟨done, next, later, hstep, hlater, rfl⟩ := scanLines_cons_eq_ok.mp h
    have hnum : above.length + 1 + 1 = (above ++ [line]).length + 1 := by simp
    rw [hnum] at hlater
    have hrest := ih (above ++ [line]) (some line) next later (hstep.last_eq hcur) hlater
    by_cases hdone : ∀ c ∈ done, c.isValid = false
    · -- no valid class ends on this line
      rw [filter_append, filter_isValid_eq_nil hdone, nil_append]
      rcases hrest with hbelow | ⟨o', b, bs, rfl, rfl, hmine, hvalid, hgap, hcut, hfound⟩
      · exact .inl (hbelow.cons hstep hdone)
      · rw [← hnum] at hmine
        have hcut' : Cut (above ++ line :: b.lines ++ b.gap) bs := by simpa using hcut
        rw [hfound]
        rcases hstep.goes_on hmine with ⟨o, rfl, -, hmine⟩ | ⟨-, hfound⟩
        · exact .inr ⟨o, { b with lines := line :: b.lines }, bs, rfl, rfl, hmine, hvalid, hgap,
            hcut', rfl⟩
        · exact .inl (CutBelow.block (b := { b with lines := line :: b.lines }) hcur rfl hfound
            hvalid hgap hcut')
    · -- a valid class ends on this line, and nothing is open after it
      obtain ⟨c, hc, hvalid⟩ : ∃ c ∈ done, c.isValid := by simpa using hdone
      obtain ⟨rfl, hend⟩ := hstep.completes hcur hc (last_ne_of_isValid hvalid)
      have hone : done.filter SourceClass.isValid = [c] := hstep.filter_done hcur hc hvalid
      rcases hrest with ⟨gap, bs, rfl, has, hcut, hfound⟩ | ⟨o', b, bs, hno, -⟩
      · have hgap : Barren gap := (barren_iff _ _).mpr has
        have hcut' : Cut (above ++ [line] ++ gap) bs := by simpa using hcut
        rw [filter_append, hone, hfound]
        rcases hend with ⟨o, rfl, hmine⟩ | hfound
        · exact .inr ⟨o, ⟨c, [line], gap⟩, bs, rfl, rfl, hmine, hvalid, hgap, hcut', rfl⟩
        · exact .inl (CutBelow.block (b := ⟨c, [line], gap⟩) hcur rfl hfound hvalid hgap hcut')
      · simp at hno

/-- **A file falls into its valid classes and the gaps between them.** -/
theorem scan_cut {text : Text} (h : scan text = .ok cs) :
    ∃ top bs, text.lines = top ++ cutLines bs ∧ Barren top ∧ Cut top bs
      ∧ cs.filter SourceClass.isValid = bs.map ClassBlock.found := by
  rcases scanLines_cut text.lines [] none none cs (by simp) h with
    ⟨top, bs, hlines, htop, hcut, hfound⟩ | ⟨o, b, bs, hno, -⟩
  · exact ⟨top, bs, hlines, (barren_iff _ _).mpr htop, by simpa using hcut, hfound⟩
  · simp at hno

/-! ## §5. Putting parts together. -/

/-- The lines are those of the class `c`, if they begin with the line `n`. -/
structure IsClassOn (ls : List Text) (n : Nat) (c : SourceClass) : Prop where
  begins : ∃ line rest, ls = line :: rest ∧ isClassLine line = true
  scan_eq : ∀ (previous : Option Text) (more : List Text), ∃ q,
    scanLines n previous none (ls ++ more)
      = (scanLines (n + ls.length) q none more).map (c :: ·)

theorem FoundOn.isClassOn (h : FoundOn c n line ls) : IsClassOn (line :: ls) n c :=
  ⟨⟨line, ls, rfl, h.1⟩, fun previous more => h.scanLines_append n rfl previous more⟩

theorem ClassLayout.Fits.isClassOn {p : ClassLayout} {name : Text} (h : p.Fits name) (n : Nat) :
    IsClassOn p.lines n (p.scanned n) :=
  ⟨⟨p.header, _, rfl, h.header.class_line⟩, fun previous more =>
    ClassLayout.scanLines_lines h n previous more⟩

/-- **A gap, a class below it, and more lines.** -/
theorem Barren.scanLines_class {gap : List Text} (hgap : Barren gap)
    (hls : IsClassOn ls (n + gap.length) c) (previous : Option Text) (more : List Text) :
    ∃ as, (∀ a ∈ as, a.isValid = false) ∧ scanLines n previous none (gap ++ (ls ++ more))
        = (scanLines (n + gap.length + ls.length) none none more).map (as ++ c :: ·) := by
  obtain ⟨as, has, hno⟩ := (barren_iff n previous).mp hgap
  obtain ⟨line, rest, hline, hclass⟩ := hls.begins
  have hbegins : BeginsClass (ls ++ more) := by
    intro l hl
    rw [hline, cons_append, head?_cons, Option.some.injEq] at hl
    exact hl ▸ hclass
  obtain ⟨q, hq⟩ := hls.scan_eq none more
  refine ⟨as, hno, ?_⟩
  rw [scanLines_append hbegins gap, has]
  show (scanLines (n + gap.length) none none (ls ++ more) >>= _) = _
  rw [hq, scanLines_previous _ q none]
  cases scanLines (n + gap.length + ls.length) none none more <;> rfl

end DartData
