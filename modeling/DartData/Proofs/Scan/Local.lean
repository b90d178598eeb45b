import DartData.Proofs.Scan.Span

/-!
# The scan is local

A class is found from its own lines alone.  What stands above it and below it has no part in it but
for the line numbers: the lines of the class by themselves are scanned to the same class, moved to
the top (`scan_content`).

`movedUp` takes line numbers down by a constant.  Every step of `OpenClass.read` commutes with it,
hence a whole line does (`read_movedUp`).  `Completes` follows an open class to its last line;
`scanLines_completes` finds such a way in every scan, and `Completes.scanLines_append` turns it back
into a scan.
-/

namespace DartData

open List Text

/-! ## §1. Moving up. -/

/-- The field `k` lines further up. -/
def Field.movedUp (f : Field) (k : Int) : Field := { f with line := f.line - k }

/-- The member `k` lines further up. -/
def ExistingMember.movedUp (m : ExistingMember) (k : Int) : ExistingMember :=
  { m with first := m.first.map (· - k), last := m.last.map (· - k) }

/-- The class `k` lines further up. -/
def SourceClass.movedUp (c : SourceClass) (k : Int) : SourceClass :=
  { c with
    fields := c.fields.map (·.movedUp k)
    first := c.first.map (· - k)
    last := c.last.map (· - k)
    headLast := c.headLast.map (· - k)
    constructorFirst := c.constructorFirst.map (· - k)
    constructorLast := c.constructorLast.map (· - k)
    replaced := c.replaced.map (·.movedUp k) }

theorem SourceClass.isValid_movedUp (c : SourceClass) (k : Int) :
    (c.movedUp k).isValid = c.isValid := by
  unfold isValid hasDistinctNames
  show ((c.first.map _).isSome && c.head.name.isSome && (c.last.map _).isSome
    && !(c.fields.map _).isEmpty && decide (((c.fields.map _).map Field.name).Nodup)) = _
  rw [Option.isSome_map, Option.isSome_map, isEmpty_map, map_map]
  rfl

namespace OpenClass

/-- The open class `k` lines further up. -/
def movedUp (o : OpenClass) (k : Int) : OpenClass := { o with found := o.found.movedUp k }

/-! ## §2. Steps commute with moving up. -/

variable (o : OpenClass) (n k : Int) (line : Text) (classLine : Bool)

theorem start_movedUp : start (n - k) line = (start n line).map (·.movedUp k) := by
  unfold start
  cases Declaration.read {} line <;> rfl

theorem rereadHead_movedUp : (o.movedUp k).rereadHead = o.rereadHead.map (·.movedUp k) := by
  unfold rereadHead
  show (Declaration.read { name := o.found.head.name } o.headText >>= _) = _
  cases Declaration.read { name := o.found.head.name } o.headText <;> rfl

/-- The head is read as before. -/
theorem readHead_movedUp : (o.movedUp k).readHead (n - k) line classLine
      = (o.readHead n line classLine).map (·.movedUp k) := by
  unfold readHead
  by_cases hp : o.phase = .head
  · rw [if_pos hp, if_pos (show (o.movedUp k).phase = .head from hp)]
    cases classLine with
    | true =>
      show (if o.brackets.opened then _ else _) = Except.map _ (if o.brackets.opened then _ else _)
      split <;> rfl
    | false =>
      show (if o.brackets.opened then _ else _) = Except.map _ (if o.brackets.opened then _ else _)
      split
      · exact rereadHead_movedUp { o with
            headText := o.headText ++ " " ++ line.trim
            phase := .body
            found := { o.found with headLast := some n } } k
      · rfl
  · rw [if_neg hp, if_neg (show ¬ (o.movedUp k).phase = .head from hp)]
    rfl

theorem enterConstructor_movedUp (depth : Int) :
    (o.movedUp k).enterConstructor (n - k) depth line classLine
      = (o.enterConstructor n depth line classLine).movedUp k := by
  have hb : (o.movedUp k).beginsConstructor depth line = o.beginsConstructor depth line := by
    unfold beginsConstructor
    show (depth == 1 && (o.found.constructorFirst.map (· - k)).isNone && _) = _
    rw [Option.isNone_map]
    rfl
  unfold enterConstructor
  rw [hb]
  split <;> rfl

theorem readConstructor_movedUp :
    (o.movedUp k).readConstructor (n - k) line = (o.readConstructor n line).movedUp k := by
  unfold readConstructor
  show (if o.phase = .constructor then if (o.brackets.paren == 0) then _ else _ else _) = _
  split
  · split <;> rfl
  · rfl

theorem ofLine?_movedUp (previous : Option Text) :
    Field.ofLine? line (n - k) previous = (Field.ofLine? line n previous).map (·.movedUp k) := by
  unfold Field.ofLine?
  dsimp only
  cases (FieldReader.readWords {} true (line.trim.split ' ')).rawType with
  | none => rfl
  | some t => cases (FieldReader.readWords {} true (line.trim.split ' ')).name <;> rfl

/-- Fields are read as many lines higher. -/
theorem readField_movedUp (previous : Option Text) :
    (o.movedUp k).readField (n - k) previous line classLine
      = (o.readField n previous line classLine).movedUp k := by
  have hd : (o.movedUp k).declaresField line classLine = o.declaresField line classLine := by
    unfold declaresField
    show (o.phase == .body && o.brackets.paren == 0 && o.brackets.curly == 1 && !classLine
      && isFieldLine o.found.head.name (o.found.constructorFirst.map (· - k)).isSome line) = _
    rw [Option.isSome_map]
  unfold readField
  rw [hd, ofLine?_movedUp]
  split
  · cases Field.ofLine? line n previous <;> simp [movedUp, SourceClass.movedUp]
  · rfl

/-- What comes of a line when the head and the constructor have been looked for: it closes the class
    or is kept. -/
def conclude (previous : Option Text) : List SourceClass × Option OpenClass :=
  if o.brackets.closed then (o.report (o.close n line), none)
  else ([], some ((o.keepLine line).readField n previous line classLine))

theorem read_eq_map (previous : Option Text) : o.read n previous line classLine
      = (readHead { o with brackets := o.brackets.feed line } n line classLine).map fun o₁ =>
        ((o₁.enterConstructor n o.brackets.curly line classLine).readConstructor n line).conclude n
          line classLine previous := by
  unfold read
  dsimp only
  cases readHead { o with brackets := o.brackets.feed line } n line classLine with
  | error f => rfl
  | ok o₁ =>
    show (if _ then _ else _) = Except.ok (conclude _ n line classLine previous)
    unfold conclude
    split <;> rfl

theorem conclude_movedUp (previous : Option Text) :
    (o.movedUp k).conclude (n - k) line classLine previous
      = ((o.conclude n line classLine previous).1.map (·.movedUp k),
        (o.conclude n line classLine previous).2.map (·.movedUp k)) := by
  unfold conclude
  show (if o.brackets.closed then _ else _) = _
  split
  · show (if o.listed then _ else _, none) = (List.map _ (if o.listed then _ else _), _)
    split <;> rfl
  · exact congrArg (fun o => ([], some o)) (readField_movedUp (o.keepLine line) n k line classLine
      previous)

/-- **A line is read the same further up.** -/
theorem read_movedUp (previous : Option Text) : (o.movedUp k).read (n - k) previous line classLine
      = (o.read n previous line classLine).map fun x =>
        (x.1.map (·.movedUp k), x.2.map (·.movedUp k)) := by
  have hhead := readHead_movedUp { o with brackets := o.brackets.feed line } n k line classLine
  rw [read_eq_map, read_eq_map]
  show Except.map _ (readHead (movedUp { o with brackets := o.brackets.feed line } k) (n - k) line
    classLine) = _
  rw [hhead]
  cases readHead { o with brackets := o.brackets.feed line } n line classLine with
  | error f => rfl
  | ok o₁ =>
    show Except.ok (conclude (((o₁.movedUp k).enterConstructor (n - k) o.brackets.curly line
      classLine).readConstructor (n - k) line) (n - k) line classLine previous) = _
    rw [enterConstructor_movedUp, readConstructor_movedUp, conclude_movedUp]
    rfl

theorem read_movedUp_of_ok {previous : Option Text} {done : List SourceClass}
    {next : Option OpenClass} (h : o.read n previous line classLine = .ok (done, next)) :
    (o.movedUp k).read (n - k) previous line classLine
      = .ok (done.map (·.movedUp k), next.map (·.movedUp k)) := by
  rw [read_movedUp, h]
  rfl

theorem read_class_line (previous previous' : Option Text) :
    o.read n previous line true = o.read n previous' line true := by
  have hfield : ∀ o : OpenClass, ∀ p, o.readField n p line true = o := by
    intro o p
    simp [readField, declaresField]
  rw [read_eq_map, read_eq_map]
  simp only [conclude, hfield]

variable {o n line classLine}

/-- A line is put behind the content of the class, and moves neither its start nor, as long as it
    is open, its end. -/
theorem read_content {previous : Option Text} {done : List SourceClass} {next : Option OpenClass}
    (h : o.read n previous line classLine = .ok (done, next)) :
    (next = none ∧ ∀ c ∈ done, done = [c] ∧ c.content = o.found.content ++ line
        ∧ c.first = o.found.first)
      ∨ (done = [] ∧ ∃ o', next = some o' ∧ o'.found.content = o.found.content ++ line ++ ['\n']
        ∧ o'.found.first = o.found.first ∧ o'.found.last = o.found.last) := by
  obtain ⟨o₁, p, a, b, t, h₁, -, -, hend⟩ := read_frame h
  have hfound : o₁.found.content = o.found.content ∧ o₁.found.first = o.found.first
      ∧ o₁.found.last = o.found.last := by
    rcases readHead_cases h₁ with ⟨-, rfl⟩ | ⟨-, -, rfl⟩ | ⟨-, -, l, d, rfl, -⟩ <;>
      exact ⟨rfl, rfl, rfl⟩
  obtain ⟨hcontent, hfirst, hlast⟩ := hfound
  rcases hend with ⟨-, rfl, rfl⟩ | ⟨-, rfl, fs, -, rfl⟩
  · refine .inl ⟨rfl, fun c hc => ?_⟩
    obtain ⟨hl, rfl⟩ := mem_report.mp hc
    exact ⟨if_pos hl, congrArg (· ++ line) hcontent, hfirst⟩
  · exact .inr ⟨rfl, _, rfl, congrArg (· ++ line ++ ['\n']) hcontent, hfirst, hlast⟩

end OpenClass

/-! ## §3. The way of a class. -/

/-- The lines from `number` on complete the open class to `c`, and no class begins on them. -/
inductive Completes (c : SourceClass) : (number : Int) → (previous : Option Text) → OpenClass →
    List Text → Prop
  | close {n : Int} {previous : Option Text} {o : OpenClass} {line : Text}
      (hline : isClassLine line = false) (h : o.read n previous line false = .ok ([c], none)) :
      Completes c n previous o [line]
  | keep {n : Int} {previous : Option Text} {o o' : OpenClass} {line : Text} {ls : List Text}
      (hline : isClassLine line = false) (h : o.read n previous line false = .ok ([], some o'))
      (hrest : Completes c (n + 1) (some line) o' ls) : Completes c n previous o (line :: ls)

/-- The class `c` begins on the line `number` with the class line `line`, and the lines `ls` below
    it complete it. -/
def FoundOn (c : SourceClass) (number : Int) (line : Text) (ls : List Text) : Prop :=
  isClassLine line = true ∧ ∃ o, OpenClass.start number line = .ok o
    ∧ ((ls = [] ∧ o.read number none line true = .ok ([c], none))
      ∨ ∃ o', o.read number none line true = .ok ([], some o')
        ∧ Completes c (number + 1) (some line) o' ls)

namespace Completes

variable {c : SourceClass} {n : Int} {previous : Option Text} {o : OpenClass} {ls : List Text}

/-- The same lines further up complete the same class further up. -/
theorem movedUp (h : Completes c n previous o ls) (k : Int) :
    Completes (c.movedUp k) (n - k) previous (o.movedUp k) ls := by
  induction h with
  | close hline h => exact .close hline (OpenClass.read_movedUp_of_ok _ _ k _ _ h)
  | @keep n previous o o' line ls hline h _ ih =>
    refine .keep hline (OpenClass.read_movedUp_of_ok _ _ k _ _ h) ?_
    rw [show n - k + 1 = n + 1 - k by omega]
    exact ih

/-- With a line, the class is complete or is left to be completed by more lines. -/
theorem content_step {line : Text} {classLine : Bool}
    (h : (ls = [] ∧ o.read n previous line classLine = .ok ([c], none))
      ∨ ∃ o', o.read n previous line classLine = .ok ([], some o') ∧ ls ≠ []
        ∧ c.content = o'.found.content ++ unlines ls ∧ c.first = o'.found.first) :
    c.content = o.found.content ++ unlines (line :: ls) ∧ c.first = o.found.first := by
  rcases h with ⟨rfl, h⟩ | ⟨o', h, hne, hcontent, hfirst⟩
  · rcases OpenClass.read_content h with ⟨-, hdone⟩ | ⟨hno, -⟩
    · obtain ⟨-, hc, hf⟩ := hdone c mem_cons_self
      exact ⟨by rw [hc, unlines, join_singleton], hf⟩
    · simp at hno
  · rcases OpenClass.read_content h with ⟨hno, -⟩ | ⟨-, o'', ho, hc, hf, -⟩
    · simp at hno
    · cases ho
      obtain ⟨l, ls, rfl⟩ := exists_cons_of_ne_nil hne
      refine ⟨?_, hfirst.trans hf⟩
      rw [hcontent, hc]
      simp [unlines, join_cons_cons]

theorem ne_nil (h : Completes c n previous o ls) : ls ≠ [] := by cases h <;> simp

theorem content_eq (h : Completes c n previous o ls) :
    c.content = o.found.content ++ unlines ls ∧ c.first = o.found.first := by
  induction h with
  | close _ h => exact content_step (.inl ⟨rfl, h⟩)
  | keep _ h hrest ih => exact content_step (.inr ⟨_, h, hrest.ne_nil, ih⟩)

/-- A scan that goes on with these lines finds the class, and starts afresh after it. -/
theorem scanLines_append (h : Completes c n previous o ls) (m : Nat) (hm : n = m)
    (more : List Text) : ∃ q, scanLines m previous (some o) (ls ++ more)
      = (scanLines (m + ls.length) q none more).map (c :: ·) := by
  induction h generalizing m with
  | @close n previous o line hline h =>
    subst hm
    refine ⟨some line, ?_⟩
    rw [singleton_append, scanLines_inside hline, h]
    rfl
  | @keep n previous o o' line ls hline h _ ih =>
    subst hm
    obtain ⟨q, hq⟩ := ih (m + 1) rfl
    refine ⟨q, ?_⟩
    rw [cons_append, scanLines_inside hline, h]
    show (scanLines (m + 1) (some line) (some o') (ls ++ more) >>= fun later => .ok ([] ++ later))
      = _
    rw [hq, length_cons, show m + 1 + ls.length = m + (ls.length + 1) by omega]
    cases scanLines (m + (ls.length + 1)) q none more <;> rfl

end Completes

namespace FoundOn

variable {c : SourceClass} {n : Int} {line : Text} {ls : List Text}

theorem movedUp (h : FoundOn c n line ls) (k : Int) : FoundOn (c.movedUp k) (n - k) line ls := by
  obtain ⟨hline, o, hs, hread⟩ := h
  refine ⟨hline, o.movedUp k, ?_, ?_⟩
  · rw [OpenClass.start_movedUp, hs]
    rfl
  · rcases hread with ⟨rfl, hr⟩ | ⟨o', hr, hrest⟩
    · exact .inl ⟨rfl, OpenClass.read_movedUp_of_ok _ _ k _ _ hr⟩
    · refine .inr ⟨o'.movedUp k, OpenClass.read_movedUp_of_ok _ _ k _ _ hr, ?_⟩
      rw [show n - k + 1 = n + 1 - k by omega]
      exact hrest.movedUp k

theorem content_eq (h : FoundOn c n line ls) :
    c.content = unlines (line :: ls) ∧ c.first = some n := by
  obtain ⟨-, o, hs, hread⟩ := h
  obtain ⟨d, -, ho⟩ := bind_eq_ok.mp hs
  injection ho with ho
  obtain ⟨hcontent, hfirst⟩ := Completes.content_step (hread.imp_right fun ⟨o', hr, hrest⟩ =>
    ⟨o', hr, hrest.ne_nil, hrest.content_eq⟩)
  rw [← ho] at hcontent hfirst
  exact ⟨hcontent, hfirst⟩

/-- A scan that comes to these lines finds the class, and starts afresh after it. -/
theorem scanLines_append (h : FoundOn c n line ls) (m : Nat) (hm : n = m) (previous : Option Text)
    (more : List Text) : ∃ q, scanLines m previous none (line :: ls ++ more)
      = (scanLines (m + (ls.length + 1)) q none more).map (c :: ·) := by
  subst hm
  obtain ⟨hline, o, hs, hread⟩ := h
  rw [cons_append, scanLines_class_line hline, hs]
  show ∃ q, (o.read m previous line true >>= _) = _
  rw [o.read_class_line m line previous none]
  rcases hread with ⟨rfl, hr⟩ | ⟨o', hr, hrest⟩
  · rw [hr]
    exact ⟨some line, rfl⟩
  · obtain ⟨q, hq⟩ := hrest.scanLines_append (m + 1) rfl more
    refine ⟨q, ?_⟩
    rw [hr]
    show (scanLines (m + 1) (some line) (some o') (ls ++ more) >>= fun later =>
      .ok ([] ++ [] ++ later)) = _
    rw [hq, show m + 1 + ls.length = m + (ls.length + 1) by omega]
    cases scanLines (m + (ls.length + 1)) q none more <;> rfl

end FoundOn

/-! ## §4. Files. -/

/-- What a line of a file can do: it begins a class and gives up the one that is open, belongs to
    the open class, or stands outside of classes.  `done` is reported and `next` is open after
    it. -/
inductive LineStep (number : Nat) (previous : Option Text) (line : Text) :
    (current : Option OpenClass) → (done : List SourceClass) → (next : Option OpenClass) → Prop
  | begins {current : Option OpenClass} {o : OpenClass} {done : List SourceClass}
      {next : Option OpenClass} (hc : isClassLine line = true)
      (hs : OpenClass.start number line = .ok o)
      (hr : o.read number none line true = .ok (done, next)) :
      LineStep number previous line current (abandoned current ++ done) next
  | inside {o : OpenClass} {done : List SourceClass} {next : Option OpenClass}
      (hc : isClassLine line = false) (hr : o.read number previous line false = .ok (done, next)) :
      LineStep number previous line (some o) done next
  | outside (hc : isClassLine line = false) : LineStep number previous line none [] none

/-- What a line of a file reports, and what is open after it. -/
def readLine (number : Nat) (previous : Option Text) (current : Option OpenClass) (line : Text) :
    Except Fault (List SourceClass × Option OpenClass) :=
  if isClassLine line then
    OpenClass.start number line >>= fun o => (o.read number none line true).map fun x =>
      (abandoned current ++ x.1, x.2)
  else match current with
    | some o => o.read number previous line false
    | none => .ok ([], none)

section

variable {n : Nat} {previous : Option Text} {current : Option OpenClass} {line : Text}
  {ls : List Text}

theorem readLine_class_line (hc : isClassLine line) : readLine n previous current line
    = OpenClass.start n line >>= fun o => (o.read n none line true).map fun x =>
      (abandoned current ++ x.1, x.2) :=
  if_pos hc

theorem readLine_below (hc : isClassLine line = false) : readLine n previous current line
    = current.elim (.ok ([], none)) fun o => o.read n previous line false := by
  unfold readLine
  rw [if_neg (by simp [hc])]
  cases current <;> rfl

/-- **A scan goes line by line.** -/
theorem scanLines_cons : scanLines n previous current (line :: ls)
    = readLine n previous current line >>= fun x =>
      scanLines (n + 1) (some line) x.2 ls >>= fun later => .ok (x.1 ++ later) := by
  cases hc : isClassLine line with
  | true =>
    rw [scanLines_class_line hc, readLine_class_line hc]
    cases OpenClass.start n line with
    | error f => rfl
    | ok o =>
      show (o.read n previous line true >>= _) = Except.map _ (o.read n none line true) >>= _
      rw [o.read_class_line n line previous none]
      cases o.read n none line true <;> rfl
  | false =>
    rw [readLine_below hc]
    cases current with
    | none =>
      rw [scanLines_skip hc]
      show _ = scanLines (n + 1) (some line) none ls >>= _
      cases scanLines (n + 1) (some line) none ls <;> rfl
    | some o => exact scanLines_inside hc n previous o ls

/-- What a line does is one of the steps. -/
theorem readLine_eq_ok {done : List SourceClass} {next : Option OpenClass} :
    readLine n previous current line = .ok (done, next)
      ↔ LineStep n previous line current done next := by
  constructor
  · intro h
    cases hc : isClassLine line with
    | true =>
      rw [readLine_class_line hc] at h
      obtain ⟨o, hs, h⟩ := bind_eq_ok.mp h
      obtain ⟨x, hr, h⟩ := map_eq_ok.mp h
      cases h
      exact .begins hc hs hr
    | false =>
      rw [readLine_below hc] at h
      cases current with
      | none => cases h; exact .outside hc
      | some o => exact .inside hc h
  · intro h
    cases h with
    | begins hc hs hr =>
      rw [readLine_class_line hc]
      exact bind_eq_ok.mpr ⟨_, hs, map_eq_ok.mpr ⟨_, hr, rfl⟩⟩
    | inside hc hr => rwa [readLine_below hc]
    | outside hc => rw [readLine_below hc, Option.elim_none]

theorem scanLines_cons_eq_ok {cs : List SourceClass} :
    scanLines n previous current (line :: ls) = .ok cs ↔
      ∃ done next later, LineStep n previous line current done next
        ∧ scanLines (n + 1) (some line) next ls = .ok later ∧ cs = done ++ later := by
  rw [scanLines_cons]
  constructor
  · intro h
    obtain ⟨⟨done, next⟩, hstep, h⟩ := bind_eq_ok.mp h
    obtain ⟨later, hlater, h⟩ := bind_eq_ok.mp h
    exact ⟨done, next, later, readLine_eq_ok.mp hstep, hlater, (Except.ok.inj h).symm⟩
  · rintro ⟨done, next, later, hstep, hlater, rfl⟩
    exact bind_eq_ok.mpr ⟨_, readLine_eq_ok.mpr hstep, bind_eq_ok.mpr ⟨later, hlater, rfl⟩⟩

/-- A class line ends the class that is open, and reads on as if there had been none. -/
theorem scanLines_abandon (hc : isClassLine line) : scanLines n previous current (line :: ls)
      = (scanLines n none none (line :: ls)).map (abandoned current ++ ·) := by
  have hline : readLine n previous current line
      = (readLine n none none line).map fun x => (abandoned current ++ x.1, x.2) := by
    rw [readLine_class_line hc, readLine_class_line hc]
    cases OpenClass.start n line with
    | error f => rfl
    | ok o =>
      show Except.map _ (o.read n none line true) = Except.map _ (Except.map _ _)
      cases o.read n none line true <;> rfl
  rw [scanLines_cons, scanLines_cons, hline]
  cases readLine n none none line with
  | error f => rfl
  | ok x =>
    show (scanLines (n + 1) (some line) x.2 ls >>= _)
      = Except.map _ (scanLines (n + 1) (some line) x.2 ls >>= _)
    cases scanLines (n + 1) (some line) x.2 ls with
    | error f => rfl
    | ok later => exact congrArg Except.ok (append_assoc (abandoned current) x.1 later)

end

variable {line text : Text} {cs done : List SourceClass} {n : Nat} {previous : Option Text}
  {current next : Option OpenClass} {c : SourceClass}

/-- What holds of the classes that are begun and is kept by every line holds of the classes of a
    scan.  `P` is what is known of an open class, `Q` of one that is reported. -/
theorem scan_induction {P : OpenClass → Prop} {Q : SourceClass → Prop}
    (habandoned : ∀ {o : OpenClass}, P o → o.listed → Q o.found)
    (hstart : ∀ {n : Int} {line : Text} {o : OpenClass}, OpenClass.start n line = .ok o → P o)
    (hread : ∀ {o : OpenClass} {n : Int} {previous : Option Text} {line : Text} {classLine : Bool}
      {done : List SourceClass} {next : Option OpenClass}, P o →
      o.read n previous line classLine = .ok (done, next) →
      (∀ c ∈ done, Q c) ∧ ∀ o' ∈ next, P o') (h : scan text = .ok cs) : ∀ c ∈ cs, Q c := by
  have hleft : ∀ current : Option OpenClass, (∀ o ∈ current, P o) →
      ∀ c ∈ abandoned current, Q c := by
    intro current hcur c hc
    cases current with
    | none => cases hc
    | some o =>
      obtain ⟨hl, rfl⟩ := OpenClass.mem_report.mp hc
      exact habandoned (hcur o rfl) hl
  -- by induction on the lines, with any class left open above them
  have hlines : ∀ (ls : List Text) (n : Nat) (previous : Option Text) (current : Option OpenClass)
      (cs : List SourceClass), (∀ o ∈ current, P o) → scanLines n previous current ls = .ok cs →
      ∀ c ∈ cs, Q c := by
    intro ls
    induction ls with
    | nil =>
      intro n previous current cs hcur h
      injection h with h
      exact h ▸ hleft current hcur
    | cons line ls ih =>
      intro n previous current cs hcur h
      obtain ⟨done, next, later, hstep, hlater, rfl⟩ := scanLines_cons_eq_ok.mp h
      have hdone : (∀ c ∈ done, Q c) ∧ ∀ o ∈ next, P o := by
        cases hstep with
        | begins _ hs hr =>
          obtain ⟨hdone, hnext⟩ := hread (hstart hs) hr
          exact ⟨forall_mem_append.mpr ⟨hleft current hcur, hdone⟩, hnext⟩
        | inside _ hr => exact hread (hcur _ rfl) hr
        | outside _ => exact ⟨by simp, by simp⟩
      exact forall_mem_append.mpr ⟨hdone.1, ih (n + 1) (some line) next later hdone.2 hlater⟩
  exact hlines text.lines 1 none none cs (by simp) h

theorem OpenClass.last_of_start {n : Int} {o : OpenClass} (h : start n line = .ok o) :
    o.found.last = none := by
  obtain ⟨d, -, h⟩ := bind_eq_ok.mp h
  injection h with h
  rw [← h]

/-- What is open has no end. -/
theorem LineStep.last_eq (h : LineStep n previous line current done next)
    (hcur : ∀ o ∈ current, o.found.last = none) :
    ∀ o ∈ next, o.found.last = none := by
  have hread : ∀ {o : OpenClass} {p : Option Text} {b : Bool} {done : List SourceClass},
      o.found.last = none → o.read n p line b = .ok (done, next) →
      ∀ o' ∈ next, o'.found.last = none := by
    intro o p b done ho hr o' ho'
    rcases OpenClass.read_content hr with ⟨hno, -⟩ | ⟨-, o'', hsome, -, -, hlast⟩
    · simp [hno] at ho'
    · rw [hsome, Option.mem_some] at ho'
      rw [← ho', hlast, ho]
  cases h with
  | begins hc hs hr => exact hread (OpenClass.last_of_start hs) hr
  | inside hc hr => exact hread (hcur _ rfl) hr
  | outside hc => simp

theorem last_of_abandoned (h : ∀ o ∈ current, o.found.last = none) :
    ∀ c ∈ abandoned current, c.last = none := by
  intro c hc
  obtain ⟨o, rfl, rfl⟩ := mem_abandoned hc
  exact h o rfl

/-- A class that a line completes: it goes on to here, or it is all on this line. -/
theorem LineStep.completes (h : LineStep n previous line current done next)
    (hcur : ∀ o ∈ current, o.found.last = none) (hc : c ∈ done) (hlast : c.last ≠ none) :
    next = none ∧ ((∃ o, current = some o ∧ Completes c n previous o [line])
      ∨ FoundOn c n line []) := by
  cases h with
  | begins hline hs hr =>
    rcases mem_append.mp hc with hc | hc
    · exact absurd (last_of_abandoned hcur c hc) hlast
    · rcases OpenClass.read_content hr with ⟨hno, hdone⟩ | ⟨hno, -⟩
      · refine ⟨hno, .inr ⟨hline, _, hs, .inl ⟨rfl, ?_⟩⟩⟩
        rw [← (hdone c hc).1, ← hno]
        exact hr
      · simp [hno] at hc
  | inside hline hr =>
    rcases OpenClass.read_content hr with ⟨hno, hdone⟩ | ⟨hno, -⟩
    · refine ⟨hno, .inl ⟨_, rfl, .close hline ?_⟩⟩
      rw [← (hdone c hc).1, ← hno]
      exact hr
    · simp [hno] at hc
  | outside hline => simp at hc

/-- A class that goes on after a line: it began above it or on it. -/
theorem LineStep.goes_on {o' : OpenClass} {mine : List Text}
    (h : LineStep n previous line current done (some o'))
    (hmine : Completes c (n + 1 : Nat) (some line) o' mine) :
    (∃ o, current = some o ∧ done = [] ∧ Completes c n previous o (line :: mine))
      ∨ (done = abandoned current ∧ FoundOn c n line mine) := by
  cases h with
  | begins hline hs hr =>
    rcases OpenClass.read_content hr with ⟨hno, -⟩ | ⟨hno, -⟩
    · simp at hno
    · subst hno
      exact .inr ⟨append_nil _, hline, _, hs, .inr ⟨o', hr, hmine⟩⟩
  | inside hline hr =>
    rcases OpenClass.read_content hr with ⟨hno, -⟩ | ⟨hno, -⟩
    · simp at hno
    · subst hno
      exact .inl ⟨_, rfl, rfl, .keep hline hr hmine⟩

/-- **Every complete class of a scan has its way in the lines**: it goes on with the class that is
    open there, or begins on a class line further down. -/
theorem scanLines_completes (hc : c.last ≠ none) (ls : List Text) (n : Nat)
    (previous : Option Text) (current : Option OpenClass) (cs : List SourceClass)
    (hopen : ∀ o ∈ current, o.found.last = none) (h : scanLines n previous current ls = .ok cs)
    (hmem : c ∈ cs) :
    (∃ o mine, current = some o ∧ mine <+: ls ∧ Completes c n previous o mine)
      ∨ ∃ above line mine, above ++ line :: mine <+: ls
        ∧ FoundOn c (n + above.length : Nat) line mine := by
  induction ls generalizing n previous current cs with
  | nil =>
    injection h with h
    exact absurd (last_of_abandoned hopen c (h ▸ hmem)) hc
  | cons line ls ih =>
    obtain ⟨done, next, later, hstep, hlater, rfl⟩ := scanLines_cons_eq_ok.mp h
    rcases mem_append.mp hmem with hmem | hmem
    · rcases (hstep.completes hopen hmem hc).2 with ⟨o, hcur, hmine⟩ | hfound
      · exact .inl ⟨o, [line], hcur, cons_prefix_cons.mpr ⟨rfl, nil_prefix⟩, hmine⟩
      · exact .inr ⟨[], line, [], cons_prefix_cons.mpr ⟨rfl, nil_prefix⟩, hfound⟩
    · rcases ih (n + 1) (some line) next later (hstep.last_eq hopen) hlater hmem with
        ⟨o', mine, rfl, hpre, hmine⟩ | ⟨above, line', mine, hpre, hfound⟩
      -- the class was open above this line, or begins with it
      · rcases hstep.goes_on hmine with ⟨o, hcur, -, hmine⟩ | ⟨-, hfound⟩
        · exact .inl ⟨o, line :: mine, hcur, cons_prefix_cons.mpr ⟨rfl, hpre⟩, hmine⟩
        · exact .inr ⟨[], line, mine, cons_prefix_cons.mpr ⟨rfl, hpre⟩, hfound⟩
      · refine .inr ⟨line :: above, line', mine, cons_prefix_cons.mpr ⟨rfl, hpre⟩, ?_⟩
        rw [length_cons, show n + (above.length + 1) = n + 1 + above.length by omega]
        exact hfound

/-- **The content of a complete class, scanned alone, gives the class moved to the top.** -/
theorem scan_content (h : scan text = .ok cs) (hc : c ∈ cs) (hlast : c.last ≠ none) :
    ∃ s : Int, c.first = some s ∧ scan c.content = .ok [c.movedUp (s - 1)] := by
  rcases scanLines_completes hlast text.lines 1 none none cs (by simp) h hc with
    ⟨o, mine, hno, -⟩ | ⟨above, line, mine, hpre, hfound⟩
  · simp at hno
  · obtain ⟨hcontent, hfirst⟩ := hfound.content_eq
    have hlines : (unlines (line :: mine)).lines = line :: mine := by
      refine lines_unlines (cons_ne_nil _ _) fun l hl => ?_
      exact not_mem_of_mem_lines (hpre.subset (mem_append_right above hl))
    refine ⟨_, hfirst, ?_⟩
    rw [scan, hcontent, hlines]
    obtain ⟨q, hq⟩ := (hfound.movedUp ((1 + above.length : Nat) - 1)).scanLines_append 1 (by omega)
      none []
    rw [append_nil] at hq
    exact hq

end DartData
