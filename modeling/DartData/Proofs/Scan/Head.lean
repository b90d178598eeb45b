import DartData.Proofs.Scan.Depth

/-!
# The head of a class

The declaration of a class reaches from the class line to the line on which the first curly bracket
is opened.  If that is the class line, the head of the class is read from this line; else all lines
of the declaration, trimmed and divided by blanks, are read as one (`scan_head`).
-/

namespace DartData

open List Text

/-- The head was read from the lines of a declaration.  Of the first line only the name counts if
    there are more. -/
def Declaration.ReadFrom (d : Declaration) : List Text → Prop
  | [] => False
  | [line] => Declaration.read {} line = .ok d
  | line :: more => ∃ d₀, Declaration.read {} line = .ok d₀
      ∧ Declaration.read { name := d₀.name } (join " " ((line :: more).map trim)) = .ok d

/-! ## §1. One line. -/

namespace OpenClass

variable {o o' : OpenClass} {n : Int} {line : Text} {previous : Option Text} {classLine : Bool}
  {done : List SourceClass} {next : Option OpenClass}

/-- On the class line the head is there already when the body is opened. -/
theorem readHead_class_line (hp : o.phase = .head) (hb : o.brackets.opened)
    (h : o.readHead n line true = .ok o') :
    o'.found.head = o.found.head ∧ o'.found.headLast = some n ∧ o'.phase = .body := by
  simp only [readHead, hp, if_true, hb, Except.ok.injEq] at h
  subst h
  exact ⟨rfl, rfl, rfl⟩

/-- On a later line it is read from all lines so far. -/
theorem readHead_later_line (hp : o.phase = .head) (hb : o.brackets.opened)
    (h : o.readHead n line false = .ok o') :
    Declaration.read { name := o.found.head.name } (o.headText ++ " " ++ line.trim)
        = .ok o'.found.head
      ∧ o'.found.headLast = some n ∧ o'.phase = .body := by
  simp only [readHead, hp, if_true, Bool.false_eq_true, if_false, hb, rereadHead, bind_eq_ok,
    pure_eq_ok, Except.ok.injEq] at h
  obtain ⟨d, hd, rfl⟩ := h
  exact ⟨hd, rfl, rfl⟩

/-- After the head was looked for, a line changes it no more. -/
theorem read_head (h : o.read n previous line classLine = .ok (done, next)) :
    ∃ o₁, readHead { o with brackets := o.brackets.feed line } n line classLine = .ok o₁
      ∧ (∀ c ∈ done, c.head = o₁.found.head ∧ c.headLast = o₁.found.headLast)
      ∧ ∀ o' ∈ next, o'.found.head = o₁.found.head ∧ o'.found.headLast = o₁.found.headLast
        ∧ (o₁.phase ≠ .head → o'.phase ≠ .head) := by
  obtain ⟨o₁, p, a, b, t, h₁, -, hphase, hend⟩ := read_frame h
  refine ⟨o₁, h₁, ?_⟩
  rcases hend with ⟨-, rfl, rfl⟩ | ⟨-, rfl, fs, -, rfl⟩
  · refine ⟨fun c hc => ?_, by simp⟩
    obtain ⟨-, rfl⟩ := mem_report.mp hc
    exact ⟨rfl, rfl⟩
  · refine ⟨by simp, fun o' ho' => ?_⟩
    obtain rfl := Option.mem_some.mp ho'
    exact ⟨rfl, rfl, hphase⟩

/-- A line that opens no bracket is added to the head. -/
theorem read_head_goes_on (hp : o.phase = .head) (hflat : o.HeadFlat)
    (hfeed : (o.brackets.feed line).opened = false)
    (h : o.read n previous line classLine = .ok (done, some o')) :
    o'.phase = .head ∧ o'.headText = o.headWith line classLine
      ∧ o'.brackets = o.brackets.feed line ∧ o'.found.head = o.found.head ∧ o'.HeadFlat := by
  obtain ⟨hopen, hflat'⟩ := openHead_of_read hflat h
  rw [if_pos ⟨hp, hfeed⟩] at hopen
  have hopen : (if o'.phase = .head then some (o'.headText, o'.brackets) else none)
      = some (o.headWith line classLine, o.brackets.feed line) := hopen
  split at hopen
  next hp' =>
    rw [Option.some.injEq, Prod.mk.injEq] at hopen
    obtain ⟨o₁, h₁, -, hnext⟩ := read_head h
    refine ⟨hp', hopen.1, hopen.2, ?_, hflat' o' rfl⟩
    rw [(hnext o' rfl).1]
    rcases readHead_cases h₁ with ⟨-, rfl⟩ | ⟨-, -, rfl⟩ | ⟨-, hopened, -⟩
    · rfl
    · rfl
    · exact absurd (hfeed.symm.trans hopened) (by simp)
  next => simp at hopen

/-- In the body a line does not touch the head. -/
theorem read_head_of_body (hp : o.phase ≠ .head)
    (h : o.read n previous line classLine = .ok (done, next)) :
    (∀ c ∈ done, c.head = o.found.head ∧ c.headLast = o.found.headLast)
      ∧ ∀ o' ∈ next, o'.found.head = o.found.head ∧ o'.found.headLast = o.found.headLast
        ∧ o'.phase ≠ .head := by
  obtain ⟨o₁, h₁, hdone, hnext⟩ := read_head h
  obtain rfl : o₁ = { o with brackets := o.brackets.feed line } := by
    rcases readHead_cases h₁ with ⟨-, rfl⟩ | ⟨hh, -⟩ | ⟨hh, -⟩
    · rfl
    · exact absurd hh hp
    · exact absurd hh hp
  exact ⟨hdone, fun o' ho' => ⟨(hnext o' ho').1, (hnext o' ho').2.1, (hnext o' ho').2.2 hp⟩⟩

end OpenClass

/-! ## §2. The way of a class. -/

namespace Completes

variable {c : SourceClass} {n : Int} {previous : Option Text} {o : OpenClass} {ls : List Text}

theorem head_of_body (h : Completes c n previous o ls) (hp : o.phase ≠ .head) :
    c.head = o.found.head ∧ c.headLast = o.found.headLast := by
  induction h with
  | close _ h => exact (OpenClass.read_head_of_body hp h).1 c mem_cons_self
  | keep _ h _ ih =>
    obtain ⟨hd, hl, hp'⟩ := (OpenClass.read_head_of_body hp h).2 _ rfl
    obtain ⟨hd', hl'⟩ := ih hp'
    exact ⟨hd'.trans hd, hl'.trans hl⟩

/-- A head that is open ends on the line that opens the first bracket, and is read with the lines up
    to there. -/
theorem head_of_head (h : Completes c n previous o ls) (hp : o.phase = .head) (hflat : o.HeadFlat)
    (hb : o.brackets.opened = false) :
    ∃ us line rest, ls = us ++ line :: rest ∧ '{' ∈ line ∧ c.headLast = some (n + us.length)
      ∧ Declaration.read { name := o.found.head.name }
          (join " " (o.headText :: (us ++ [line]).map trim)) = .ok c.head := by
  -- the line that opens the body, given what stands open or complete after it
  have hopens : ∀ {o : OpenClass} {n : Int} {previous : Option Text} {line : Text}
      {done : List SourceClass} {next : Option OpenClass}, o.phase = .head →
      o.brackets.opened = false → (o.brackets.feed line).opened →
      o.read n previous line false = .ok (done, next) →
      '{' ∈ line ∧ ∃ d, Declaration.read { name := o.found.head.name }
          (join " " (o.headText :: ([] ++ [line]).map trim)) = .ok d
        ∧ (∀ c ∈ done, c.head = d ∧ c.headLast = some n)
        ∧ ∀ o' ∈ next, o'.found.head = d ∧ o'.found.headLast = some n ∧ o'.phase ≠ .head := by
    intro o n previous line done next hp hb hfeed hread
    obtain ⟨o₁, h₁, hdone, hnext⟩ := OpenClass.read_head hread
    obtain ⟨hd, hl, hbody⟩ := OpenClass.readHead_later_line
      (o := { o with brackets := o.brackets.feed line }) hp hfeed h₁
    refine ⟨Brackets.brace_mem_of_feed_opened hb hfeed, o₁.found.head, ?_, ?_, ?_⟩
    · simpa [join_cons_cons] using hd
    · exact fun c hc => ⟨(hdone c hc).1, (hdone c hc).2.trans hl⟩
    · exact fun o' ho' => ⟨(hnext o' ho').1, (hnext o' ho').2.1.trans hl,
        (hnext o' ho').2.2 (by simp [hbody])⟩
  induction h with
  | @close n previous o line _ h =>
    have hfeed : (o.brackets.feed line).opened := by
      have := OpenClass.closed_of_read h
      rw [Brackets.closed, Bool.and_eq_true] at this
      exact this.1
    obtain ⟨hbrace, d, hd, hdone, -⟩ := hopens hp hb hfeed h
    obtain ⟨hhead, hlast⟩ := hdone c mem_cons_self
    exact ⟨[], line, [], rfl, hbrace, by simpa using hlast, hhead ▸ hd⟩
  | @keep n previous o o' line ls _ h hrest ih =>
    cases hfeed : (o.brackets.feed line).opened with
    | true =>
      obtain ⟨hbrace, d, hd, -, hnext⟩ := hopens hp hb hfeed h
      obtain ⟨hhead, hlast, hp'⟩ := hnext o' rfl
      obtain ⟨hc, hl⟩ := hrest.head_of_body hp'
      exact ⟨[], line, ls, rfl, hbrace, by simpa using hl.trans hlast,
        by rw [hc, hhead]; exact hd⟩
    | false =>
      obtain ⟨hp', htext, hbrackets, hhead, hflat'⟩ :=
        OpenClass.read_head_goes_on hp hflat hfeed h
      obtain ⟨us, l, rest, rfl, hbrace, hlast, hd⟩ := ih hp' hflat' (by rw [hbrackets, hfeed])
      refine ⟨line :: us, l, rest, rfl, hbrace, ?_, ?_⟩
      · rw [hlast, length_cons]
        congr 1
        omega
      · have hne : (us ++ [l]).map trim ≠ [] := by simp
        have htext : o'.headText = o.headText ++ " " ++ line.trim := htext
        rw [← hd, hhead, htext, join_cons hne, cons_append, map_cons,
          join_cons_cons, join_cons hne]
        simp only [append_assoc]

end Completes

variable {line text : Text} {c : SourceClass} {cs : List SourceClass}

theorem Declaration.readFrom_cons {d d₀ : Declaration} {more : List Text} (hne : more ≠ [])
    (h₀ : Declaration.read {} line = .ok d₀)
    (h : Declaration.read { name := d₀.name } (join " " ((line :: more).map trim)) = .ok d) :
    d.ReadFrom (line :: more) := by
  obtain ⟨l, more, rfl⟩ := exists_cons_of_ne_nil hne
  exact ⟨d₀, h₀, h⟩

/-- A class begins with its declaration, from which its head is read. -/
theorem FoundOn.head {n : Int} {ls : List Text} (h : FoundOn c n line ls) :
    ∃ us l rest, line :: ls = us ++ l :: rest ∧ '{' ∈ l ∧ c.headLast = some (n + us.length)
      ∧ c.head.ReadFrom (us ++ [l]) := by
  obtain ⟨-, o, hs, hread⟩ := h
  obtain ⟨hp, hbrackets, htext⟩ := OpenClass.openHead_start hs
  have hd : Declaration.read {} line = .ok o.found.head := by
    obtain ⟨d, hd, ho⟩ := bind_eq_ok.mp hs
    injection ho with ho
    rw [← ho]
    exact hd
  have hb : o.brackets.opened = false := by rw [hbrackets]
  cases hfeed : (o.brackets.feed line).opened with
  | true =>
    -- the declaration is this line
    refine ⟨[], line, ls, rfl, Brackets.brace_mem_of_feed_opened hb hfeed, ?_⟩
    have hhead : ∀ {done : List SourceClass} {next : Option OpenClass},
        o.read n none line true = .ok (done, next) →
        (∀ c ∈ done, c.head = o.found.head ∧ c.headLast = some n)
          ∧ ∀ o' ∈ next, o'.found.head = o.found.head ∧ o'.found.headLast = some n
            ∧ o'.phase ≠ .head := by
      intro done next hr
      obtain ⟨o₁, h₁, hdone, hnext⟩ := OpenClass.read_head hr
      obtain ⟨hd, hl, hbody⟩ := OpenClass.readHead_class_line
        (o := { o with brackets := o.brackets.feed line }) hp hfeed h₁
      exact ⟨fun c hc => ⟨(hdone c hc).1.trans hd, (hdone c hc).2.trans hl⟩,
        fun o' ho' => ⟨(hnext o' ho').1.trans hd, (hnext o' ho').2.1.trans hl,
          (hnext o' ho').2.2 (by simp [hbody])⟩⟩
    have hc : c.head = o.found.head ∧ c.headLast = some n := by
      rcases hread with ⟨rfl, hr⟩ | ⟨o', hr, hrest⟩
      · exact (hhead hr).1 c mem_cons_self
      · obtain ⟨hh, hl, hp'⟩ := (hhead hr).2 o' rfl
        obtain ⟨hh', hl'⟩ := hrest.head_of_body hp'
        exact ⟨hh'.trans hh, hl'.trans hl⟩
    exact ⟨by simpa using hc.2, show Declaration.read {} line = .ok c.head by rw [hc.1, hd]⟩
  | false =>
    rcases hread with ⟨-, hr⟩ | ⟨o', hr, hrest⟩
    · have hclosed := OpenClass.closed_of_read hr
      simp [Brackets.closed, hfeed] at hclosed
    · have hflat : o.HeadFlat := fun _ => by simp [hbrackets]
      obtain ⟨hp', htext', hbrackets', hhead, hflat'⟩ :=
        OpenClass.read_head_goes_on hp hflat hfeed hr
      obtain ⟨us, l, rest, rfl, hbrace, hlast, hc⟩ := hrest.head_of_head hp' hflat'
        (by rw [hbrackets', hfeed])
      refine ⟨line :: us, l, rest, rfl, hbrace, ?_, ?_⟩
      · rw [hlast, length_cons]
        congr 1
        omega
      · rw [hhead, htext', OpenClass.headWith, if_pos rfl, htext] at hc
        exact Declaration.readFrom_cons (by simp) hd hc

/-- **The head of a complete class is read from its first lines**, up to the one that opens the
    body. -/
theorem scan_head (h : scan text = .ok cs) (hc : c ∈ cs) (hlast : c.last ≠ none) :
    ∃ (s : Int) (us : List Text) (l : Text) (rest : List Text), c.first = some s
      ∧ c.content.lines = us ++ l :: rest ∧ '{' ∈ l ∧ c.headLast = some (s + us.length)
      ∧ c.head.ReadFrom (us ++ [l]) := by
  rcases scanLines_completes hlast text.lines 1 none none cs (by simp) h hc with
    ⟨o, mine, hno, -⟩ | ⟨above, line, mine, hpre, hfound⟩
  · cases hno
  · obtain ⟨hcontent, hfirst⟩ := hfound.content_eq
    obtain ⟨us, l, rest, hlines, hbrace, hhead, hread⟩ := hfound.head
    refine ⟨_, us, l, rest, hfirst, ?_, hbrace, hhead, hread⟩
    rw [hcontent, lines_unlines (cons_ne_nil _ _), hlines]
    exact fun l hl => not_mem_of_mem_lines (hpre.subset (mem_append_right above hl))

/-- The line on which the declaration ends has a curly bracket. -/
theorem scan_head_line (h : scan text = .ok cs) (hc : c ∈ cs) (hlast : c.last ≠ none) {s hl : Int}
    (hs : c.first = some s) (hh : c.headLast = some hl)
    (hline : c.content.lines[(hl - s).toNat]? = some line) : '{' ∈ line := by
  obtain ⟨s', us, l, rest, hs', hcontent, hbrace, hh', -⟩ := scan_head h hc hlast
  rw [hs, Option.some.injEq] at hs'
  rw [hh, Option.some.injEq] at hh'
  rw [hcontent, show (hl - s).toNat = us.length by omega, getElem?_append_right (Nat.le_refl _),
    Nat.sub_self, getElem?_cons_zero, Option.some.injEq] at hline
  rw [← hline]
  exact hbrace

end DartData
