import DartData.Proofs.Lexer.Reads
import DartData.Proofs.Text.Squeeze

/-!
# The code of a text and its places

The lexer reads lines; here it reads a text of several lines and keeps the places of what it finds.

  * `Text.code` is the code of a text, and `Bracket.net` counts how many more brackets of a kind the
    code opens than it closes.  Blanks around a text do not count (`Bracket.net_trim`).
  * `Text.marked` is the text itself, each character with the verdict of the lexer on it.
  * `Text.afterParens` is what stands after the round bracket that closes the first one, both in
    code.

Texts are put together line by line: where the lexer is in code at the end of a line
(`Text.Settles`), what follows is read as if it stood alone.
-/

namespace DartData

open List Text

/-! ## §1. Lines one after another. -/

namespace Lexer

/-- Reads lines one after another: the code of all of them and the state after the last. -/
def feedLines (s : Lexer) : List Text → Text × Lexer
  | [] => ([], s)
  | l :: ls => ((s.feed l).1 ++ (feedLines (s.feed l).2 ls).1, (feedLines (s.feed l).2 ls).2)

theorem feedLines_append (ls ms : List Text) (s : Lexer) :
    s.feedLines (ls ++ ms) = ((s.feedLines ls).1 ++ ((s.feedLines ls).2.feedLines ms).1,
      ((s.feedLines ls).2.feedLines ms).2) := by
  induction ls generalizing s with
  | nil => rfl
  | cons l ls ih =>
    rw [cons_append, feedLines, feedLines, ih, append_assoc]

theorem feedLines_sublist (ls : List Text) (s : Lexer) : (s.feedLines ls).1.Sublist ls.flatten := by
  induction ls generalizing s with
  | nil => exact List.Sublist.refl _
  | cons l ls ih =>
    rw [feedLines, flatten_cons]
    exact (s.feed_sublist l).append (ih _)

end Lexer

namespace Text

/-- The code of a text. -/
def code (t : Text) : Text := (Lexer.feedLines {} t.lines).1

/-- At the end of the text the lexer is in code, with no interpolation open. -/
def Settles (t : Text) : Prop := (Lexer.feedLines {} t.lines).2 = {}

instance (t : Text) : Decidable t.Settles := inferInstanceAs (Decidable (_ = _))

theorem lines_append_line (u w : Text) : (u ++ '\n' :: w).lines = u.lines ++ w.lines :=
  split_append_sep u w '\n'

theorem Settles.code_append {u : Text} (h : u.Settles) (w : Text) :
    (u ++ '\n' :: w).code = u.code ++ w.code := by
  rw [code, lines_append_line, Lexer.feedLines_append, show (Lexer.feedLines {} u.lines).2
    = {} from h]
  rfl

theorem settles_nil : Settles [] := rfl

theorem settles_of_reads {t code : Text} (h : Lexer.Reads t code) (hn : '\n' ∉ t) :
    t.Settles ∧ t.code = code := by
  rw [Settles, Text.code, lines_of_not_mem hn, Lexer.feedLines, h.feed_eq]
  exact ⟨rfl, append_nil _⟩

end Text

/-! ## §2. What stands in front of a text. -/

namespace Lexer

/-- Nothing in front that escapes a character or that a word could go on from. -/
def Neutral (before : Text) : Prop :=
  ∀ c, before.head? = some c → c ≠ '\\' ∧ isAlphanumeric c = false ∧ c ≠ '_'

theorem neutral_nil : Neutral [] := by simp [Neutral]

variable {b b' : Text} {c : Char}

/-- What is further in front than something neutral does not count. -/
theorem step_congr (hb : Neutral b) (hb' : Neutral b') (s : Lexer) (x : Text) (c : Char)
    (rest : Text) : s.step (x ++ b) c rest = s.step (x ++ b') c rest := by
  -- a step looks in front for two things only: backslashes, and the end of a word
  have hfree : ∀ b : Text, Neutral b → (b.takeWhile (· == '\\')) = [] ∧ afterWord b = false := by
    intro b hb
    cases b with
    | nil => exact ⟨rfl, rfl⟩
    | cons d b =>
      obtain ⟨h₁, h₂, h₃⟩ := hb d rfl
      simp [afterWord, h₁, h₂, h₃]
  have hesc : escaped (x ++ b) = escaped (x ++ b') := by
    have h : ∀ b : Text, Neutral b → (x ++ b).takeWhile (· == '\\') = x.takeWhile (· == '\\') := by
      intro b hb
      rw [takeWhile_append, (hfree b hb).1, append_nil]
      split
      · next he => exact ((List.takeWhile_prefix _).eq_of_length he).symm
      · rfl
    rw [escaped, escaped, h b hb, h b' hb']
  have hword : afterWord (x ++ b) = afterWord (x ++ b') := by
    cases x with
    | nil => rw [nil_append, nil_append, (hfree b hb).2, (hfree b' hb').2]
    | cons d x => rfl
  unfold step codeStep literalStep
  rw [hesc, hword]

/-- It does not matter which neutral text is in front. -/
theorem run_congr (hb : Neutral b) (hb' : Neutral b') (t : Text) (s : Lexer) (k : Nat) (x : Text) :
    s.run k (x ++ b) t = s.run k (x ++ b') t := by
  induction t generalizing s k x with
  | nil => rfl
  | cons c r ih =>
    have hx : ∀ (s : Lexer) (k : Nat), s.run k (c :: (x ++ b)) r = s.run k (c :: (x ++ b')) r :=
      fun s k => ih s k (c :: x)
    cases k with
    | succ k => exact hx s k
    | zero =>
      rw [run, run, step_congr hb hb']
      cases s.step (x ++ b') c r with
      | stop => rfl
      | take keep k next => simp only [hx]

/-- A character of code after which the lexer reads on as at the start of a line. -/
def isLead (c : Char) : Bool :=
  isCode c && c != 'r' && c != '\n' && c != '\\' && !isAlphanumeric c && c != '_'

theorem neutral_lead (h : isLead c) : Neutral [c] := by
  intro d hd
  obtain rfl : c = d := by simpa using hd
  simp only [isLead, Bool.and_eq_true, bne_iff_ne, ne_eq, Bool.not_eq_true'] at h
  exact ⟨h.1.1.2, h.1.2, h.2⟩

theorem step_lead (h : isLead c) (l : Text) : step {} [] c l = .take true 0 {} := by
  simp only [isLead, isCode, Bool.and_eq_true, bne_iff_ne, ne_eq, Option.isNone_iff_eq_none] at h
  obtain ⟨⟨⟨⟨⟨⟨hslash, hquote⟩, hr⟩, -⟩, -⟩, -⟩, -⟩ := h
  simp [step, codeStep, hslash, hr, hquote]

theorem feed_lead (h : isLead c) (l : Text) :
    feed {} (c :: l) = (c :: (feed {} l).1, (feed {} l).2) := by
  have hrun : run {} 0 [c] l = run {} 0 [] l := run_congr (neutral_lead h) neutral_nil l {} 0 []
  rw [feed, feed, run, step_lead h]
  simp only [hrun, if_true]

end Lexer

namespace Text

theorem lines_cons_of_ne {c : Char} (hc : c ≠ '\n') {t l : Text} {ls : List Text}
    (ht : t.lines = l :: ls) : lines (c :: t) = (c :: l) :: ls := split_cons_of_ne hc ht

theorem ne_feed_of_isLead {c : Char} (h : Lexer.isLead c) : c ≠ '\n' := by
  simp only [Lexer.isLead, Bool.and_eq_true, bne_iff_ne, ne_eq] at h
  exact h.1.1.1.2

/-- A leading character is code, and what follows it is read on its own. -/
theorem code_lead {c : Char} (h : Lexer.isLead c) (t : Text) :
    code (c :: t) = c :: t.code ∧ (Settles (c :: t) ↔ t.Settles) := by
  obtain ⟨l, ls, hl⟩ := exists_cons_of_ne_nil (lines_ne_nil t)
  rw [code, code, Settles, Settles, lines_cons_of_ne (ne_feed_of_isLead h) hl, hl, Lexer.feedLines,
    Lexer.feedLines, Lexer.feed_lead h]
  exact ⟨rfl, Iff.rfl⟩

theorem code_leads {u : Text} (h : u.all Lexer.isLead) (t : Text) :
    code (u ++ t) = u ++ t.code ∧ (Settles (u ++ t) ↔ t.Settles) := by
  induction u with
  | nil => exact ⟨rfl, Iff.rfl⟩
  | cons c u ih =>
    rw [all_cons, Bool.and_eq_true] at h
    obtain ⟨hcode, hsettles⟩ := ih h.2
    obtain ⟨hcode', hsettles'⟩ := code_lead h.1 (u ++ t)
    rw [cons_append, hcode', hcode]
    exact ⟨rfl, hsettles'.trans hsettles⟩

end Text

/-! ## §3. Blanks around a text. -/

theorem isAlphanumeric_of_isBlank {c : Char} (h : isBlank c) : isAlphanumeric c = false := by
  -- the blanks one by one
  have hall : ∀ n ∈ [0x09, 0x0A, 0x0B, 0x0C, 0x0D, 0x1C, 0x1D, 0x1E, 0x1F, 0x20, 0x85, 0xA0, 0x1680,
      0x2000, 0x2001, 0x2002, 0x2003, 0x2004, 0x2005, 0x2006, 0x2007, 0x2008, 0x2009, 0x200A,
      0x2028, 0x2029, 0x202F, 0x205F, 0x3000], (!isAlphanumeric (Char.ofNat n)) :=
    all_eq_true.mp (by decide +kernel)
  have hone := hall c.toNat (by
    simp only [isBlank, Bool.or_eq_true, Bool.and_eq_true, decide_eq_true_eq, beq_iff_eq] at h
    simp only [mem_cons, not_mem_nil, or_false]
    omega)
  rw [Char.ofNat_toNat] at hone
  simpa using hone

theorem ne_of_isBlank {c d : Char} (h : isBlank c) (hd : isBlank d = false) : c ≠ d := by
  rintro rfl
  simp [h] at hd

theorem isCode_of_isBlank {c : Char} (h : isBlank c) : Lexer.isCode c := by
  have h₁ := ne_of_isBlank h (d := '/') (by decide)
  have h₂ := ne_of_isBlank h (d := '\x27') (by decide)
  have h₃ := ne_of_isBlank h (d := '\x22') (by decide)
  simp [Lexer.isCode, Quote.ofChar?, h₁, h₂, h₃]

theorem isLead_of_isBlank {c : Char} (h : isBlank c) (hn : c ≠ '\n') : Lexer.isLead c := by
  have h₁ := ne_of_isBlank h (d := 'r') (by decide)
  have h₂ := ne_of_isBlank h (d := '\\') (by decide)
  have h₃ := ne_of_isBlank h (d := '_') (by decide)
  simp [Lexer.isLead, isCode_of_isBlank h, isAlphanumeric_of_isBlank h, h₁, h₂, h₃, hn]

namespace Lexer

/-- Blanks at the end of a line change no move. -/
theorem step_append_blank {b : Text} (hb : ∀ c ∈ b, isBlank c) (s : Lexer) (before : Text)
    (c : Char) (rest : Text) : s.step before c (rest ++ b) = s.step before c rest := by
  cases b with
  | nil => rw [append_nil]
  | cons d b =>
    have hd := hb d mem_cons_self
    have hhead : ∀ e, isBlank e = false →
        ((rest ++ d :: b).head? == some e) = (rest.head? == some e) := by
      intro e he
      cases rest with
      | nil => simpa using ne_of_isBlank hd he
      | cons f rest => rfl
    have hquote : (rest ++ d :: b).head?.bind Quote.ofChar? = rest.head?.bind Quote.ofChar? := by
      cases rest with
      | nil =>
        have h₂ := ne_of_isBlank hd (d := '\x27') (by decide)
        have h₃ := ne_of_isBlank hd (d := '\x22') (by decide)
        simp [Quote.ofChar?, h₂, h₃]
      | cons f rest => rfl
    -- a run of quotes does not reach into the blanks
    have hstarts : ∀ (n : Nat) (q : Quote) (u : Text),
        startsWith (u ++ d :: b) (replicate n q.char)
          = startsWith u (replicate n q.char) := by
      intro n q
      have hq : (q.char == d) = false := by
        rw [beq_eq_false_iff_ne]
        cases q <;> exact (ne_of_isBlank hd (by decide)).symm
      induction n with
      | zero => intro u; simp [startsWith]
      | succ n ih =>
        intro u
        rw [replicate_succ]
        cases u with
        | nil => simp [startsWith, isPrefixOf, hq]
        | cons f u =>
          simp only [startsWith, cons_append, isPrefixOf] at ih ⊢
          rw [ih u]
    have hopen : ∀ (q : Quote) (raw : Bool) (k : Nat) (u : Text),
        openLiteral s q raw k (u ++ d :: b) = openLiteral s q raw k u := by
      intro q raw k u
      rw [openLiteral, openLiteral, hstarts]
    have hcode : s.codeStep before c (rest ++ d :: b) = s.codeStep before c rest := by
      unfold codeStep
      rw [hhead '/' (by decide), hhead '*' (by decide), hquote, ← cons_append]
      simp only [hopen]
    have hlit : ∀ l : Literal, s.literalStep l before c (rest ++ d :: b)
        = s.literalStep l before c rest := by
      intro l
      unfold literalStep
      rw [hhead '{' (by decide), ← cons_append, Literal.closer, hstarts]
    unfold step
    rw [hcode, hhead '/' (by decide)]
    simp only [hlit]

/-- A blank leaves the state as it is; whether it is kept depends on the mode. -/
theorem step_blank {c : Char} (hc : isBlank c) (s : Lexer) (before rest : Text) :
    ∃ keep, s.step before c rest = .take keep 0 s := by
  have hne : ∀ d, isBlank d = false → c ≠ d := fun d hd => ne_of_isBlank hc hd
  have hquote : Quote.ofChar? c = none := by
    simp [Quote.ofChar?, hne '\x27' (by decide), hne '\x22' (by decide)]
  have hcode : s.codeStep before c rest = .take true 0 s := by
    simp [codeStep, hne '/' (by decide), hne 'r' (by decide), hquote]
  obtain ⟨mode, holes⟩ := s
  cases mode with
  | code =>
    cases holes with
    | nil => exact ⟨true, hcode⟩
    | cons h hs =>
      refine ⟨true, ?_⟩
      show (if c = '{' then _ else if c = '}' then _ else _) = _
      rw [if_neg (hne '{' (by decide)), if_neg (hne '}' (by decide)), hcode]
  | comment => exact ⟨false, by simp [step, hne '*' (by decide)]⟩
  | literal l =>
    have hclose : startsWith (c :: rest) l.closer = false := by
      obtain ⟨q, triple, raw⟩ := l
      have hq : (q.char == c) = false := by
        rw [beq_eq_false_iff_ne]
        cases q <;> exact (hne _ (by decide)).symm
      cases triple <;> simp [Literal.closer, startsWith, isPrefixOf, hq, replicate]
    exact ⟨false, by simp [step, literalStep, hclose, hne '$' (by decide)]⟩

theorem run_blank {b : Text} (hb : ∀ c ∈ b, isBlank c) (s : Lexer) (k : Nat) (before : Text) :
    (s.run k before b).2 = s := by
  induction b generalizing s k before with
  | nil => rfl
  | cons c b ih =>
    have ih := ih fun d hd => hb d (mem_cons_of_mem _ hd)
    cases k with
    | succ k => exact ih s k _
    | zero =>
      obtain ⟨keep, hstep⟩ := step_blank (hb c mem_cons_self) s before b
      rw [run, hstep]
      exact ih s 0 _

/-- Blanks at the end add blanks at most. -/
theorem run_append_blank {b : Text} (hb : ∀ c ∈ b, isBlank c) (l : Text) (s : Lexer)
    (k : Nat) (before : Text) :
    ∃ b', b'.Sublist b
      ∧ s.run k before (l ++ b) = ((s.run k before l).1 ++ b', (s.run k before l).2) := by
  induction l generalizing s k before with
  | nil =>
    exact ⟨_, run_sublist b s k before, Prod.ext rfl (run_blank hb s k before)⟩
  | cons c l ih =>
    cases k with
    | succ k => exact ih s k (c :: before)
    | zero =>
      rw [cons_append, run, run, step_append_blank hb]
      cases s.step before c l with
      | stop => exact ⟨[], nil_sublist b, rfl⟩
      | take keep k next =>
        obtain ⟨b', hsub, heq⟩ := ih next k (c :: before)
        refine ⟨b', hsub, ?_⟩
        simp only [heq]
        cases keep <;> rfl

end Lexer

/-! ## §4. Brackets in the code. -/

/-- The three kinds of brackets. -/
inductive Bracket where
  | curly
  | round
  | square
  deriving DecidableEq, Repr

namespace Bracket

theorem forall_iff {P : Bracket → Prop} : (∀ k, P k) ↔ P .curly ∧ P .round ∧ P .square :=
  ⟨fun h => ⟨h _, h _, h _⟩, fun h k => by
    cases k with
    | curly => exact h.1
    | round => exact h.2.1
    | square => exact h.2.2⟩

/-- The character that opens a bracket. -/
def opening : Bracket → Char
  | .curly => '{'
  | .round => '('
  | .square => '['

/-- The character that closes a bracket. -/
def closing : Bracket → Char
  | .curly => '}'
  | .round => ')'
  | .square => ']'

/-- How many more brackets of the kind a piece of code opens than it closes. -/
def excess (k : Bracket) (code : Text) : Int := (code.count k.opening : Int) - code.count k.closing

/-- How many more brackets of the kind the code of a text opens than it closes. -/
def net (k : Bracket) (t : Text) : Int := k.excess t.code

theorem excess_append (k : Bracket) (a b : Text) : k.excess (a ++ b) = k.excess a + k.excess b := by
  simp only [excess, count_append]
  omega

variable {b t : Text}

theorem excess_of_not_mem {k : Bracket} (ho : k.opening ∉ t) (hc : k.closing ∉ t) :
    k.excess t = 0 := by
  rw [excess, count_eq_zero.mpr ho, count_eq_zero.mpr hc]
  rfl

theorem excess_of_blank (h : ∀ c ∈ t, isBlank c) (k : Bracket) : k.excess t = 0 := by
  refine excess_of_not_mem (fun ho => ?_) fun hc => ?_
  · exact absurd (h _ ho) (by cases k <;> decide)
  · exact absurd (h _ hc) (by cases k <;> decide)

theorem net_append_line {u : Text} (h : u.Settles) (k : Bracket) (w : Text) :
    k.net (u ++ '\n' :: w) = k.net u + k.net w := by
  rw [net, h.code_append, excess_append]
  rfl

/-- Blanks in front do not count. -/
theorem net_blank_append (hb : ∀ c ∈ b, isBlank c) (k : Bracket) (t : Text) :
    k.net (b ++ t) = k.net t := by
  induction b with
  | nil => rfl
  | cons c b ih =>
    have ih := ih fun d hd => hb d (mem_cons_of_mem _ hd)
    have hc := hb c mem_cons_self
    by_cases hn : c = '\n'
    · -- an empty line in front
      subst hn
      have := net_append_line settles_nil k (b ++ t)
      rw [cons_append, show ('\n' :: (b ++ t)) = [] ++ '\n' :: (b ++ t) from rfl, this, ih,
        show k.net [] = 0 by cases k <;> rfl, Int.zero_add]
    · have hone : k.excess [c] = 0 :=
        excess_of_blank (fun d hd => mem_singleton.mp hd ▸ hc) k
      rw [cons_append, net, (code_lead (isLead_of_isBlank hc hn) _).1,
        ← singleton_append, excess_append, hone, Int.zero_add]
      exact ih

/-- Blanks at the end do not count, whatever state the text leaves the lexer in. -/
theorem net_append_blank (hb : ∀ c ∈ b, isBlank c) (k : Bracket) (t : Text) :
    k.net (t ++ b) = k.net t := by
  -- lines of blanks have no brackets
  have hlines : ∀ (s : Lexer) (b : Text), (∀ c ∈ b, isBlank c) →
      k.excess (s.feedLines b.lines).1 = 0 := by
    intro s b hb
    refine excess_of_blank (fun c hc => ?_) k
    obtain ⟨l, hl, hcl⟩ := mem_flatten.mp ((Lexer.feedLines_sublist b.lines s).subset hc)
    exact hb c (mem_of_mem_split l hl c hcl)
  -- the first line of them continues the last line of the text
  have hfirst : ∀ b : Text, (∀ c ∈ b, isBlank c) → '\n' ∉ b → k.net (t ++ b) = k.net t := by
    intro b hb hn
    obtain ⟨ls, l, hl⟩ : ∃ ls l, t.lines = ls ++ [l] :=
      ⟨_, _, (dropLast_concat_getLast (lines_ne_nil t)).symm⟩
    have hlast : (t ++ b).lines = ls ++ [l ++ b] := by
      have hjoin : t = unlines (ls ++ [l]) := by
        rw [← hl]
        exact (join_split t '\n').symm
      have hnl : ∀ m ∈ ls ++ [l], '\n' ∉ m := fun m hm => not_mem_of_mem_lines (hl ▸ hm)
      rw [hjoin, ← endLines_append_eq_unlines, append_assoc,
        endLines_append_eq_unlines, lines_unlines (by simp)]
      intro m hm
      rcases mem_append.mp hm with hm | hm
      · exact hnl m (mem_append_left _ hm)
      · rw [mem_singleton.mp hm, mem_append, not_or]
        exact ⟨hnl l (by simp), hn⟩
    obtain ⟨b', hsub, hrun⟩ := Lexer.run_append_blank hb l (Lexer.feedLines {} ls).2 0 []
    have hb' : k.excess b' = 0 := excess_of_blank (fun c hc => hb c (hsub.subset hc)) k
    rw [net, net, code, code, hl, hlast, Lexer.feedLines_append, Lexer.feedLines_append,
      excess_append, excess_append]
    simp only [Lexer.feedLines, Lexer.feed, hrun, append_nil, excess_append, hb', Int.add_zero]
  by_cases hn : '\n' ∈ b
  · obtain ⟨b₀, b₁, rfl, h₀⟩ := eq_append_cons_of_mem hn
    rw [net, code, ← append_assoc, lines_append_line, Lexer.feedLines_append,
      excess_append, hlines _ b₁ fun c hc => hb c (by simp [hc]), Int.add_zero]
    exact hfirst b₀ (fun c hc => hb c (by simp [hc])) h₀
  · exact hfirst b hb hn

/-- **The brackets of a text are those of the text without the blanks around it.** -/
theorem net_trim (k : Bracket) (t : Text) : k.net t.trim = k.net t := by
  obtain ⟨a, b, ha, hb, ht⟩ := exists_trim t
  conv => rhs; rw [ht, net_blank_append ha, net_append_blank hb]

end Bracket

/-! ## §5. Marks. -/

namespace Lexer

/-- The characters of the rest of a line, each with whether it is code. -/
def marks (s : Lexer) (skip : Nat) (before : Text) : Text → List (Char × Bool)
  | [] => []
  | c :: rest =>
    match skip with
    | k + 1 => (c, false) :: marks s k (c :: before) rest
    | 0 =>
      match s.step before c rest with
      | .stop => (c :: rest).map fun d => (d, false)
      | .take keep k next => (c, keep) :: marks next k (c :: before) rest

theorem marks_text (t : Text) (s : Lexer) (k : Nat) (before : Text) :
    (s.marks k before t).map Prod.fst = t := by
  induction t generalizing s k before with
  | nil => rfl
  | cons c r ih =>
    cases k with
    | succ k => rw [marks, map_cons, ih]
    | zero =>
      rw [marks]
      cases s.step before c r with
      | stop => simp only [map_map, Function.comp_def, map_id']
      | take keep k next => simp only [map_cons, ih]

/-- The characters that are marked are the code. -/
theorem marks_code (t : Text) (s : Lexer) (k : Nat) (before : Text) :
    ((s.marks k before t).filter Prod.snd).map Prod.fst = (s.run k before t).1 := by
  induction t generalizing s k before with
  | nil => rfl
  | cons c r ih =>
    cases k with
    | succ k => exact ih s k (c :: before)
    | zero =>
      rw [marks, run]
      cases s.step before c r with
      | stop =>
        have hnone : ((c :: r).map fun d => (d, false)).filter Prod.snd = [] := by
          rw [filter_eq_nil_iff]
          intro x hx
          obtain ⟨d, -, rfl⟩ := mem_map.mp hx
          simp
        simp only [hnone, map_nil]
      | take keep k next =>
        cases keep with
        | true => simp only [filter_cons, if_true, map_cons, ih]
        | false => simp only [filter_cons, Bool.false_eq_true, if_false, ih]

/-- The same for marks. -/
theorem marks_congr {b b' : Text} (hb : Neutral b) (hb' : Neutral b') (t : Text) (s : Lexer)
    (k : Nat) (x : Text) : s.marks k (x ++ b) t = s.marks k (x ++ b') t := by
  induction t generalizing s k x with
  | nil => rfl
  | cons c r ih =>
    have hx : ∀ (s : Lexer) (k : Nat), s.marks k (c :: (x ++ b)) r = s.marks k (c :: (x ++ b')) r :=
      fun s k => ih s k (c :: x)
    cases k with
    | succ k => rw [marks, marks, hx]
    | zero =>
      rw [marks, marks, step_congr hb hb']
      cases s.step (x ++ b') c r with
      | stop => rfl
      | take keep k next => simp only [hx]

theorem marks_lead {c : Char} (h : isLead c) (l : Text) :
    marks {} 0 [] (c :: l) = (c, true) :: marks {} 0 [] l := by
  have hl : marks {} 0 [c] l = marks {} 0 [] l := marks_congr (neutral_lead h) neutral_nil l {} 0 []
  rw [marks, step_lead h]
  simp only [hl]

/-- Lines one after another, the line feeds between them being no code. -/
def markLines (s : Lexer) : List Text → List (Char × Bool)
  | [] => []
  | [l] => s.marks 0 [] l
  | l :: m :: ls => s.marks 0 [] l ++ ('\n', false) :: markLines (s.feed l).2 (m :: ls)

/-- The marks of lines one below another. -/
theorem markLines_append {ms : List Text} (hms : ms ≠ []) (ls : List Text) (s : Lexer)
    (h : ls ≠ []) :
    s.markLines (ls ++ ms)
      = s.markLines ls ++ ('\n', false) :: (s.feedLines ls).2.markLines ms := by
  induction ls generalizing s with
  | nil => exact absurd rfl h
  | cons l ls ih =>
    cases ls with
    | nil =>
      obtain ⟨m, ms, rfl⟩ := exists_cons_of_ne_nil hms
      rfl
    | cons l' ls =>
      show s.marks 0 [] l ++ ('\n', false) :: (s.feed l).2.markLines ((l' :: ls) ++ ms) = _
      rw [ih _ (by simp), markLines, append_assoc, cons_append]
      rfl

theorem markLines_text (ls : List Text) (s : Lexer) :
    (s.markLines ls).map Prod.fst = unlines ls := by
  induction ls generalizing s with
  | nil => rfl
  | cons l ls ih =>
    cases ls with
    | nil => simp [markLines, marks_text, unlines]
    | cons m ls =>
      rw [markLines, map_append, map_cons, marks_text, ih, unlines, unlines,
        join_cons_cons, append_assoc]
      rfl

theorem markLines_code (ls : List Text) (s : Lexer) :
    ((s.markLines ls).filter Prod.snd).map Prod.fst = (s.feedLines ls).1 := by
  induction ls generalizing s with
  | nil => rfl
  | cons l ls ih =>
    cases ls with
    | nil =>
      rw [markLines, marks_code, feedLines]
      simp [feed, feedLines]
    | cons m ls =>
      rw [markLines, filter_append, map_append, marks_code, feedLines, ← ih]
      simp [feed]

end Lexer

namespace Text

/-- The characters of a text, each with whether it is code. -/
def marked (t : Text) : List (Char × Bool) := Lexer.markLines {} t.lines

theorem marked_text (t : Text) : t.marked.map Prod.fst = t := by
  rw [marked, Lexer.markLines_text]
  exact join_split t '\n'

theorem marked_code (t : Text) : (t.marked.filter Prod.snd).map Prod.fst = t.code :=
  Lexer.markLines_code _ _

theorem Settles.marked_append {u : Text} (h : u.Settles) (w : Text) :
    (u ++ '\n' :: w).marked = u.marked ++ ('\n', false) :: w.marked := by
  rw [marked, lines_append_line, Lexer.markLines_append (lines_ne_nil w) _ _ (lines_ne_nil u),
    show (Lexer.feedLines {} u.lines).2 = {} from h]
  rfl

theorem marked_lead {c : Char} (h : Lexer.isLead c) (t : Text) :
    marked (c :: t) = (c, true) :: t.marked := by
  obtain ⟨l, ls, hl⟩ := exists_cons_of_ne_nil (lines_ne_nil t)
  rw [marked, marked, lines_cons_of_ne (ne_feed_of_isLead h) hl, hl]
  cases ls with
  | nil => exact Lexer.marks_lead h l
  | cons m ls => rw [Lexer.markLines, Lexer.markLines, Lexer.marks_lead h, Lexer.feed_lead h]; rfl

/-! ## §6. The round bracket that closes the first one. -/

/-- What stands after the bracket that brings the depth back to zero, if `depth` round brackets are
    open now. -/
def afterClose (depth : Nat) : List (Char × Bool) → Option Text
  | [] => none
  | (c, isCode) :: r =>
    if isCode && c == '(' then afterClose (depth + 1) r
    else if isCode && c == ')' then
      if depth = 1 then some (r.map Prod.fst) else afterClose (depth - 1) r
    else afterClose depth r

/-- What stands after the round bracket that closes the first one of the code. -/
def afterParens (t : Text) : Option Text := afterClose 0 t.marked

/-- The number of round brackets open after a piece of code, if `depth` are open before it and none
    of the others is closed in it. -/
def nest (depth : Nat) : Text → Option Nat
  | [] => some depth
  | c :: r =>
    if c = '(' then nest (depth + 1) r
    else if c = ')' then if depth = 0 then none else nest (depth - 1) r
    else nest depth r

/-- Code that closes no round bracket. -/
theorem afterClose_of_not_mem {m : List (Char × Bool)} (r : List (Char × Bool)) :
    ∀ {d : Nat}, ')' ∉ (m.filter Prod.snd).map Prod.fst → afterClose d (m ++ r)
        = afterClose (d + ((m.filter Prod.snd).map Prod.fst).count '(') r := by
  induction m with
  | nil => intro d _; rfl
  | cons x m ih =>
    intro d h
    obtain ⟨c, isCode⟩ := x
    cases isCode with
    | false => exact ih h
    | true =>
      rw [filter_cons_of_pos (by rfl), map_cons, mem_cons, not_or] at h
      rw [cons_append, afterClose, filter_cons_of_pos (by rfl), map_cons,
        count_cons]
      simp only [Bool.true_and, beq_iff_eq]
      rw [if_neg (Ne.symm h.1), ih h.2, ih h.2]
      split
      · rw [Nat.add_assoc, Nat.add_comm 1]
      · rfl

/-- Outside of the first bracket, brackets that are opened and closed are passed over. -/
theorem afterClose_append {m : List (Char × Bool)} (r : List (Char × Bool)) {d e : Nat}
    (h : nest d ((m.filter Prod.snd).map Prod.fst) = some e) :
    afterClose (d + 1) (m ++ r) = afterClose (e + 1) r := by
  induction m generalizing d e with
  | nil =>
    obtain rfl : d = e := by simpa [nest] using h
    rfl
  | cons x m ih =>
    obtain ⟨c, isCode⟩ := x
    -- only brackets of the code count
    cases isCode with
    | false => exact ih h
    | true =>
      rw [filter_cons_of_pos (by rfl), map_cons, nest] at h
      rw [cons_append, afterClose]
      simp only [Bool.true_and, beq_iff_eq]
      split at h
      next hc =>
        rw [if_pos hc]
        exact ih h
      next ho =>
        rw [if_neg ho]
        split at h
        next hc =>
          split at h
          next => cases h
          next hd =>
            rw [if_pos hc, if_neg (by omega)]
            have := ih h
            rwa [show d - 1 + 1 = d + 1 - 1 by omega] at this
        next hc =>
          rw [if_neg hc]
          exact ih h

/-- A closing bracket stands in front of the tail. -/
theorem exists_of_afterClose (m : List (Char × Bool)) {d : Nat} {tail : Text}
    (h : afterClose d m = some tail) : ∃ u, m.map Prod.fst = u ++ ')' :: tail := by
  induction m generalizing d tail with
  | nil => cases h
  | cons x m ih =>
    obtain ⟨c, isCode⟩ := x
    have hcons : ∀ {d : Nat}, afterClose d m = some tail →
        ∃ u, ((c, isCode) :: m).map Prod.fst = u ++ ')' :: tail := by
      intro d h
      obtain ⟨u, hu⟩ := ih h
      exact ⟨c :: u, by rw [map_cons, hu]; rfl⟩
    rw [afterClose] at h
    split at h
    next => exact hcons h
    next =>
      split at h
      next hc =>
        split at h
        next =>
          have hc : c = ')' := by
            simp only [Bool.and_eq_true, beq_iff_eq] at hc
            exact hc.2
          rw [Option.some.injEq] at h
          exact ⟨[], by rw [map_cons, hc, h]; rfl⟩
        next => exact hcons h
      next => exact hcons h

theorem exists_of_afterParens {t tail : Text} (h : t.afterParens = some tail) :
    ∃ u, t = u ++ ')' :: tail := by
  obtain ⟨u, hu⟩ := exists_of_afterClose _ h
  exact ⟨u, by rw [← hu, marked_text]⟩

/-- A text that opens and closes round brackets in order, and after which the lexer is in code. -/
structure Closed (t : Text) : Prop where
  settles : t.Settles
  nest_eq : nest 0 t.code = some 0

instance (t : Text) : Decidable t.Closed :=
  decidable_of_iff (t.Settles ∧ nest 0 t.code = some 0) ⟨fun h => ⟨h.1, h.2⟩, fun h => ⟨h.1, h.2⟩⟩

/-- Lines that are closed are passed over. -/
theorem afterClose_endLines {ls : List Text} (h : ∀ l ∈ ls, l.Closed) (w : Text) :
    afterClose 1 (endLines ls ++ w).marked = afterClose 1 w.marked := by
  induction ls with
  | nil => rfl
  | cons l ls ih =>
    have hl := h l mem_cons_self
    rw [endLines_cons, append_assoc, cons_append, hl.settles.marked_append,
      afterClose_append (e := 0) _ (by rw [marked_code]; exact hl.nest_eq)]
    show afterClose 1 (endLines ls ++ w).marked = _
    exact ih (forall_mem_cons.mp h).2

end Text

end DartData
