import DartData.Proofs.Lexer.Code

/-!
# Reading code piece by piece

A line is mostly put together from pieces, so what the lexer gives back of it is best said piece by
piece.  `Lexer.Reads t code` says that the lexer, outside of comments and literals, passes over `t`
and keeps `code`.  A literal is read together with the character in front of it, which must not be
the `r` of a raw literal.

`Text.Adds` counts brackets in the code of a piece, and `Text.Tame` is what the lines of generated
members are made of.
-/

namespace DartData

open List Text

/-- A text without the pair `xy`, seen from its first character: neither does the pair stand across
    its end, if what follows does not begin with `y`. -/
theorem Text.cons_without_pair {x y c : Char} {w rest : Text} (h : has (c :: w) [x, y] = false)
    (hrest : rest.head? ≠ some y) :
    has w [x, y] = false ∧ ¬ (c = x ∧ (w ++ rest).head? = some y) := by
  have hnone : ¬ [x, y] <:+: c :: w := by
    rw [← has_iff, h]
    exact Bool.false_ne_true
  constructor
  · rw [Bool.eq_false_iff, ne_eq, has_iff]
    exact fun hw => hnone (hw.trans (suffix_cons c w).isInfix)
  · rintro ⟨rfl, hhead⟩
    cases w with
    | nil => exact hrest hhead
    | cons d w =>
      obtain rfl : d = y := Option.some.inj hhead
      exact hnone (List.IsPrefix.isInfix ⟨w, rfl⟩)

theorem Quote.char_ne (q : Quote) : q.char ≠ '$' ∧ q.char ≠ '\\' ∧ q.char ≠ '\x7b' := by
  cases q <;> decide

namespace Lexer

/-! ## §1. Reading on. -/

/-- What is read after some code that is kept. -/
def keeping (code : Text) (r : Text × Lexer) : Text × Lexer := (code ++ r.1, r.2)

@[simp] theorem keeping_nil (r : Text × Lexer) : keeping [] r = r := rfl

@[simp] theorem keeping_keeping (a b : Text) (r : Text × Lexer) :
    keeping a (keeping b r) = keeping (a ++ b) r := by
  simp [keeping]

/-- The text does not begin with a quote. -/
def Unquoted (t : Text) : Prop := t.head?.bind Quote.ofChar? = none

/-- A character that is code by itself. -/
def isCode (c : Char) : Bool := c != '/' && (Quote.ofChar? c).isNone

section

variable {before rest w : Text} {c : Char} {l : Literal} {hs : List Hole} {q : Quote}

theorem run_cons {s next : Lexer} {keep : Bool} {skip : Nat}
    (h : s.step before c rest = .take keep skip next) :
    s.run 0 before (c :: rest)
      = keeping (if keep then [c] else []) (next.run skip (c :: before) rest) := by
  rw [run, h]
  cases keep <;> rfl

theorem run_skip (s : Lexer) (t : Text) :
    ∀ before rest, s.run t.length before (t ++ rest) = s.run 0 (t.reverse ++ before) rest := by
  induction t with
  | nil => intro before rest; rfl
  | cons c t ih =>
    intro before rest
    rw [length_cons, cons_append, run, ih]
    simp

/-- In code, a character is kept unless it begins something else. -/
theorem codeStep_code (hc : isCode c) (hr : c = 'r' → Unquoted rest) (s : Lexer) (before : Text) :
    s.codeStep before c rest = .take true 0 s := by
  simp only [isCode, Bool.and_eq_true, bne_iff_ne, ne_eq, Option.isNone_iff_eq_none] at hc
  obtain ⟨hslash, hquote⟩ := hc
  have hraw : (if (decide (c = 'r') && !afterWord before) then rest.head?.bind Quote.ofChar?
      else none) = none := by
    split
    next h =>
      rw [Bool.and_eq_true, decide_eq_true_eq] at h
      exact hr h.1
    next => rfl
  rw [codeStep, hraw, hquote]
  simp [hslash]

theorem closer_eq_cons (l : Literal) :
    l.closer = l.quote.char :: replicate (l.closer.length - 1) l.quote.char := by
  obtain ⟨q, triple, raw⟩ := l
  cases triple <;> rfl

theorem not_startsWith_closer (hc : c ≠ l.quote.char) (rest : Text) :
    startsWith (c :: rest) l.closer = false := by
  rw [startsWith, closer_eq_cons]
  simp [isPrefixOf, Ne.symm hc]

/-- A piece of a literal, up to something that does not end an interpolation mark. -/
theorem run_piece : ∀ before rest, l.quote.char ∉ w →
      (l.raw = false → has w ['$', '\x7b'] = false ∧ rest.head? ≠ some '\x7b') →
      run { mode := .literal l, holes := hs } 0 before (w ++ rest)
        = run { mode := .literal l, holes := hs } 0 (w.reverse ++ before) rest := by
  induction w with
  | nil => intro before rest _ _; rfl
  | cons c w ih =>
    intro before rest hq hholes
    have hc : c ≠ l.quote.char := fun h => hq (h ▸ mem_cons_self)
    -- no interpolation begins at `c`, as no brace follows a `$`
    have hno : (!l.raw && (l.raw || !escaped before) && decide (c = '$')
        && ((w ++ rest).head? == some '\x7b')) = false := by
      cases hraw : l.raw with
      | true => rfl
      | false =>
        have hpair := (cons_without_pair (hholes hraw).1 (hholes hraw).2).2
        rw [Bool.eq_false_iff]
        intro hall
        simp only [Bool.and_eq_true, decide_eq_true_eq, beq_iff_eq] at hall
        exact hpair ⟨hall.1.2, hall.2⟩
    have hstep : step { mode := .literal l, holes := hs } before c (w ++ rest)
        = .take false 0 { mode := .literal l, holes := hs } := by
      unfold step literalStep
      dsimp only
      rw [not_startsWith_closer hc, hno]
      rfl
    rw [cons_append, run_cons hstep, ih _ _ (fun h => hq (mem_cons_of_mem _ h))
      fun hraw => ⟨(cons_without_pair (hholes hraw).1 (hholes hraw).2).1, (hholes hraw).2⟩]
    simp

/-- Nothing is escaped without a backslash in front of it. -/
theorem escaped_eq_false (h : before.head? ≠ some '\\') : escaped before = false := by
  cases before with
  | nil => rfl
  | cons b before =>
    have hne : b ≠ '\\' := by simpa using h
    simp [escaped, hne]

/-- The quotes that end a literal. -/
theorem run_closer (h : l.raw ∨ before.head? ≠ some '\\') (rest : Text) :
    run { mode := .literal l, holes := hs } 0 before (l.closer ++ rest)
      = run { mode := .code, holes := hs } 0 (l.closer.reverse ++ before) rest := by
  have hplain : (l.raw || !escaped before) := by
    rcases h with h | h
    · simp [h]
    · simp [escaped_eq_false h]
  have hstep : ∀ c t, l.closer = c :: t →
      step { mode := .literal l, holes := hs } before c (t ++ rest)
        = .take false t.length { mode := .code, holes := hs } := by
    intro c t hct
    have hstarts : startsWith (c :: (t ++ rest)) l.closer :=
      startsWith_iff.mpr ⟨rest, by rw [hct]; rfl⟩
    unfold step literalStep
    dsimp only
    rw [hstarts, hplain, hct]
    rfl
  have hcons := closer_eq_cons l
  rw [hcons, cons_append, run_cons (hstep _ _ hcons), run_skip]
  simp

/-- The quotes that begin a literal. -/
theorem run_opener {triple : Bool} (h : triple ∨ rest.startsWith [q.char, q.char] = false)
    (before : Text) :
    run {} 0 before (Literal.closer ⟨q, triple, false⟩ ++ rest)
      = run { mode := .literal ⟨q, triple, false⟩ } 0
        ((Literal.closer ⟨q, triple, false⟩).reverse ++ before) rest := by
  have hopen : ∀ t, step {} before q.char t = openLiteral {} q false 0 (q.char :: t) := by
    intro t
    cases q <;> rfl
  cases triple with
  | true =>
    have hstarts : startsWith (q.char :: ([q.char, q.char] ++ rest)) (replicate 3 q.char) :=
      startsWith_iff.mpr ⟨rest, rfl⟩
    have hstep : step {} before q.char ([q.char, q.char] ++ rest)
        = .take false 2 { mode := .literal ⟨q, true, false⟩ } := by
      rw [hopen, openLiteral, hstarts]
      rfl
    exact (run_cons hstep).trans (run_skip _ [q.char, q.char] _ rest)
  | false =>
    have hnot := h.resolve_left Bool.false_ne_true
    have hstarts : startsWith (q.char :: rest) (replicate 3 q.char) = false := by
      simpa [startsWith, isPrefixOf] using hnot
    have hstep : step {} before q.char rest
        = .take false 0 { mode := .literal ⟨q, false, false⟩ } := by
      rw [hopen, openLiteral, hstarts]
      rfl
    exact run_cons hstep

theorem head?_reverse_append_ne (hw : '\\' ∉ w) (hb : before.head? ≠ some '\\') :
    (w.reverse ++ before).head? ≠ some '\\' := by
  rw [head?_append, head?_reverse]
  cases hlast : w.getLast? with
  | none => simpa using hb
  | some c =>
    rintro ⟨⟩
    exact hw (mem_of_getLast? hlast)

/-- Two quotes do not follow the first one: where nothing stands between them, the second is not
    followed by a third. -/
theorem not_startsWith_quotes {q : Char} (hw : q ∉ w) (h : w = [] → rest.head? ≠ some q) :
    startsWith (w ++ q :: rest) [q, q] = false := by
  cases w with
  | nil =>
    cases rest with
    | nil => simp [startsWith, isPrefixOf]
    | cons d rest =>
      have hd : d ≠ q := by simpa using h rfl
      simp [startsWith, isPrefixOf, hd.symm]
  | cons c w =>
    have hc : q ≠ c := fun hqc => hw (hqc ▸ mem_cons_self)
    simp [startsWith, isPrefixOf, hc]

end

/-! ## §2. Pieces. -/

theorem Unquoted.append {t u : Text} (ht : Unquoted t) (hu : Unquoted u) : Unquoted (t ++ u) := by
  cases t with
  | nil => exact hu
  | cons c t => exact ht

/-- In code, the lexer keeps `code` of the piece `t` and is in code again after it, whatever stands
    around the piece.  Only a quote must not follow, which the last character might belong to. -/
structure Reads (t code : Text) : Prop where
  unquoted : Unquoted t
  run_eq : ∀ before rest, Unquoted rest → run {} 0 before (t ++ rest)
    = (code ++ (run {} 0 (t.reverse ++ before) rest).1,
      (run {} 0 (t.reverse ++ before) rest).2)

theorem reads_nil : Reads [] [] := ⟨rfl, fun _ _ _ => rfl⟩

theorem Reads.append {t u c d : Text} (ht : Reads t c) (hu : Reads u d) :
    Reads (t ++ u) (c ++ d) where
  unquoted := ht.unquoted.append hu.unquoted
  run_eq := by
    intro before rest hrest
    rw [append_assoc, ht.run_eq before (u ++ rest) (hu.unquoted.append hrest),
      hu.run_eq (t.reverse ++ before) rest hrest, reverse_append, append_assoc,
      append_assoc]

theorem reads_char {c : Char} (h : isCode c) : Reads [c] [c] where
  unquoted := by
    simp only [isCode, Bool.and_eq_true, Option.isNone_iff_eq_none] at h
    exact h.2
  run_eq := by
    intro before rest hrest
    have hstep : step {} before c rest = .take true 0 {} :=
      codeStep_code h (fun _ => hrest) {} before
    exact run_cons hstep

theorem reads_code {t : Text} (h : t.all isCode) : Reads t t := by
  induction t with
  | nil => exact reads_nil
  | cons c t ih =>
    rw [all_cons, Bool.and_eq_true] at h
    exact (reads_char h.1).append (ih h.2)

/-- A character that stands in a literal as itself. -/
def isInert (c : Char) : Bool := c != '\x27' && c != '\\' && c != '{'

/-- A literal with the character in front of it. -/
def quoted (c : Char) (w : Text) : Text := c :: '\x27' :: (w ++ ['\x27'])

/-- A literal in single quotes is erased. -/
theorem reads_quoted {c : Char} {w : Text} (hc : isCode c) (hr : c ≠ 'r')
    (hw : w.all isInert) : Reads (quoted c w) [c] := by
  have hne : ∀ d, isInert d = false → d ∉ w := fun _ => not_mem_of_all hw
  refine ⟨(reads_char hc).unquoted, fun before rest hrest => ?_⟩
  have hfirst : step {} before c ('\x27' :: (w ++ '\x27' :: rest)) = .take true 0 {} :=
    codeStep_code hc (fun h => absurd h hr) {} before
  -- three quotes in a row would need an empty literal and a quote after it
  have htwo : startsWith (w ++ '\x27' :: rest) ['\x27', '\x27'] = false := by
    refine not_startsWith_quotes (hne _ (by decide)) fun _ hquote => ?_
    simp [Unquoted, hquote, Quote.ofChar?] at hrest
  have hopen := @run_opener (w ++ '\x27' :: rest) .single false (.inr htwo) (c :: before)
  have hpiece := @run_piece w ⟨.single, false, false⟩ [] ('\x27' :: c :: before) ('\x27' :: rest)
    (hne _ (by decide))
    fun _ => ⟨has_eq_false_of_not_mem (c := '{') (by simp) (hne _ (by decide)), by simp⟩
  have hclose := @run_closer (w.reverse ++ '\x27' :: c :: before) ⟨.single, false, false⟩ []
    (.inr (head?_reverse_append_ne (hne _ (by decide)) (by simp))) rest
  have hline : quoted c w ++ rest = c :: '\x27' :: (w ++ '\x27' :: rest) := by simp [quoted]
  rw [hline, run_cons hfirst]
  refine congrArg (keeping [c]) (hopen.trans (hpiece.trans (hclose.trans ?_)))
  simp [quoted, Literal.closer, Quote.char]

theorem Reads.feed_eq {t code : Text} (h : Reads t code) : feed {} t = (code, {}) := by
  have hrun := h.run_eq [] [] rfl
  simp only [append_nil] at hrun
  rw [feed, hrun]
  simp [run, endLine]

end Lexer

/-! ## §3. Brackets. -/

namespace Text

/-- In the code of the piece, brackets are opened by `o` and closed by `c`, and `k` more of them are
    opened than closed. -/
def Adds (o c : Char) (t : Text) (k : Int) : Prop :=
  ∃ code, Lexer.Reads t code ∧ (code.count o : Int) - code.count c = k

theorem Adds.append {o c : Char} {t u : Text} {j k : Int} (ht : Adds o c t j) (hu : Adds o c u k) :
    Adds o c (t ++ u) (j + k) := by
  obtain ⟨x, hx, rfl⟩ := ht
  obtain ⟨y, hy, rfl⟩ := hu
  refine ⟨x ++ y, hx.append hy, ?_⟩
  rw [count_append, count_append]
  omega

theorem adds_code {t : Text} (h : t.all Lexer.isCode) (o c : Char) :
    Adds o c t ((t.count o : Int) - t.count c) := ⟨t, Lexer.reads_code h, rfl⟩

theorem adds_quoted {d : Char} {w : Text} {o c : Char} (hd : Lexer.isCode d) (hr : d ≠ 'r')
    (ho : d ≠ o) (hc : d ≠ c) (hw : w.all Lexer.isInert) :
    Adds o c (Lexer.quoted d w) 0 := by
  refine ⟨[d], Lexer.reads_quoted hd hr hw, ?_⟩
  simp [ho, hc]

end Text

namespace Brackets

variable {b : Brackets} {line : Text} {k : Int}

theorem feed_lexer {o c : Char} (hb : b.lexer = {}) (h : Adds o c line k) :
    (b.feed line).lexer = {} := by
  obtain ⟨code, hr, -⟩ := h
  simp [feed, hb, hr.feed_eq]

theorem feed_curly (hb : b.lexer = {}) (h : Adds '{' '}' line k) :
    (b.feed line).curly = b.curly + k := by
  obtain ⟨code, hr, hk⟩ := h
  simp only [feed, countsOf, hb, hr.feed_eq, BracketCounts.ofCode]
  omega

theorem feed_paren (hb : b.lexer = {}) (h : Adds '(' ')' line k) :
    (b.feed line).paren = b.paren + k := by
  obtain ⟨code, hr, hk⟩ := h
  simp only [feed, countsOf, hb, hr.feed_eq, BracketCounts.ofCode]
  omega

end Brackets

/-! ## §4. Pieces of generated lines. -/

namespace Text

/-- A piece of one line without annotations, with `k` more curly brackets opened than closed. -/
structure Tame (t : Text) (k : Int) : Prop where
  adds : Adds '{' '}' t k
  no_mark : '@' ∉ t
  no_feed : '\n' ∉ t
  no_slash : '/' ∉ t

/-- A character that a piece can have outside of literals. -/
def isTame (c : Char) : Bool := Lexer.isCode c && c != '@' && c != '\n'

variable {t u : Text} {k : Int}

theorem Tame.append {j : Int} (ht : Tame t j) (hu : Tame u k) : Tame (t ++ u) (j + k) where
  adds := ht.adds.append hu.adds
  no_mark := by simp [ht.no_mark, hu.no_mark]
  no_feed := by simp [ht.no_feed, hu.no_feed]
  no_slash := by simp [ht.no_slash, hu.no_slash]

/-- Characters that no line of a generated class has. -/
def unwrittenChars : List Char := ['\n', '/']

theorem Tame.not_mem (h : Tame t k) {d : Char} (hd : d ∈ unwrittenChars) : d ∉ t := by
  simp only [unwrittenChars, mem_cons, not_mem_nil, or_false] at hd
  rcases hd with rfl | rfl
  · exact h.no_feed
  · exact h.no_slash

/-- Two balanced pieces. -/
theorem tame_code (h : (t.all isTame && ((t.count '{' : Int) - t.count '}' == k))) : Tame t k := by
  rw [Bool.and_eq_true, beq_iff_eq, all_eq_true] at h
  obtain ⟨hall, rfl⟩ := h
  have hc : ∀ c ∈ t, Lexer.isCode c ∧ c ≠ '@' ∧ c ≠ '\n' := by
    intro c hc
    have := hall c hc
    simp only [isTame, Bool.and_eq_true, bne_iff_ne, ne_eq] at this
    exact ⟨this.1.1, this.1.2, this.2⟩
  refine ⟨adds_code (all_eq_true.mpr fun c h => (hc c h).1) _ _, fun h => ?_, fun h => ?_,
    fun h => ?_⟩
  · exact (hc _ h).2.1 rfl
  · exact (hc _ h).2.2 rfl
  · exact absurd (hc _ h).1 (by decide)

theorem tame_nil : Tame [] 0 := tame_code (by decide)

/-- A character of a piece that is no curly bracket. -/
def isFlat (c : Char) : Bool := isTame c && c != '{' && c != '}'

theorem tame_flat (h : ∀ c ∈ t, isFlat c) : Tame t 0 := by
  have hc : ∀ c ∈ t, isTame c ∧ c ≠ '{' ∧ c ≠ '}' := by
    intro c hc
    have := h c hc
    simp only [isFlat, Bool.and_eq_true, bne_iff_ne, ne_eq] at this
    exact ⟨this.1.1, this.1.2, this.2⟩
  have ho : t.count '{' = 0 := count_eq_zero.mpr fun h => (hc _ h).2.1 rfl
  have hcl : t.count '}' = 0 := count_eq_zero.mpr fun h => (hc _ h).2.2 rfl
  refine tame_code ?_
  rw [ho, hcl, Bool.and_eq_true, all_eq_true]
  exact ⟨fun c h => (hc c h).1, by decide⟩

/-- A character that a piece can have in a literal. -/
def isQuotable (c : Char) : Bool := Lexer.isInert c && c != '@' && c != '\n' && c != '/'

/-- A literal after a blank or a square bracket. -/
theorem tame_quoted {d : Char} {w : Text} (hd : d = ' ' ∨ d = '[')
    (hw : w.all isQuotable) : Tame (Lexer.quoted d w) 0 := by
  simp only [all_eq_true, isQuotable, Bool.and_eq_true, bne_iff_ne, ne_eq] at hw
  have hw' : w.all Lexer.isInert := all_eq_true.mpr fun c hc => (hw c hc).1.1.1
  refine ⟨?_, ?_, ?_, ?_⟩
  · rcases hd with rfl | rfl
    · exact adds_quoted (by decide) (by decide) (by decide) (by decide) hw'
    · exact adds_quoted (by decide) (by decide) (by decide) (by decide) hw'
  · rcases hd with rfl | rfl <;> simpa [Lexer.quoted] using fun h => (hw _ h).1.1.2 rfl
  · rcases hd with rfl | rfl <;> simpa [Lexer.quoted] using fun h => (hw _ h).1.2 rfl
  · rcases hd with rfl | rfl <;> simpa [Lexer.quoted] using fun h => (hw _ h).2 rfl

end Text

end DartData
