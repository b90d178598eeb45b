import DartData.Proofs.Lexer.Reads

/-!
# What the lexer erases

A line of source is code, literals and comments in any order, perhaps with a comment to the end of
the line.  `Segment` is such a part, `Segment.isLine` tells whether parts can stand in a row and be
told apart again, and `Segment.feed_printAll` says what the lexer makes of them: literals and
comments are erased, the rest is kept, and the code inside of an interpolation loses its braces.
So the brackets that are counted are those of the code, and of an interpolation the round ones.

A part is read from the state between two parts to that state again (`Segment.run_print`), and the
line is read part by part.
-/

namespace DartData

open List Text

/-! ## §1. Parts of a line. -/

/-- A part of a line. -/
inductive Segment where
  | code (t : Text)
  /-- A literal with the pieces between its interpolations: the first one, and each interpolation
      with the piece after it. -/
  | literal (quote : Quote) (triple : Bool) (first : Text) (holes : List (Text × Text))
  | raw (quote : Quote) (content : Text)
  | comment (content : Text)
  deriving DecidableEq, Repr

namespace Segment

/-- The interpolations of a literal, each with the piece after it. -/
def printHoles (holes : List (Text × Text)) : Text :=
  holes.flatMap fun (e, piece) => '$' :: '\x7b' :: (e ++ '\x7d' :: piece)

/-- The text of a part. -/
def print : Segment → Text
  | .code t => t
  | .literal q triple first holes =>
    Literal.closer ⟨q, triple, false⟩
      ++ (first ++ (printHoles holes ++ Literal.closer ⟨q, triple, false⟩))
  | .raw q content => 'r' :: q.char :: (content ++ [q.char])
  | .comment content => '/' :: '*' :: (content ++ ['*', '/'])

/-- The code of a part that is code. -/
def ownCode : Segment → Text
  | .code t => t
  | _ => []

/-- The code inside of the interpolations of a part. -/
def holeCode : Segment → Text
  | .literal _ _ _ holes => holes.flatMap Prod.fst
  | _ => []

def isBrace (c : Char) : Bool := c == '\x7b' || c == '\x7d'

/-- What is kept of a part. -/
def kept (s : Segment) : Text := s.ownCode ++ s.holeCode.filter fun c => !isBrace c

/-- The text of parts in a row. -/
def printAll (ss : List Segment) : Text := ss.flatMap print

/-! ### Which parts can be told apart. -/

/-- Whether the braces are balanced, with some open already. -/
def closesBraces : Nat → Text → Bool
  | depth, [] => depth == 0
  | depth, c :: t =>
    if c = '\x7b' then closesBraces (depth + 1) t
    else if c = '\x7d' then depth != 0 && closesBraces (depth - 1) t
    else closesBraces depth t

/-- A piece of a literal: it has no quote, escape or interpolation. -/
def isPiece (q : Quote) (t : Text) : Bool :=
  !t.contains q.char && !t.contains '\\' && !t.has "$\x7b"

/-- A part by itself. -/
def isValid : Segment → Bool
  | .code t => t.all Lexer.isCode && t.getLast? != some 'r'
  | .literal q _ first holes =>
    isPiece q first && holes.all fun (e, piece) =>
      e.all Lexer.isCode && closesBraces 0 e && isPiece q piece
  | .raw q content => !content.contains q.char
  | .comment content => !content.has "*/"

/-- A part between others: an empty literal is not taken for the beginning of one with three
    quotes, and the `r` of a raw literal not for the end of a word.  What stands in front is given
    backwards. -/
def fits (before rest : Text) : Segment → Bool
  | .literal q false [] [] => rest.head? != some q.char
  | .raw q content => !Lexer.afterWord before && !(content.isEmpty && rest.head? == some q.char)
  | _ => true

/-- Parts in a row, with nothing or a comment to the end of the line after them. -/
def isLine (before : Text) (tail : Text) : List Segment → Bool
  | [] => tail.isEmpty || tail.startsWith "//"
  | s :: ss => s.isValid && s.fits before (printAll ss ++ tail)
    && isLine (s.print.reverse ++ before) tail ss

end Segment

namespace Lexer

/-! ## §2. Reading on in one state. -/

variable {before rest t w : Text} {c : Char} {l : Literal} {hs : List Hole} {q : Quote}

theorem unquoted_of_isCode (h : t.all isCode) (hrest : Unquoted rest) :
    Unquoted (t ++ rest) := (reads_code h).unquoted.append hrest

/-- Code. -/
theorem run_code : ∀ before rest, t.all isCode → t.getLast? ≠ some 'r' →
      run {} 0 before (t ++ rest) = keeping t (run {} 0 (t.reverse ++ before) rest) := by
  induction t with
  | nil => intro before rest _ _; rfl
  | cons c t ih =>
    intro before rest ht hlast
    rw [all_cons, Bool.and_eq_true] at ht
    -- a quote can only follow the last character
    have hr : c = 'r' → Unquoted (t ++ rest) := by
      rintro rfl
      cases t with
      | nil => exact absurd rfl hlast
      | cons d t => exact (reads_code ht.2).unquoted
    have hlast' : t.getLast? ≠ some 'r' := by
      cases t with
      | nil => simp
      | cons d t => simpa using hlast
    have hstep : step {} before c (t ++ rest) = .take true 0 {} := codeStep_code ht.1 hr {} before
    rw [cons_append, run_cons hstep, ih _ _ ht.2 hlast']
    simp

/-- Code inside of an interpolation, up to the brace that ends it. -/
theorem run_hole {e : Text} {depth : Nat} (before rest : Text) (he : e.all isCode)
    (hclosed : Segment.closesBraces depth e) :
    run { mode := .code, holes := ⟨depth + 1, l⟩ :: hs } 0 before (e ++ '\x7d' :: rest)
      = keeping (e.filter fun c => !Segment.isBrace c)
        (run { mode := .literal l, holes := hs } 0 ('\x7d' :: (e.reverse ++ before)) rest) := by
  induction e generalizing depth before rest with
  | nil =>
    obtain rfl : depth = 0 := by simpa [Segment.closesBraces] using hclosed
    have hstep : step { mode := .code, holes := ⟨1, l⟩ :: hs } before '\x7d' rest
        = .take false 0 { mode := .literal l, holes := hs } := rfl
    exact run_cons hstep
  | cons c e ih =>
    rw [all_cons, Bool.and_eq_true] at he
    rw [Segment.closesBraces] at hclosed
    -- an opening brace, a closing one that does not end the hole, or any other code
    split at hclosed
    next hopen =>
      subst hopen
      have hstep : step { mode := .code, holes := ⟨depth + 1, l⟩ :: hs } before '\x7b'
          (e ++ '\x7d' :: rest)
          = .take false 0 { mode := .code, holes := ⟨depth + 1 + 1, l⟩ :: hs } := rfl
      rw [cons_append, run_cons hstep, ih _ _ he.2 hclosed]
      simp [Segment.isBrace]
    next hopen =>
      split at hclosed
      next hclose =>
        subst hclose
        rw [Bool.and_eq_true, bne_iff_ne] at hclosed
        obtain ⟨k, rfl⟩ := Nat.exists_eq_succ_of_ne_zero hclosed.1
        have hstep : step { mode := .code, holes := ⟨k + 1 + 1, l⟩ :: hs } before '\x7d'
            (e ++ '\x7d' :: rest) = .take false 0
              { mode := .code, holes := ⟨k + 1, l⟩ :: hs } := rfl
        have hrest : Segment.closesBraces k e := hclosed.2
        rw [cons_append, run_cons hstep, ih _ _ he.2 hrest]
        simp [Segment.isBrace]
      next hclose =>
        have hstep : step { mode := .code, holes := ⟨depth + 1, l⟩ :: hs } before c
            (e ++ '\x7d' :: rest) = .take true 0
              { mode := .code, holes := ⟨depth + 1, l⟩ :: hs } := by
          rw [step]
          dsimp only
          rw [if_neg hopen, if_neg hclose]
          have hbrace : Unquoted ('\x7d' :: rest) := rfl
          exact codeStep_code he.1 (fun _ => unquoted_of_isCode he.2 hbrace) _ _
        rw [cons_append, run_cons hstep, ih _ _ he.2 hclosed]
        simp [Segment.isBrace, hopen, hclose]

/-! ## §3. Literals and comments. -/

/-- The mark that begins an interpolation. -/
theorem run_mark (hraw : l.raw = false) (h : before.head? ≠ some '\\') (rest : Text) :
    run { mode := .literal l, holes := hs } 0 before ('$' :: '\x7b' :: rest)
      = run { mode := .code, holes := ⟨1, l⟩ :: hs } 0 ('\x7b' :: '$' :: before) rest := by
  have hstep : step { mode := .literal l, holes := hs } before '$' ('\x7b' :: rest)
      = .take false 1 { mode := .code, holes := ⟨1, l⟩ :: hs } := by
    unfold step literalStep
    dsimp only
    rw [not_startsWith_closer (Quote.char_ne l.quote).1.symm, hraw, escaped_eq_false h]
    rfl
  rw [run_cons hstep]
  exact run_skip _ ['\x7b'] _ rest

/-- The beginning of a raw literal. -/
theorem run_rawOpener (hword : afterWord before = false)
    (h : rest.startsWith [q.char, q.char] = false) :
    run {} 0 before ('r' :: q.char :: rest)
      = run { mode := .literal ⟨q, false, true⟩ } 0 (q.char :: 'r' :: before) rest := by
  have hopen : step {} before 'r' (q.char :: rest) = openLiteral {} q true 1 (q.char :: rest) := by
    unfold step codeStep
    rw [hword]
    cases q <;> rfl
  have hstarts : startsWith (q.char :: rest) (replicate 3 q.char) = false := by
    simpa [startsWith, isPrefixOf] using h
  have hstep : step {} before 'r' (q.char :: rest)
      = .take false 1 { mode := .literal ⟨q, false, true⟩ } := by
    rw [hopen, openLiteral, hstarts]
    rfl
  exact (run_cons hstep).trans (run_skip _ [q.char] _ rest)

/-- A comment up to its end. -/
theorem run_comment : ∀ before rest, has w ['*', '/'] = false →
      run { mode := .comment } 0 before (w ++ '*' :: '/' :: rest)
        = run {} 0 ('/' :: '*' :: (w.reverse ++ before)) rest := by
  induction w with
  | nil =>
    intro before rest _
    have hstep : step { mode := .comment } before '*' ('/' :: rest) = .take false 1 {} := rfl
    exact (run_cons hstep).trans (run_skip _ ['/'] _ rest)
  | cons c w ih =>
    intro before rest hw
    have hstar : head? ('*' :: '/' :: rest) ≠ some '/' := by simp
    have hpair := cons_without_pair hw hstar
    have hstep : step { mode := .comment } before c (w ++ '*' :: '/' :: rest)
        = .take false 0 { mode := .comment } := by
      have hno : (decide (c = '*') && ((w ++ '*' :: '/' :: rest).head? == some '/')) = false := by
        simpa using hpair.2
      unfold step
      dsimp only
      rw [hno]
      rfl
    rw [cons_append, run_cons hstep, ih _ _ hpair.1]
    simp

end Lexer

namespace Segment

open Lexer

/-! ## §4. Parts. -/

variable {q : Quote} {before content rest w : Text} {triple : Bool} {holes : List (Text × Text)}

theorem isPiece_iff {t : Text} :
    isPiece q t ↔ q.char ∉ t ∧ '\\' ∉ t ∧ t.has ['$', '\x7b'] = false := by
  simp only [isPiece, Bool.and_eq_true, Bool.not_eq_true', contains_eq_mem,
    decide_eq_false_iff_not, and_assoc]
  rfl

/-- A literal after its opening quotes. -/
theorem run_pieces (first before rest : Text)
    (hvalid : isValid (.literal q triple first holes)) (hb : before.head? ≠ some '\\') :
    run { mode := .literal ⟨q, triple, false⟩ } 0 before
        (first ++ (printHoles holes ++ (Literal.closer ⟨q, triple, false⟩ ++ rest)))
      = keeping ((holes.flatMap Prod.fst).filter fun c => !isBrace c)
        (run {} 0 ((first ++ (printHoles holes ++ Literal.closer ⟨q, triple, false⟩)).reverse
          ++ before) rest) := by
  induction holes generalizing first before rest with
  | nil =>
    obtain ⟨hq, hback, hmark⟩ := isPiece_iff.mp (Bool.and_eq_true_iff.mp hvalid).1
    have hhead : (Literal.closer ⟨q, triple, false⟩ ++ rest).head? ≠ some '\x7b' := by
      rw [closer_eq_cons]
      simpa using (Quote.char_ne q).2.2
    show run _ 0 before (first ++ (Literal.closer ⟨q, triple, false⟩ ++ rest)) = _
    rw [run_piece before _ hq fun _ => ⟨hmark, hhead⟩,
      run_closer (.inr (head?_reverse_append_ne hback hb))]
    simp [printHoles]
  | cons hole holes ih =>
    obtain ⟨e, piece⟩ := hole
    simp only [isValid, all_cons, Bool.and_eq_true] at hvalid
    obtain ⟨hfirst, ⟨⟨hcode, hclosed⟩, hpiece⟩, hrest⟩ := hvalid
    obtain ⟨hq, hback, hmark⟩ := isPiece_iff.mp hfirst
    have hnext :=
      ih piece ('\x7d' :: (e.reverse ++ '\x7b' :: '$' :: (first.reverse ++ before))) rest
      (Bool.and_eq_true_iff.mpr ⟨hpiece, hrest⟩) (by simp)
    have hprint : printHoles ((e, piece) :: holes)
        = '$' :: '\x7b' :: (e ++ '\x7d' :: (piece ++ printHoles holes)) := by
      simp [printHoles]
    -- the piece, the mark of the hole and its code, and then the next piece
    rw [hprint]
    simp only [cons_append, append_assoc]
    rw [run_piece before _ hq fun _ => ⟨hmark, by simp⟩,
      run_mark rfl (head?_reverse_append_ne hback hb), run_hole _ _ hcode hclosed, hnext]
    simp

/-- Of a literal, the interpolated code is kept. -/
theorem run_literal_print {first : Text} (hvalid : isValid (.literal q triple first holes))
    (hfits : fits before rest (.literal q triple first holes)) :
    run {} 0 before (print (.literal q triple first holes) ++ rest)
      = keeping (kept (.literal q triple first holes))
        (run {} 0 ((print (.literal q triple first holes)).reverse ++ before) rest) := by
  have hq : q.char ∉ first := (isPiece_iff.mp (Bool.and_eq_true_iff.mp hvalid).1).1
  have hopen : triple ∨ startsWith (first ++ (printHoles holes
      ++ (Literal.closer ⟨q, triple, false⟩ ++ rest))) [q.char, q.char] = false := by
    cases triple with
    | true => exact .inl rfl
    | false =>
      right
      cases holes with
      | nil =>
        refine not_startsWith_quotes hq ?_
        rintro rfl
        simpa [fits] using hfits
      | cons hole holes =>
        -- an interpolation begins with another character
        have hne : q.char ≠ '$' := (Quote.char_ne q).1
        cases first with
        | nil => simp [printHoles, startsWith, isPrefixOf, hne]
        | cons c first =>
          have hc : q.char ≠ c := fun hqc => hq (hqc ▸ mem_cons_self)
          simp [startsWith, isPrefixOf, hc]
  have hhead : ((Literal.closer ⟨q, triple, false⟩).reverse ++ before).head? ≠ some '\\' := by
    have hback : q.char ≠ '\\' := (Quote.char_ne q).2.1
    cases triple <;> simpa [Literal.closer] using hback
  rw [print]
  simp only [append_assoc]
  rw [run_opener hopen, run_pieces first _ rest hvalid hhead]
  simp [kept, ownCode, holeCode]

/-- A raw literal is erased. -/
theorem run_raw_print (hvalid : isValid (.raw q content))
    (hfits : fits before rest (.raw q content)) :
    run {} 0 before (print (.raw q content) ++ rest)
      = run {} 0 ((print (.raw q content)).reverse ++ before) rest := by
  have hq : q.char ∉ content := by simpa [isValid] using hvalid
  simp only [fits, Bool.and_eq_true, Bool.not_eq_true'] at hfits
  obtain ⟨hword, hempty⟩ := hfits
  have hopen : startsWith (content ++ q.char :: rest) [q.char, q.char] = false := by
    refine not_startsWith_quotes hq ?_
    rintro rfl
    simpa using hempty
  have hcloser : run { mode := .literal ⟨q, false, true⟩ } 0
      (content.reverse ++ q.char :: 'r' :: before) (q.char :: rest) = run {} 0 _ rest :=
    run_closer (l := ⟨q, false, true⟩) (.inl rfl) rest
  rw [print]
  simp only [cons_append, append_assoc, nil_append]
  rw [run_rawOpener hword hopen, run_piece _ _ hq fun hraw => Bool.noConfusion hraw]
  refine hcloser.trans ?_
  simp [Literal.closer]

/-- A comment is erased. -/
theorem run_comment_print (hvalid : isValid (.comment content)) :
    run {} 0 before (print (.comment content) ++ rest)
      = run {} 0 ((print (.comment content)).reverse ++ before) rest := by
  have hnone : content.has ['*', '/'] = false := by simpa [isValid] using hvalid
  have hstep : step {} before '/' ('*' :: (content ++ '*' :: '/' :: rest))
      = .take false 1 { mode := .comment } := rfl
  have hskip : run { mode := .comment } 1 ('/' :: before) ('*' :: (content ++ '*' :: '/' :: rest))
      = run { mode := .comment } 0 ('*' :: '/' :: before) (content ++ '*' :: '/' :: rest) :=
    run_skip _ ['*'] _ _
  rw [print]
  simp only [cons_append, append_assoc, nil_append]
  rw [run_cons hstep, hskip, run_comment _ _ hnone]
  simp

/-- **A part is read from code to code**, and what is kept of it is its code. -/
theorem run_print {s : Segment} (hvalid : s.isValid) (hfits : s.fits before rest) :
    run {} 0 before (s.print ++ rest)
      = keeping s.kept (run {} 0 (s.print.reverse ++ before) rest) := by
  cases s with
  | code t =>
    simp only [isValid, Bool.and_eq_true, bne_iff_ne] at hvalid
    rw [print, run_code before rest hvalid.1 hvalid.2]
    simp [kept, ownCode, holeCode]
  | literal q triple first holes => exact run_literal_print hvalid hfits
  | raw q content => exact run_raw_print hvalid hfits
  | comment content => exact run_comment_print hvalid

/-! ## §5. Lines. -/

/-- Parts in a row, and what follows them. -/
theorem run_printAll {tail : Text} (ss : List Segment) : ∀ before, isLine before tail ss →
      run {} 0 before (printAll ss ++ tail) = (ss.flatMap kept, {}) := by
  induction ss with
  | nil =>
    intro before hline
    simp only [isLine, Bool.or_eq_true, List.isEmpty_iff] at hline
    rcases hline with rfl | hcomment
    · rfl
    · obtain ⟨t, rfl⟩ := startsWith_iff.mp hcomment
      rfl
  | cons s ss ih =>
    intro before hline
    simp only [isLine, Bool.and_eq_true] at hline
    obtain ⟨⟨hvalid, hfits⟩, hrest⟩ := hline
    have hprint : printAll (s :: ss) ++ tail = s.print ++ (printAll ss ++ tail) := by
      simp [printAll]
    rw [hprint, run_print hvalid hfits, ih _ hrest]
    rfl

/-- The braces that are kept are those of the code, and all other characters are kept. -/
theorem count_kept (c : Char) (ss : List Segment) : (ss.flatMap kept).count c
      = (ss.flatMap ownCode).count c + if isBrace c then 0 else (ss.flatMap holeCode).count c := by
  have hone : ∀ t : Text, (t.filter fun d => !isBrace d).count c
      = if isBrace c then 0 else t.count c := by
    intro t
    split
    next hc => exact count_eq_zero.mpr fun hmem => by simp [hc] at hmem
    next hc => exact count_filter (by simpa using hc)
  induction ss with
  | nil => simp
  | cons s ss ih =>
    simp only [flatMap_cons, count_append, ih, kept, hone]
    split <;> omega

/-- **What the lexer erases.**  Of a line made of code, literals and comments, in code before it,
    the code is kept and the code inside of interpolations without its braces; then it is in code
    again.  The brackets that are counted are those of the code, and the round ones inside of
    interpolations. -/
theorem feed_printAll (ss : List Segment) (tail : Text) (h : isLine [] tail ss = true) :
    Lexer.feed {} (printAll ss ++ tail) = (ss.flatMap kept, {})
      ∧ ∀ b : Brackets, b.lexer = {} → b.feed (printAll ss ++ tail)
        = { lexer := {},
            curly :=
              b.curly + (ss.flatMap ownCode).count '\x7b' - (ss.flatMap ownCode).count '\x7d',
            paren := b.paren + ((ss.flatMap ownCode).count '(' + (ss.flatMap holeCode).count '(')
              - ((ss.flatMap ownCode).count ')' + (ss.flatMap holeCode).count ')'),
            opened := b.opened || (ss.flatMap ownCode).contains '\x7b' } := by
  have hfeed : feed {} (printAll ss ++ tail) = (ss.flatMap kept, {}) := by
    rw [feed, run_printAll ss [] h]
    rfl
  refine ⟨hfeed, fun b hb => ?_⟩
  have hcurly : ∀ c, isBrace c = true → (ss.flatMap kept).count c = (ss.flatMap ownCode).count c :=
    fun c hc => by rw [count_kept, if_pos hc, Nat.add_zero]
  have hround : ∀ c, isBrace c = false → (ss.flatMap kept).count c
      = (ss.flatMap ownCode).count c + (ss.flatMap holeCode).count c :=
    fun c hc => by rw [count_kept, hc]; rfl
  rw [Brackets.feed, Brackets.countsOf, hb, hfeed, BracketCounts.ofCode, hcurly '\x7b' rfl,
    hcurly '\x7d' rfl, hround '(' rfl, hround ')' rfl]
  have hopened : ((ss.flatMap ownCode).count '\x7b' != 0)
      = (ss.flatMap ownCode).contains '\x7b' := by
    rw [Bool.eq_iff_iff, bne_iff_ne, ne_eq, count_eq_zero, Classical.not_not,
      contains_iff_mem]
  simp only [hopened, Int.natCast_add]

/-- One part of each kind in a row: `f({` with an empty literal and a raw one, a comment, a literal
    with three quotes and one with a map inside of its interpolation. -/
theorem feed_printAll_kinds :
    let ss : List Segment :=
      [.code "f(\x7b", .literal .single false [] [], .code ", ",
        .raw .double "\\\x7b(", .comment "(/*",
        .literal .double true "\x7d ' )" [],
        .literal .single false "\x7b $" [("g(\x7b1: \x7b\x7d\x7d)r", "\x22\x7d")],
        .code "\x7d);"]
    isLine [] "// '\x7b" ss = true
      ∧ feed {} (printAll ss ++ "// '\x7b".toList) = ("f(\x7b, g(1: )r\x7d);".toList, {})
      ∧ Brackets.feed {} (printAll ss ++ "// '\x7b") = { opened := true } := by
  intro ss
  have hline : isLine [] "// '\x7b" ss = true := by decide
  obtain ⟨hfeed, hbrackets⟩ := feed_printAll ss _ hline
  exact ⟨hline, hfeed, (hbrackets {} rfl).trans (by decide)⟩

end Segment

end DartData
