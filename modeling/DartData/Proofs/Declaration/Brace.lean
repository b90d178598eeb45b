import DartData.Proofs.Declaration.Clauses
import DartData.Proofs.Scan.Head

/-!
# A declaration on its lines

The words of a declaration are taken from its text up to the first brace outside of type brackets.
Blanks apart, the words, this brace and what follows it are the whole text (`squeeze_words_brace`).
So the declaration printed with a brace is the text of its lines exactly if the words are in the
regular form and nothing follows the brace (`Declaration.ReadFrom.reprinted_iff`).
-/

namespace DartData

open List Text

/-! ## §1. The brace that ends a declaration. -/

/-- What follows the first brace outside of type brackets. -/
def afterBrace? (depth : Int) : Text → Option Text
  | [] => none
  | c :: r =>
    let depth := if c = '<' then depth + 1 else if c = '>' then depth - 1 else depth
    if depth == 0 && c == '\x7b' then some r else afterBrace? depth r

/-- The brace and what follows it, without blanks. -/
def squeezedBrace : Option Text → Text
  | some after => '\x7b' :: after.squeeze
  | none => []

/-- A word is left out, added, or joined to the last one. -/
theorem addWord_cases (words : List Text) (word : Text) :
    (word.trim = [] ∧ addWord words word = words)
      ∨ (word.trim ≠ [] ∧ addWord words word = words ++ [word.trim])
      ∨ ∃ init last, words = init ++ [last] ∧ addWord words word = init ++ [last ++ word.trim] := by
  unfold addWord
  dsimp only
  split
  next hnil => exact .inl ⟨List.isEmpty_iff.mp hnil, rfl⟩
  next hne =>
    split
    next last _ hlast =>
      obtain ⟨init, rfl⟩ := getLast?_eq_some_iff.mp hlast
      exact .inr (.inr ⟨init, last, rfl, by rw [dropLast_concat]⟩)
    next => exact .inr (.inl ⟨fun hnil => hne (List.isEmpty_iff.mpr hnil), rfl⟩)

theorem squeeze_addWord (words : List Text) (word : Text) :
    squeeze (addWord words word).flatten = squeeze words.flatten ++ word.squeeze := by
  rw [← squeeze_trim word]
  rcases addWord_cases words word with ⟨hnil, h⟩ | ⟨-, h⟩ | ⟨init, last, rfl, h⟩
  · rw [h, hnil]
    exact (append_nil _).symm
  · rw [h, flatten_append, squeeze_append, flatten_cons, flatten_nil, append_nil]
  · simp only [h, flatten_append, squeeze_append, flatten_cons, flatten_nil,
      append_nil, append_assoc]

/-- A property of words that a new word has, and that stays when a word is joined to another. -/
theorem forall_mem_addWord {P : Text → Prop} {words : List Text} {word : Text}
    (hnew : word.trim ≠ [] → P word.trim) (hjoin : ∀ w, P w → P (w ++ word.trim))
    (h : ∀ w ∈ words, P w) : ∀ w ∈ addWord words word, P w := by
  rcases addWord_cases words word with ⟨-, hadd⟩ | ⟨hne, hadd⟩ | ⟨init, last, rfl, hadd⟩
  · rwa [hadd]
  · rw [hadd, forall_mem_append]
    exact ⟨h, forall_mem_singleton.mpr (hnew hne)⟩
  · rw [hadd, forall_mem_append]
    rw [forall_mem_append, forall_mem_singleton] at h
    exact ⟨h.1, forall_mem_singleton.mpr (hjoin last h.2)⟩

/-- **The words, the brace and what follows it are the text.** -/
theorem squeeze_go (t : Text) (words : List Text) (word : Text) (depth : Int) :
    squeeze (declarationWords.go words word depth t).flatten ++ squeezedBrace (afterBrace? depth t)
      = squeeze words.flatten ++ word.squeeze ++ t.squeeze := by
  induction t generalizing words word depth with
  | nil =>
    rw [declarationWords.go, squeeze_addWord]
    rfl
  | cons c r ih =>
    have hcons : squeeze (c :: r) = squeeze [c] ++ squeeze r := squeeze_append [c] r
    rw [declarationWords.go, afterBrace?]
    -- words and brace are looked for at the same depth
    generalize (if c = '<' then depth + 1 else if c = '>' then depth - 1 else depth) = depth
    split
    next hbrace =>
      obtain rfl : c = '\x7b' := by
        rw [Bool.and_eq_true, beq_iff_eq, beq_iff_eq] at hbrace
        exact hbrace.2
      rw [squeeze_addWord]
      rfl
    next =>
      split
      next hblank =>
        obtain rfl : c = ' ' := by
          rw [Bool.and_eq_true, beq_iff_eq, beq_iff_eq] at hblank
          exact hblank.2
        rw [ih, squeeze_addWord]
        show _ ++ _ ++ [] ++ squeeze r = _ ++ _ ++ ([] ++ squeeze r)
        rw [append_nil, nil_append]
      next =>
        rw [ih, squeeze_append, hcons]
        simp

/-- Such a property holds of all words of a text; it may ask for characters of the kind `Q`. -/
theorem forall_mem_go {P : Text → Prop} {Q : Char → Prop}
    (hnew : ∀ word : Text, (∀ c ∈ word, Q c) → word.trim ≠ [] → P word.trim)
    (hjoin : ∀ w word : Text, (∀ c ∈ word, Q c) → P w → P (w ++ word.trim)) (t : Text) :
    ∀ (words : List Text) (word : Text) (depth : Int), (∀ w ∈ words, P w) → (∀ c ∈ word, Q c) →
      (∀ c ∈ t, Q c) → ∀ w ∈ declarationWords.go words word depth t, P w := by
  have hadd : ∀ {words : List Text} {word : Text}, (∀ w ∈ words, P w) → (∀ c ∈ word, Q c) →
      ∀ w ∈ addWord words word, P w :=
    fun hwords hword => forall_mem_addWord (hnew _ hword) (hjoin · _ hword) hwords
  induction t with
  | nil => exact fun words word depth hwords hword _ => hadd hwords hword
  | cons c r ih =>
    intro words word depth hwords hword ht
    obtain ⟨hc, hr⟩ := forall_mem_cons.mp ht
    rw [declarationWords.go]
    generalize (if c = '<' then depth + 1 else if c = '>' then depth - 1 else depth) = depth
    split
    · exact hadd hwords hword
    · split
      · exact ih _ [] _ (hadd hwords hword) (by simp) hr
      · exact ih _ _ _ hwords (forall_mem_append.mpr ⟨hword, forall_mem_singleton.mpr hc⟩) hr

theorem squeeze_ne_of_mem {t : Text} : ∀ w ∈ declarationWords t, w.squeeze ≠ [] := by
  refine forall_mem_go (Q := fun _ => True) (fun word _ hne hnil => hne ?_)
    (fun w word _ hw hnil => hw ?_) t [] [] 0 (by simp) (by simp) (by simp)
  · rw [squeeze_trim] at hnil
    exact trim_eq_nil_iff.mpr (all_eq_true.mpr (squeeze_eq_nil_iff.mp hnil))
  · rw [squeeze_append] at hnil
    exact (append_eq_nil_iff.mp hnil).1

/-! ## §2. The lines. -/

/-- The text from which the declaration on some lines is read. -/
def headText : List Text → Text
  | [line] => line
  | ls => join " " (ls.map trim)

theorem join_without (ts : List Text) : join [] ts = ts.flatten := by
  induction ts with
  | nil => rfl
  | cons t ts ih =>
    cases ts with
    | nil => simp
    | cons u us => rw [join_cons_cons, ih, append_nil, flatten_cons (l := t)]

theorem squeeze_headText (ls : List Text) : (headText ls).squeeze = (unlines ls).squeeze := by
  have hjoin : ∀ ls : List Text, (join " " (ls.map trim)).squeeze = (unlines ls).squeeze := by
    intro ls
    rw [squeeze_join, squeeze_unlines, map_map]
    refine (join_without _).trans ?_
    exact congrArg flatten (map_congr_left fun l _ => squeeze_trim l)
  unfold headText
  split
  next line =>
    rw [squeeze_unlines]
    exact (append_nil _).symm
  next => exact hjoin ls

variable {d : Declaration} {ls : List Text}

theorem Declaration.ReadFrom.readWords (h : d.ReadFrom ls) :
    ∃ n, Declaration.readWords { name := n } {} (declarationWords (headText ls)) = .ok d := by
  match ls, h with
  | [line], h => exact ⟨none, h⟩
  | line :: l :: more, h =>
    obtain ⟨d₀, -, h⟩ := h
    exact ⟨d₀.name, h⟩

/-- **A declaration comes back exactly if it is in the regular form and nothing follows the
    brace.** -/
theorem Declaration.ReadFrom.reprinted_iff (h : d.ReadFrom ls) (hname : d.name.isSome)
    {isAbstract : Bool} {after : Text} (hafter : afterBrace? 0 (headText ls) = some after)
    (hnamed : NamedWords isAbstract (declarationWords (headText ls))) :
    sameUpToBlanks (d.print isAbstract ++ " \x7b") (unlines ls)
      ↔ HeadWords isAbstract (declarationWords (headText ls)) ∧ after.squeeze = [] := by
  obtain ⟨n, hread⟩ := h.readWords
  have hwords := squeeze_go (headText ls) [] [] 0
  rw [hafter] at hwords
  have hbrace : (d.print isAbstract ++ " \x7b").squeeze
      = (d.print isAbstract).squeeze ++ ['\x7b'] := squeeze_append _ _
  have htext : sameUpToBlanks (d.print isAbstract ++ " \x7b") (unlines ls)
      ↔ squeeze (declarationWords (headText ls)).flatten ++ '\x7b' :: after.squeeze
        = (d.print isAbstract).squeeze ++ ['\x7b'] := by
    rw [sameUpToBlanks, beq_iff_eq, hbrace, ← squeeze_headText]
    exact ⟨fun h => hwords.trans h.symm, fun h => h.symm.trans hwords⟩
  rw [htext]
  constructor
  · exact headWords_of_squeeze_print hnamed squeeze_ne_of_mem hname hread
  · rintro ⟨hhead, hnil⟩
    rw [hnil, squeeze_print_of_headWords hhead hread]

end DartData
