import DartData.Utf8
import DartData.Proofs.Text.Lines

/-!
# Bytes and line ends

Bytes that can be read are those of the text they are read as: the reader takes the shortest form of
each character only.  And a text is its lines one after another, each with what ends it; reading
with line feeds for line ends changes the ends and nothing else.
-/

namespace DartData.Utf8

open List

/-! ## §1. Reading is exact. -/

variable {least n x : Nat} {c : Char} {a : UInt8} {r t : Text}

theorem toNat_ofNatAux (h : n.isValidChar) : (Char.ofNatAux n h).toNat = n :=
  rfl

theorem char?_eq_some (h : char? least n = some c) : least ≤ n ∧ c.toNat = n := by
  unfold char? at h
  by_cases hlt : n < least
  · rw [if_pos hlt] at h
    simp at h
  · rw [if_neg hlt] at h
    by_cases hv : n.isValidChar
    · rw [dif_pos hv] at h
      cases h
      exact ⟨Nat.le_of_not_lt hlt, toNat_ofNatAux hv⟩
    · rw [dif_neg hv] at h
      simp at h

theorem tailBits?_eq_some {b : UInt8} (h : tailBits? b = some x) :
    x < 0x40 ∧ b = UInt8.ofNat (0x80 + x) := by
  unfold tailBits? at h
  split at h
  · next hb =>
    simp only [Bool.and_eq_true, decide_eq_true_eq] at hb
    obtain rfl := Option.some.inj h
    refine ⟨by omega, ?_⟩
    rw [show 0x80 + (b.toNat - 0x80) = b.toNat by omega, UInt8.ofNat_toNat]
  · simp at h

@[simp] theorem encode_nil : encode [] = [] := rfl

@[simp] theorem encode_cons (c : Char) (t : Text) :
    encode (c :: t) = encodeChar c ++ encode t := rfl

/-- A character is written with its first byte if its code divided by the weight of the other
    bytes is what the first byte says. -/
theorem ofNat_first {base high : Nat} (ha : base ≤ a.toNat) (hhigh : high = a.toNat - base) :
    UInt8.ofNat (base + high) = a := by
  rw [show base + high = a.toNat by omega, UInt8.ofNat_toNat]

theorem tail_eq (h : n % 0x40 = x) : tail n = UInt8.ofNat (0x80 + x) := by
  rw [tail, h]

theorem char?_bind_eq_some {rest : List UInt8}
    (h : ((char? least n).bind fun c => (decode? rest).bind fun u => some (c :: u)) = some t) :
    ∃ c u, t = c :: u ∧ least ≤ n ∧ c.toNat = n ∧ decode? rest = some u := by
  obtain ⟨c, hc, h⟩ := Option.bind_eq_some_iff.mp h
  obtain ⟨u, hu, h⟩ := Option.bind_eq_some_iff.mp h
  obtain ⟨hleast, hn⟩ := char?_eq_some hc
  exact ⟨c, u, (Option.some.inj h).symm, hleast, hn, hu⟩

/-- The first character is written with the bytes it was read from. -/
theorem decode?_cons {r : List UInt8} (h : decode? (a :: r) = some t) :
    ∃ c u rest, t = c :: u ∧ a :: r = encodeChar c ++ rest ∧ decode? rest = some u := by
  unfold decode? at h
  simp only [Option.bind_eq_bind, Option.pure_def] at h
  split at h
  · -- one byte
    next h₁ =>
    obtain ⟨u, hu, h⟩ := Option.bind_eq_some_iff.mp h
    cases h
    have hc : (Char.ofNat a.toNat).toNat = a.toNat := by
      rw [Char.ofNat, dif_pos (.inl (by omega)), toNat_ofNatAux]
    refine ⟨_, u, r, rfl, ?_, hu⟩
    rw [encodeChar, hc, if_pos h₁, UInt8.ofNat_toNat]
    rfl
  · split at h
    · simp at h
    · cases r with
      | nil => simp at h
      | cons b r =>
        dsimp only at h
        obtain ⟨x, hb, h⟩ := Option.bind_eq_some_iff.mp h
        obtain ⟨hx, hb⟩ := tailBits?_eq_some hb
        split at h
        · -- two bytes
          obtain ⟨c, u, rfl, hleast, hc, hu⟩ := char?_bind_eq_some h
          refine ⟨c, u, r, rfl, ?_, hu⟩
          rw [encodeChar, hc, if_neg (by omega), if_pos (by omega),
            ofNat_first (a := a) (by omega) (by omega), tail_eq (x := x) (by omega), hb]
          rfl
        · cases r with
          | nil => simp at h
          | cons d r =>
            dsimp only at h
            obtain ⟨y, hd, h⟩ := Option.bind_eq_some_iff.mp h
            obtain ⟨hy, hd⟩ := tailBits?_eq_some hd
            split at h
            · -- three bytes
              obtain ⟨c, u, rfl, hleast, hc, hu⟩ := char?_bind_eq_some h
              refine ⟨c, u, r, rfl, ?_, hu⟩
              rw [encodeChar, hc, if_neg (by omega), if_neg (by omega), if_pos (by omega),
                ofNat_first (a := a) (by omega) (by omega), tail_eq (x := x) (by omega),
                tail_eq (x := y) (by omega), hb, hd]
              rfl
            · cases r with
              | nil => simp at h
              | cons e r =>
                dsimp only at h
                obtain ⟨z, he, h⟩ := Option.bind_eq_some_iff.mp h
                obtain ⟨hz, he⟩ := tailBits?_eq_some he
                split at h
                · -- four bytes
                  obtain ⟨c, u, rfl, hleast, hc, hu⟩ := char?_bind_eq_some h
                  refine ⟨c, u, r, rfl, ?_, hu⟩
                  rw [encodeChar, hc, if_neg (by omega), if_neg (by omega),
                    if_neg (by omega), ofNat_first (a := a) (by omega) (by omega),
                    tail_eq (x := x) (by omega), tail_eq (x := y) (by omega),
                    tail_eq (x := z) (by omega), hb, hd, he]
                  rfl
                · simp at h

theorem length_encodeChar_pos (c : Char) : 0 < (encodeChar c).length := by
  unfold encodeChar
  simp only
  repeat' split
  all_goals simp

/-- **Bytes that can be read are those of the text they are read as.** -/
theorem encode_of_decode? {bytes : List UInt8} (h : decode? bytes = some t) : encode t = bytes := by
  induction hn : bytes.length using Nat.strongRecOn generalizing bytes t with
  | ind n ih =>
    cases bytes with
    | nil =>
      obtain rfl : [] = t := by simpa [decode?] using h
      rfl
    | cons a r =>
      obtain ⟨c, u, rest, rfl, hbytes, hu⟩ := decode?_cons h
      have hlen : rest.length < n := by
        have := congrArg length hbytes
        rw [length_append] at this
        have := length_encodeChar_pos c
        omega
      rw [encode_cons, ih rest.length hlen hu rfl, hbytes]

/-! ## §2. Lines with their ends. -/

/-- The lines of a text, each with what ends it: a carriage return, a line feed or both, and nothing
    at the end of the text. -/
def endedLines : Text → List Text
  | [] => [[]]
  | '\r' :: '\n' :: r => ['\r', '\n'] :: endedLines r
  | '\r' :: r => ['\r'] :: endedLines r
  | '\n' :: r => ['\n'] :: endedLines r
  | c :: r =>
    match endedLines r with
    | [] => [[c]]
    | l :: ls => (c :: l) :: ls

theorem endedLines_both (r : Text) :
    endedLines ('\r' :: '\n' :: r) = ['\r', '\n'] :: endedLines r := rfl

theorem endedLines_feed (r : Text) : endedLines ('\n' :: r) = ['\n'] :: endedLines r := rfl

theorem endedLines_cons {l : Text} {ls : List Text} (hr : c ≠ '\r') (hn : c ≠ '\n')
    (h : endedLines r = l :: ls) : endedLines (c :: r) = (c :: l) :: ls := by
  rw [endedLines, h] <;> simp_all

/-- A carriage return without a line feed after it ends a line. -/
theorem endedLines_return (h : r.head? ≠ some '\n') :
    endedLines ('\r' :: r) = ['\r'] :: endedLines r := by
  rw [endedLines]
  rintro u rfl
  exact h rfl

theorem unifyLineEnds_both (r : Text) :
    unifyLineEnds ('\r' :: '\n' :: r) = '\n' :: unifyLineEnds r := rfl

theorem unifyLineEnds_return (h : r.head? ≠ some '\n') :
    unifyLineEnds ('\r' :: r) = '\n' :: unifyLineEnds r := by
  rw [unifyLineEnds]
  rintro u rfl
  exact h rfl

theorem unifyLineEnds_cons (h : c ≠ '\r') (r : Text) :
    unifyLineEnds (c :: r) = c :: unifyLineEnds r := by
  rw [unifyLineEnds] <;> simp_all

/-- Induction on a text by the line end it begins with, if it begins with one. -/
theorem lineEnds_induction {P : Text → Prop} (nil : P [])
    (both : ∀ r, P r → P ('\r' :: '\n' :: r))
    (alone : ∀ r : Text, r.head? ≠ some '\n' → P r → P ('\r' :: r))
    (feed : ∀ r, P r → P ('\n' :: r))
    (other : ∀ c r, c ≠ '\r' → c ≠ '\n' → P r → P (c :: r)) (t : Text) : P t := by
  fun_induction unifyLineEnds t with
  | case1 => exact nil
  | case2 r ih => exact both r ih
  | case3 r hr ih =>
    refine alone r ?_ ih
    cases r with
    | nil => simp
    | cons c r => exact fun h => hr r (by simpa using h)
  | case4 c r h₁ hr ih =>
    by_cases hn : c = '\n'
    · exact hn ▸ feed r ih
    · exact other c r hr hn ih

theorem endedLines_ne_nil (t : Text) : endedLines t ≠ [] := by
  induction t using lineEnds_induction with
  | nil => exact cons_ne_nil _ _
  | both r ih => exact cons_ne_nil _ _
  | alone r hr ih => simp [endedLines_return hr]
  | feed r ih => exact cons_ne_nil _ _
  | other c r hr hn ih =>
    obtain ⟨l, ls, h⟩ := exists_cons_of_ne_nil ih
    simp [endedLines_cons hr hn h]

theorem flatten_endedLines (t : Text) : (endedLines t).flatten = t := by
  induction t using lineEnds_induction with
  | nil => rfl
  | both r ih => simp [endedLines_both, ih]
  | alone r hr ih => simp [endedLines_return hr, ih]
  | feed r ih => simp [endedLines_feed, ih]
  | other c r hr hn ih =>
    obtain ⟨l, ls, h⟩ := exists_cons_of_ne_nil (endedLines_ne_nil r)
    rw [h] at ih
    simpa [endedLines_cons hr hn h] using ih

theorem endedLines_line {a : Text} (hr : '\r' ∉ a) (hn : '\n' ∉ a) (rest : Text) :
    endedLines (a ++ '\n' :: rest) = (a ++ ['\n']) :: endedLines rest := by
  induction a with
  | nil => exact endedLines_feed rest
  | cons c a ih =>
    rw [mem_cons, not_or] at hr hn
    exact endedLines_cons (Ne.symm hr.1) (Ne.symm hn.1) (ih hr.2 hn.2)

theorem endedLines_of_clean {a : Text} (hr : '\r' ∉ a) (hn : '\n' ∉ a) : endedLines a = [a] := by
  induction a with
  | nil => rfl
  | cons c a ih =>
    rw [mem_cons, not_or] at hr hn
    exact endedLines_cons (Ne.symm hr.1) (Ne.symm hn.1) (ih hr.2 hn.2)

/-- After a line feed the lines are those of the rest. -/
theorem endedLines_append_lineFeed (a rest : Text) :
    ∃ l above, endedLines (a ++ '\n' :: rest) = l :: (above ++ endedLines rest) := by
  induction a using lineEnds_induction with
  | nil => exact ⟨['\n'], [], endedLines_feed rest⟩
  | both r ih =>
    obtain ⟨l, above, ih⟩ := ih
    exact ⟨['\r', '\n'], l :: above, by simp [endedLines_both, ih]⟩
  | alone r hr ih =>
    obtain ⟨l, above, ih⟩ := ih
    cases r with
    | nil => exact ⟨['\r', '\n'], [], endedLines_both rest⟩
    | cons c r =>
      refine ⟨['\r'], l :: above, ?_⟩
      rw [cons_append, cons_append, endedLines_return (by simpa using hr),
        ← cons_append, ih]
      rfl
  | feed r ih =>
    obtain ⟨l, above, ih⟩ := ih
    exact ⟨['\n'], l :: above, by simp [endedLines_feed, ih]⟩
  | other c r hr hn ih =>
    obtain ⟨l, above, ih⟩ := ih
    exact ⟨c :: l, above, endedLines_cons hr hn ih⟩

/-! ## §3. Line feeds for line ends. -/

theorem not_mem_unifyLineEnds (t : Text) : '\r' ∉ unifyLineEnds t := by
  induction t using lineEnds_induction with
  | nil => exact not_mem_nil
  | both r ih => simpa [unifyLineEnds_both] using ih
  | alone r hr ih => simpa [unifyLineEnds_return hr] using ih
  | feed r ih => simpa [unifyLineEnds_cons] using ih
  | other c r hr hn ih => simp [unifyLineEnds_cons hr, Ne.symm hr, ih]

theorem unifyLineEnds_of_not_mem (h : '\r' ∉ t) : unifyLineEnds t = t := by
  induction t with
  | nil => rfl
  | cons c r ih =>
    rw [mem_cons, not_or] at h
    rw [unifyLineEnds_cons (Ne.symm h.1), ih h.2]

/-- Reading with line feeds for line ends changes the ends and nothing else. -/
theorem map_unifyLineEnds_endedLines (t : Text) :
    (endedLines t).map unifyLineEnds = endedLines (unifyLineEnds t) := by
  induction t using lineEnds_induction with
  | nil => rfl
  | both r ih =>
    rw [endedLines_both, unifyLineEnds_both, endedLines_feed, map_cons, ih]
    rfl
  | alone r hr ih =>
    rw [endedLines_return hr, unifyLineEnds_return hr, endedLines_feed, map_cons, ih]
    rfl
  | feed r ih =>
    rw [unifyLineEnds_cons (by decide), endedLines_feed, endedLines_feed, map_cons, ih]
    rfl
  | other c r hr hn ih =>
    obtain ⟨l, ls, hls⟩ := exists_cons_of_ne_nil (endedLines_ne_nil r)
    rw [hls, map_cons] at ih
    rw [endedLines_cons hr hn hls, map_cons, unifyLineEnds_cons hr, unifyLineEnds_cons hr]
    exact (endedLines_cons hr hn ih.symm).symm

end DartData.Utf8
