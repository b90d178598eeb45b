import DartData.Text.Basic

/-!
# White space

The blank characters, trimming them off a text, and comparison of two texts without them.  The
zero-width space and the byte order mark are not blank.
-/

namespace DartData

/-- Whether a character is white space: the ASCII blanks with the separators `U+001C` to `U+001F`,
    the next-line and no-break characters, and the space, line and paragraph separators. -/
def isBlank (c : Char) : Bool :=
  let n := c.toNat
  (0x09 ≤ n && n ≤ 0x0D) || (0x1C ≤ n && n ≤ 0x20) || n == 0x85 || n == 0xA0 || n == 0x1680
    || (0x2000 ≤ n && n ≤ 0x200A) || n == 0x2028 || n == 0x2029 || n == 0x202F || n == 0x205F
    || n == 0x3000

namespace Text

/-! ## §1. Trimming. -/

/-- What is left without the blanks at the start. -/
def trimStart (t : Text) : Text := t.dropWhile isBlank

/-- What is left without the blanks at the end. -/
def trimEnd (t : Text) : Text := (t.reverse.dropWhile isBlank).reverse

/-- What is left without the blanks at both ends. -/
def trim (t : Text) : Text := t.trimStart.trimEnd

/-- Whether a text holds blanks only. -/
def allBlank (t : Text) : Bool := t.all isBlank

/-- Trims `t` and takes the pieces off its end one after another, trimming after each. -/
def removeEnds (t : Text) (es : List Text) : Text :=
  es.foldl (fun r e => trim (removeEnd r e)) t.trim

/-- Trims `t` and takes the pieces off its start one after another, trimming after each. -/
def removeStarts (t : Text) (ss : List Text) : Text :=
  ss.foldl (fun r s => trim (removeStart r s)) t.trim

/-! ## §2. Comparison up to white space. -/

/-- What is left without any blanks. -/
def squeeze (t : Text) : Text := t.filter fun c => !isBlank c

/-- Whether two texts differ in white space only. -/
def sameUpToBlanks (a b : Text) : Bool := a.squeeze == b.squeeze

end Text

end DartData
