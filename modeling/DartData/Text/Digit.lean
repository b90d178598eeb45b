import DartData.Text.CharRange

/-!
# Digits

The characters that count as digits at the head of an identifier: the decimal digits of every
script, and the superscript, subscript and circled digits.  Fractions and number letters such as
`½` and `Ⅷ` are not among them.
-/

namespace DartData

/-- The digits beyond ASCII, in increasing order. -/
def digitRanges : CharRanges := .ofRuns 0x80
  [50, 2, 5, 1, 1446, 10, 134, 10, 198, 10, 412, 10, 118, 10, 118, 10, 118, 10, 118, 10, 118, 10,
   118, 10, 118, 10, 118, 10, 118, 10, 96, 10, 118, 10, 70, 10, 278, 10, 70, 10, 719, 9, 1134, 10,
   38, 10, 300, 10, 128, 11, 165, 10, 6, 10, 182, 10, 86, 10, 134, 10, 6, 10, 1046, 1, 3, 6,
   6, 10, 982, 9, 11, 9, 11, 9, 89, 1, 10, 9, 1, 1, 630, 9, 1, 9, 1, 9, 32397, 10, 678, 10,
   38, 10, 198, 10, 22, 10, 86, 10, 406, 10, 21270, 10, 1414, 10, 1430, 4, 748, 10, 294, 9,
   489, 9, 11, 10, 128, 10, 60, 10, 144, 10, 278, 10, 342, 10, 118, 10, 374, 10, 102, 10, 102, 10,
   422, 10, 102, 10, 758, 10, 246, 10, 70, 10, 19638, 10, 86, 10, 134, 10, 27764, 50, 2368, 10,
   422, 10, 1622, 10, 1958, 11, 2789, 10]

/-- Whether a character counts as a digit. -/
def isDigit (c : Char) : Bool :=
  if c.toNat < 0x80 then '0' ≤ c && c ≤ '9' else digitRanges.has c

end DartData
