/-!
# Character classes as ranges

A class of characters beyond ASCII is a list of ranges of code points.
-/

namespace DartData

/-- Ranges of code points, both ends included. -/
abbrev CharRanges := List (Nat × Nat)

/-- The ranges from a code point on, given by the numbers of code points that lie in turn between
    them and in them. -/
def CharRanges.ofRuns (start : Nat) : List Nat → CharRanges
  | between :: inside :: rest =>
    (start + between, start + between + inside - 1) :: ofRuns (start + between + inside) rest
  | _ => []

/-- Whether a character lies in one of the ranges. -/
def CharRanges.has (rs : CharRanges) (c : Char) : Bool :=
  rs.any fun (lo, hi) => lo ≤ c.toNat && c.toNat ≤ hi

end DartData
