import DartData.Text.Basic

/-!
# Decimal numbers

A number with a fraction is kept as the decimal that was written.  It is shown as the double that is
nearest to it would be: with the fewest digits that are nearer to that double than to any other,
positional where the point falls near the digits and with a power of ten elsewhere.
-/

namespace DartData

/-- The number `± coefficient · 10 ^ exponent`. -/
structure Decimal where
  negative : Bool
  coefficient : Nat
  exponent : Int
  deriving DecidableEq, Repr

/-! ## §1. Doubles. -/

/-- The positive number `significand · 2 ^ exponent`. -/
structure Double where
  significand : Nat
  exponent : Int
  deriving DecidableEq, Repr

/-- A quotient rounded to the nearest whole number, and to the even one halfway between two. -/
def roundHalfEven (num den : Nat) : Nat :=
  let q := num / den
  let r := 2 * (num % den)
  if r > den || (r == den && q % 2 == 1) then q + 1 else q

/-- The quotient `num / den`, `e` times multiplied by `base`. -/
def scaleQuotient (base : Nat) (num den : Nat) (e : Int) : Nat × Nat :=
  if e ≥ 0 then (num * base.pow e.toNat, den) else (num, den * base.pow (-e).toNat)

/-- The double nearest to a positive quotient.  It has 53 binary digits, or fewer where its exponent
    would fall below the least one. -/
def Double.nearest (num den : Nat) : Double :=
  let estimate : Int := (Nat.log2 num : Int) - Nat.log2 den - 53
  let (n, d) := scaleQuotient 2 num den (-estimate)
  let exponent := max (if n / d ≥ Nat.pow 2 53 then estimate + 1 else estimate) (-1074)
  let (n, d) := scaleQuotient 2 num den (-exponent)
  let m := roundHalfEven n d
  if m = Nat.pow 2 53 then ⟨Nat.pow 2 52, exponent + 1⟩ else ⟨m, exponent⟩

/-! ## §2. The fewest digits. -/

/-- Whether `num / den` is nearer to the double than to its neighbours, an end of that interval
    counting if the significand is even. -/
def Double.catches (x : Double) (num den : Nat) : Bool :=
  let (n, d) := scaleQuotient 2 num den (2 - x.exponent)
  let below := if x.significand == Nat.pow 2 52 && x.exponent > -1074 then 1 else 2
  let low := (4 * x.significand - below) * d
  let high := (4 * x.significand + 2) * d
  if x.significand % 2 == 0 then low ≤ n && n ≤ high else low < n && n < high

/-- The number of decimal digits before the point of a positive quotient; negative or zero if the
    first digit comes after it. -/
def pointPosition (num den : Nat) : Int :=
  if num ≥ den then (Nat.toDigits 10 (num / den)).length
  else 1 - (Nat.toDigits 10 ((den + num - 1) / num - 1)).length

/-- The decimal with `count` digits nearest to the double among those that it catches. -/
def Double.withDigits? (x : Double) (count : Nat) : Option (Nat × Int) :=
  let (num, den) := scaleQuotient 2 x.significand 1 x.exponent
  let unit := pointPosition num den - count
  let (n, d) := scaleQuotient 10 num den (-unit)
  let caught (k : Nat) : Bool :=
    let (a, b) := scaleQuotient 10 k 1 unit
    x.catches a b
  let low := n / d
  match caught low, caught (low + 1) with
  | true, true => some (roundHalfEven n d, unit)
  | true, false => some (low, unit)
  | false, true => some (low + 1, unit)
  | false, false => none

/-- The decimal with the fewest digits that the double catches; seventeen are always enough. -/
def Double.shortest (x : Double) : Nat × Int :=
  ((List.range 17).findSome? fun k => x.withDigits? (k + 1)).getD (0, 0)

/-! ## §3. Writing. -/

/-- The digits of a coefficient without the zeros at its end, and how many those were. -/
def trimZeros (digits : Text) : Text × Nat :=
  let zeros := (digits.reverse.takeWhile (· == '0')).length
  (digits.take (digits.length - zeros), zeros)

/-- Writes digits with the point after the first `point` of them. -/
def writeDigits (digits : Text) (point : Int) : Text :=
  if point > 16 || point < -3 then
    let e := point - 1
    let power := Nat.toDigits 10 e.natAbs
    let power := if power.length < 2 then '0' :: power else power
    let fraction := if digits.length ≤ 1 then [] else '.' :: digits.drop 1
    digits.take 1 ++ fraction ++ ['e', if e < 0 then '-' else '+'] ++ power
  else if point ≤ 0 then "0." ++ List.replicate (-point).toNat '0' ++ digits
  else
    let whole := digits.take point.toNat
    let fraction := digits.drop point.toNat
    whole ++ List.replicate (point.toNat - whole.length) '0' ++ ['.']
      ++ (if fraction.isEmpty then ['0'] else fraction)

/-- Whether the number counts as zero. -/
def Decimal.isZero (d : Decimal) : Bool := d.coefficient == 0

/-- The number as text. -/
def Decimal.toText (d : Decimal) : Text :=
  let magnitude : Text :=
    if d.coefficient = 0 then "0.0"
    else
      let (num, den) := scaleQuotient 10 d.coefficient 1 d.exponent
      let x := Double.nearest num den
      if x.significand = 0 then "0.0"
      else if x.exponent > 971 then "inf"
      else
        let (k, unit) := x.shortest
        let all := Nat.toDigits 10 k
        writeDigits (trimZeros all).1 (unit + all.length)
  if d.negative then '-' :: magnitude else magnitude

end DartData
