import DartData.Text.Basic

/-!
# Points in time

A point in time as text, in the calendar that counts leap years by fours, hundreds and four
hundreds.
-/

namespace DartData.Clock

/-- A date. -/
structure Date where
  year : Nat
  month : Nat
  day : Nat
  deriving DecidableEq, Repr

/-- The date a number of days after the first of January 1970.  Years are taken to begin in March,
    so that the leap day is the last of its year. -/
def Date.ofDays (days : Nat) : Date :=
  let shifted := days + 719468
  let era := shifted / 146097
  let dayOfEra := shifted % 146097
  let yearOfEra := (dayOfEra - dayOfEra / 1460 + dayOfEra / 36524 - dayOfEra / 146096) / 365
  let dayOfYear := dayOfEra - (365 * yearOfEra + yearOfEra / 4 - yearOfEra / 100)
  let marchMonth := (5 * dayOfYear + 2) / 153
  let month := if marchMonth < 10 then marchMonth + 3 else marchMonth - 9
  { year := yearOfEra + era * 400 + (if month ≤ 2 then 1 else 0)
    month
    day := dayOfYear - (153 * marchMonth + 2) / 5 + 1 }

/-- A number with at least `width` digits. -/
def padded (width n : Nat) : Text :=
  let ds := Nat.toDigits 10 n
  List.replicate (width - ds.length) '0' ++ ds

/-- A point in time, given in microseconds since the start of 1970, as date and time of day.  A
    fraction of a second is left out if it is zero. -/
def iso (micros : Nat) : Text :=
  let seconds := micros / 1000000
  let fraction := micros % 1000000
  let date := Date.ofDays (seconds / 86400)
  let ofDay := seconds % 86400
  Text.of [padded 4 date.year, "-", padded 2 date.month, "-", padded 2 date.day, "T",
    padded 2 (ofDay / 3600), ":", padded 2 (ofDay / 60 % 60), ":", padded 2 (ofDay % 60),
    if fraction = 0 then [] else '.' :: padded 6 fraction, "+00:00"]

/-- A span of milliseconds in seconds with two places. -/
def seconds (millis : Nat) : Text :=
  let hundredths := (millis + 5) / 10
  Text.of [padded 1 (hundredths / 100), ".", padded 2 (hundredths % 100)]

end DartData.Clock
