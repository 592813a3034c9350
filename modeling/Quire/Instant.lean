import Quire.Text.Decimal

/-!
# Instants

An `Instant` is a point of time since the beginning of 1970, in nanoseconds. It is written as a
date and a time of day in coordinated universal time (`Instant.print`). Dates are counted in years
that begin in March (`Date.ofDays`), so that a leap day is the last day of its year.
-/

namespace Quire

/-- A day of the Gregorian calendar. -/
structure Date where
  year : Nat
  month : Nat
  day : Nat
  deriving DecidableEq, Repr

/-- The days from the first of March of the year zero to the beginning of 1970. -/
def Date.epoch : Nat := 719468

/-- The date that is a number of days after the beginning of 1970. -/
def Date.ofDays (days : Nat) : Date :=
  let days := days + epoch
  -- Four centuries have 146097 days.
  let rest := days % 146097
  let years := (rest - rest / 1460 + rest / 36524 - rest / 146096) / 365
  let ofYear := rest - (365 * years + years / 4 - years / 100)
  -- Five months from March or August on have 153 days.
  let monthFromMarch := (5 * ofYear + 2) / 153
  let day := ofYear - (153 * monthFromMarch + 2) / 5 + 1
  let year := 400 * (days / 146097) + years
  if monthFromMarch < 10 then ⟨year, monthFromMarch + 3, day⟩
  else ⟨year + 1, monthFromMarch - 9, day⟩

/-- A point of time. -/
structure Instant where
  nanoseconds : Nat
  deriving DecidableEq, Repr

namespace Instant

/-- A number with zeros in front, so that it has at least `width` digits. -/
def padded (width n : Nat) : Text :=
  let digits := Text.decimal n
  List.replicate (width - digits.length) '0' ++ digits

/-- A part of a second, with no more digits than needed in groups of three. -/
def fraction (nanoseconds : Nat) : Text :=
  if nanoseconds = 0 then []
  else if nanoseconds % 1000000 = 0 then '.' :: padded 3 (nanoseconds / 1000000)
  else if nanoseconds % 1000 = 0 then '.' :: padded 6 (nanoseconds / 1000)
  else '.' :: padded 9 nanoseconds

/-- A point of time as it is written. -/
def print (t : Instant) : Text :=
  let seconds := t.nanoseconds / 1000000000
  let date := Date.ofDays (seconds / 86400)
  Text.joinWith ['-'] [padded 4 date.year, padded 2 date.month, padded 2 date.day] ++ ['T'] ++
    Text.joinWith [':'] [padded 2 (seconds / 3600 % 24), padded 2 (seconds / 60 % 60),
      padded 2 (seconds % 60)] ++
    fraction (t.nanoseconds % 1000000000) ++ ['Z']

/-- The time in whole milliseconds. -/
def milliseconds (t : Instant) : Nat := t.nanoseconds / 1000000

end Instant

end Quire
