/-!
# Times of entries

The time of an entry is a count of milliseconds since the beginning of 1970, and is written in
the proleptic Gregorian calendar.
-/
namespace SpatialIndex

/-- A day of the Gregorian calendar. -/
structure Date where
  /-- The year; the year before 1 is 0. -/
  year : Int
  /-- The month, from 1. -/
  month : Nat
  /-- The day of the month, from 1. -/
  day : Nat
deriving DecidableEq, Repr

namespace Date

/-- The days from the first of March of the year 0 to the beginning of 1970. -/
def epochDays : Int := 719468

/-- The days of four centuries. -/
def eraDays : Nat := 146097

/-- The day a count of days after the beginning of 1970. Years are counted from March, so that a
leap day is the last of its year. -/
def ofDays (days : Int) : Date :=
  let shifted := days + epochDays
  let era := shifted.fdiv eraDays
  let day := (shifted.fmod eraDays).toNat
  let year := (day - day / 1460 + day / 36524 - day / 146096) / 365
  let dayOfYear := day - (365 * year + year / 4 - year / 100)
  let fromMarch := (5 * dayOfYear + 2) / 153
  let month := if fromMarch < 10 then fromMarch + 3 else fromMarch - 9
  { year := (year : Int) + era * 400 + (if month ≤ 2 then 1 else 0)
    month
    day := dayOfYear - (153 * fromMarch + 2) / 5 + 1 }

/-- The first and the last year that can be written. -/
def years : Int × Int := (-262143, 262142)

end Date

namespace Timestamp

/-- A number with at least `width` digits. -/
def padded (width n : Nat) : String :=
  let digits := toString n
  "".pushn '0' (width - digits.length) ++ digits

/-- A year: four digits, with a sign outside the years 0 to 9999. -/
def yearText (year : Int) : String :=
  if 0 ≤ year ∧ year < 10000 then padded 4 year.toNat
  else (if year < 0 then "-" else "+") ++ padded 4 year.natAbs

/-- The time a count of milliseconds after the beginning of 1970; none outside the years that
can be written. -/
def text? (milliseconds : Int) : Option String :=
  let date := Date.ofDays (milliseconds.fdiv 86400000)
  let time := (milliseconds.fmod 86400000).toNat
  if Date.years.1 ≤ date.year ∧ date.year ≤ Date.years.2 then
    some (yearText date.year ++ "-" ++ padded 2 date.month ++ "-" ++ padded 2 date.day ++ " " ++
      padded 2 (time / 3600000) ++ ":" ++ padded 2 (time / 60000 % 60) ++ ":" ++
      padded 2 (time / 1000 % 60) ++ "." ++ padded 3 (time % 1000))
  else none

end Timestamp

end SpatialIndex
