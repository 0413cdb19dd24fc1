-- SUMMARY: Moments in time and their calendar text.

/-! # Calendar

A moment is a number of milliseconds since the beginning of 1970, before which it
is negative. Its text has the date of the Gregorian calendar, continued in both
directions, and the time of day at Greenwich. -/

namespace PipeQuery

structure Moment where
  millis : Int
  deriving DecidableEq, Repr

namespace Moment

/-- The beginning of 1970. -/
def epoch : Moment := ⟨0⟩

/-! ## Dates -/

/-- A day of the Gregorian calendar. -/
structure Date where
  year : Int
  month : Nat
  day : Nat
  deriving DecidableEq, Repr

/-- The date of a day, counted from the beginning of 1970. Days are counted in
cycles of 400 years of 146097 days, and within a cycle from the first of March,
so that the day a leap year adds is the last of its year. -/
def dateOfDay (day : Int) : Date :=
  let shifted := day + 719468
  let cycle := shifted / 146097
  let dayOfCycle := (shifted % 146097).toNat
  let yearOfCycle :=
    (dayOfCycle - dayOfCycle / 1460 + dayOfCycle / 36524 - dayOfCycle / 146096) / 365
  let dayOfYear := dayOfCycle - (365 * yearOfCycle + yearOfCycle / 4 - yearOfCycle / 100)
  let monthFromMarch := (5 * dayOfYear + 2) / 153
  let month := if monthFromMarch < 10 then monthFromMarch + 3 else monthFromMarch - 9
  let year := yearOfCycle + cycle * 400
  { year := if month ≤ 2 then year + 1 else year
    month
    day := dayOfYear - (153 * monthFromMarch + 2) / 5 + 1 }

/-! ## Text -/

/-- A number with leading zeros up to a width. -/
def padded (width n : Nat) : String :=
  let digits := toString n
  String.ofList (List.replicate (width - digits.length) '0') ++ digits

/-- A year: four digits, with a sign outside 0 to 9999. -/
def renderYear (year : Int) : String :=
  if year < 0 then "-" ++ padded 4 year.natAbs
  else if 9999 < year then "+" ++ padded 4 year.natAbs
  else padded 4 year.natAbs

/-- Date and time to the millisecond, at Greenwich. -/
def render (m : Moment) : String :=
  let date := dateOfDay (m.millis / 86400000)
  let time := (m.millis % 86400000).toNat
  renderYear date.year ++ "-" ++ padded 2 date.month ++ "-" ++ padded 2 date.day ++ "T" ++
    padded 2 (time / 3600000) ++ ":" ++ padded 2 (time / 60000 % 60) ++ ":" ++
    padded 2 (time / 1000 % 60) ++ "." ++ padded 3 (time % 1000) ++ "Z"

end Moment

end PipeQuery
