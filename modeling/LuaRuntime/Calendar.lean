/-!
# Calendar time

The seconds from the start of 1970 to a date and a time of day.  Months, days, hours, minutes
and seconds may lie outside their usual ranges: they count on into the neighbouring months,
days and so on.

All arithmetic is on integers of 64 bits, and a step that leaves their range has no result.
What is left to a `Clock` is to find the first of a month, to go on from there by a number of
seconds, and to tell the time of the moment reached.  `utc` is the clock of the proleptic
Gregorian calendar without time zones.  It does not know a moment outside of the years that
the calendar covers.
-/

namespace LuaRuntime

namespace Calendar

/-! ## Checked arithmetic -/

/-- An integer of 64 bits, none if it does not fit. -/
def fit? (i : Int) : Option Int :=
  if -0x8000000000000000 ≤ i ∧ i < 0x8000000000000000 then some i else none

/-- A year, none if it does not fit 32 bits. -/
def fitYear? (year : Int) : Option Int :=
  if -0x80000000 ≤ year ∧ year < 0x80000000 then some year else none

/-! ## Days -/

/-- The number of leap days before the year `y` of the calendar, less a constant. -/
def leapDays (y : Int) : Int := (y - 1).fdiv 4 - (y - 1).fdiv 100 + (y - 1).fdiv 400

/-- Whether a year has a leap day. -/
def isLeap (y : Int) : Bool := y % 4 == 0 && (y % 100 != 0 || y % 400 == 0)

/-- The number of days in a common year before a month counted from 0. -/
def daysBeforeMonth (month : Nat) : Int :=
  [0, 31, 59, 90, 120, 151, 181, 212, 243, 273, 304, 334].getD month 334

/-- The days from the first of January 1970 to the first of a month, which is counted
from 0. -/
def dayNumber (year : Int) (month : Nat) : Int :=
  365 * (year - 1970) + (leapDays year - leapDays 1970) + daysBeforeMonth month
    + (if 2 ≤ month ∧ isLeap year then 1 else 0)

/-! ## Clocks -/

/-- What is known of moments. -/
structure Clock (Moment : Type) where
  /-- The start of the first of a month, which is counted from 1. -/
  firstOfMonth? : (year : Int) → (month : Nat) → Option Moment
  /-- The moment a number of seconds after another. -/
  after? : Moment → (seconds : Int) → Option Moment
  /-- The seconds since the start of 1970. -/
  timestamp? : Moment → Option Int

/-- The first year of the calendar. -/
def firstYear : Int := -262143

/-- The last year of the calendar. -/
def lastYear : Int := 262142

/-- The seconds of a day. -/
def secondsPerDay : Int := 86400

/-- Whether a moment, given as seconds since the start of 1970, lies in the calendar. -/
def covers (seconds : Int) : Bool :=
  secondsPerDay * dayNumber firstYear 0 ≤ seconds &&
    decide (seconds < secondsPerDay * dayNumber (lastYear + 1) 0)

/-- The clock without time zones, whose moments are seconds since the start of 1970. -/
def utc : Clock Int where
  firstOfMonth? year month :=
    if firstYear ≤ year ∧ year ≤ lastYear then
      some (secondsPerDay * dayNumber year (month - 1))
    else none
  after? moment seconds :=
    if covers (moment + seconds) then some (moment + seconds) else none
  timestamp? := some

/-! ## Time -/

/-- A date and a time of day. -/
structure DateTime where
  year : Int
  month : Int
  day : Int
  hour : Int
  minute : Int
  second : Int
deriving Repr, DecidableEq

/-- The number of months since the year zero. -/
def DateTime.months? (t : DateTime) : Option Int := do
  let years ← fit? (t.year * 12)
  let month ← fit? (t.month - 1)
  fit? (years + month)

/-- The seconds since the start of the first of the month. -/
def DateTime.offset? (t : DateTime) : Option Int := do
  let hours ← fit? (t.hour * 3600)
  let minutes ← fit? (t.minute * 60)
  let clock ← fit? (hours + minutes)
  let clock ← fit? (clock + t.second)
  let days ← fit? (t.day - 1)
  let days ← fit? (days * secondsPerDay)
  fit? (days + clock)

/-- The seconds since the start of 1970, as a clock tells them. -/
def DateTime.timestamp? {Moment : Type} (clock : Clock Moment) (t : DateTime) : Option Int := do
  let months ← t.months?
  let year ← fitYear? (months.fdiv 12)
  let first ← clock.firstOfMonth? year ((months.fmod 12).toNat + 1)
  let moment ← clock.after? first (← t.offset?)
  clock.timestamp? moment

end Calendar

end LuaRuntime
