/-! # Dates and times of day -/

namespace ChangeCapture.Calendar

/-! ## Dates -/

/-- A day of the Gregorian calendar, extended to all years. -/
structure Date where
  year : Int
  month : Nat
  day : Nat
  deriving DecidableEq, Repr

def isLeapYear (year : Int) : Bool := year % 4 = 0 ∧ (year % 100 ≠ 0 ∨ year % 400 = 0)

def daysInMonth (year : Int) (month : Nat) : Nat :=
  if month = 2 then (if isLeapYear year then 29 else 28)
  else if month = 4 ∨ month = 6 ∨ month = 9 ∨ month = 11 then 30
  else 31

/-- The first year that is represented. -/
def minYear : Int := -262143

/-- The last year that is represented. -/
def maxYear : Int := 262142

/-- The date of a year, month and day, if there is such a day in a represented year. -/
def Date.of? (year : Int) (month day : Nat) : Option Date :=
  if minYear ≤ year ∧ year ≤ maxYear ∧ 1 ≤ month ∧ month ≤ 12 ∧ 1 ≤ day ∧
      day ≤ daysInMonth year month then
    some { year, month, day }
  else none

/-! ## Times -/

/-- A time of day. A fraction of a second and more on top of second 59 is a leap second. -/
structure TimeOfDay where
  hour : Nat
  minute : Nat
  second : Nat
  nanos : Nat
  deriving DecidableEq, Repr

def TimeOfDay.midnight : TimeOfDay := ⟨0, 0, 0, 0⟩

/-- The time of an hour, a minute, a second up to 60 and a fraction of a second in nanoseconds. -/
def TimeOfDay.of? (hour minute second nanos : Nat) : Option TimeOfDay :=
  if 23 < hour ∨ 59 < minute ∨ 60 < second ∨ 1000000000 ≤ nanos then none
  else if second = 60 then some { hour, minute, second := 59, nanos := 1000000000 + nanos }
  else some { hour, minute, second, nanos }

structure DateTime where
  date : Date
  time : TimeOfDay
  deriving DecidableEq, Repr

/-- A local date and time with its distance from universal time in minutes. -/
structure ZonedDateTime where
  localTime : DateTime
  offsetMinutes : Int
  deriving DecidableEq, Repr

/-- The minute of universal time lies in a represented year. A local time near the ends of the range
may leave it. -/
def ZonedDateTime.isRepresented (z : ZonedDateTime) : Bool :=
  let date := z.localTime.date
  let minutes : Int := z.localTime.time.hour * 60 + z.localTime.time.minute - z.offsetMinutes
  let first := date.year = minYear ∧ date.month = 1 ∧ date.day = 1 ∧ minutes < 0
  let last := date.year = maxYear ∧ date.month = 12 ∧ date.day = 31 ∧ 1440 ≤ minutes
  !(decide first || decide last)

end ChangeCapture.Calendar
