import ChangeCapture.Calendar.Basic
import ChangeCapture.Text.Integer

/-! # Writing dates and times -/

namespace ChangeCapture.Calendar

open Text (decimalPadded)

/-- Four digits, or a sign and at least four digits for a year outside 0 to 9999. -/
def writeYear (year : Int) : List Char :=
  if 0 ≤ year ∧ year ≤ 9999 then decimalPadded 4 year.toNat
  else
    let sign := if year < 0 then '-' else '+'
    let digits := Nat.toDigits 10 year.natAbs
    sign :: (List.replicate (4 - digits.length) '0' ++ digits)

/-- Year, month and day with hyphens between them. -/
def Date.write (d : Date) : List Char :=
  writeYear d.year ++ ['-'] ++ decimalPadded 2 d.month ++ ['-'] ++ decimalPadded 2 d.day

/-- Nothing, or a point and three, six or nine digits, the fewest that hold the fraction. -/
def writeFraction (nanos : Nat) : List Char :=
  if nanos = 0 then []
  else if nanos % 1000000 = 0 then '.' :: decimalPadded 3 (nanos / 1000000)
  else if nanos % 1000 = 0 then '.' :: decimalPadded 6 (nanos / 1000)
  else '.' :: decimalPadded 9 nanos

/-- Hour, minute, second and fraction; a leap second is second 60. -/
def TimeOfDay.write (t : TimeOfDay) : List Char :=
  let second := t.second + t.nanos / 1000000000
  decimalPadded 2 t.hour ++ [':'] ++ decimalPadded 2 t.minute ++ [':'] ++
    decimalPadded 2 second ++ writeFraction (t.nanos % 1000000000)

/-- Date and time with the letter T between them. -/
def DateTime.write (ts : DateTime) : List Char := ts.date.write ++ ['T'] ++ ts.time.write

/-- A signed distance from universal time in hours and minutes. -/
def writeOffset (minutes : Int) : List Char :=
  let sign := if minutes < 0 then '-' else '+'
  sign :: (decimalPadded 2 (minutes.natAbs / 60) ++ [':'] ++ decimalPadded 2 (minutes.natAbs % 60))

/-- Date, time and distance from universal time. -/
def ZonedDateTime.write (z : ZonedDateTime) : List Char :=
  z.localTime.write ++ writeOffset z.offsetMinutes

end ChangeCapture.Calendar
