import ChangeCapture.Calendar.Basic
import ChangeCapture.Text.Blank
import ChangeCapture.Text.Integer

/-! # Reading dates and times -/

namespace ChangeCapture.Calendar

open Text (trim trimLeft isBlank digit? readDigits)

/-! ## Parts -/

/-- A value at the front of a text and the text after it. -/
abbrev Reader (α : Type) := List Char → Option (α × List Char)

/-- At most `max` digits at the front. -/
def takeDigits (max : Nat) (text : List Char) : List Char :=
  (text.take max).takeWhile Char.isDigit

/-- One to `max` digits. -/
def readNumber (max : Nat) : Reader Nat := fun text => do
  let digits := takeDigits max text
  if digits.isEmpty then none
  else
    let value ← readDigits 0 digits
    return (value, text.drop digits.length)

/-- A number of one or two digits after any blanks. -/
def readField : Reader Nat := fun text => readNumber 2 (trimLeft text)

/-- Exactly `width` digits. -/
def readFixed (width : Nat) : Reader Nat := fun text =>
  if (takeDigits width text).length = width then readNumber width text else none

def readChar (c : Char) : Reader Unit
  | d :: rest => if c = d then some ((), rest) else none
  | [] => none

/-- One to four digits, or a sign and any number of them, after any blanks. -/
def readYear : Reader Int := fun text =>
  match trimLeft text with
  | '-' :: rest => (readNumber rest.length rest).map fun (n, rest) => (-(n : Int), rest)
  | '+' :: rest => (readNumber rest.length rest).map fun (n, rest) => ((n : Int), rest)
  | rest => (readNumber 4 rest).map fun (n, rest) => ((n : Int), rest)

/-- One or more digits of a fraction of a second; digits after the ninth do not count. -/
def readNanos : Reader Nat := fun text => do
  let digits := takeDigits 9 text
  if digits.isEmpty then none
  else
    let value ← readDigits 0 digits
    return (value * Nat.pow 10 (9 - digits.length), (text.drop digits.length).dropWhile Char.isDigit)

/-- A point and a fraction of a second, or nothing. -/
def readFraction : Reader Nat
  | '.' :: rest => readNanos rest
  | rest => some (0, rest)

def monthNames : List String :=
  ["jan", "feb", "mar", "apr", "may", "jun", "jul", "aug", "sep", "oct", "nov", "dec"]

/-- The first three letters of the name of a month, in any case. -/
def readMonthName : Reader Nat := fun text => do
  let name := String.ofList ((text.take 3).map Char.toLower)
  let index ← monthNames.findIdx? (· == name)
  return (index + 1, text.drop 3)

/-- AM or PM, in any case; the answer is whether it is after noon. -/
def readHalfDay : Reader Bool
  | c :: m :: rest =>
      if m.toLower = 'm' then
        if c.toLower = 'a' then some (false, rest)
        else if c.toLower = 'p' then some (true, rest)
        else none
      else none
  | _ => none

/-! ## Composite parts -/

/-- Year, month and day with hyphens between them. -/
def readDate : Reader Date := fun text => do
  let (year, text) ← readYear text
  let (_, text) ← readChar '-' text
  let (month, text) ← readField text
  let (_, text) ← readChar '-' text
  let (day, text) ← readField text
  let date ← Date.of? year month day
  return (date, text)

/-- Hour and minute with a colon between them. -/
def readHourMinute : Reader (Nat × Nat) := fun text => do
  let (hour, text) ← readField text
  let (_, text) ← readChar ':' text
  let (minute, text) ← readField text
  return ((hour, minute), text)

/-- Hour, minute, second and an optional fraction. -/
def readTime : Reader TimeOfDay := fun text => do
  let ((hour, minute), text) ← readHourMinute text
  let (_, text) ← readChar ':' text
  let (second, text) ← readField text
  let (nanos, text) ← readFraction text
  let time ← TimeOfDay.of? hour minute second nanos
  return (time, text)

/-- The year of two digits: 70 to 99 belong to the twentieth century, the others to the next. -/
def centuryYear (n : Nat) : Int := if n < 70 then 2000 + n else 1900 + n

/-- Day, name of the month and year of two digits with hyphens between them. -/
def readDayMonthYear : Reader Date := fun text => do
  let (day, text) ← readField text
  let (_, text) ← readChar '-' text
  let (month, text) ← readMonthName text
  let (_, text) ← readChar '-' text
  let (year, text) ← readField text
  let date ← Date.of? (centuryYear year) month day
  return (date, text)

/-- Hour of a half day, minute and second with points between them, an optional fraction, and the half
of the day. -/
def readHalfDayTime : Reader TimeOfDay := fun text => do
  let (hour, text) ← readField text
  let (_, text) ← readChar '.' text
  let (minute, text) ← readField text
  let (_, text) ← readChar '.' text
  let (second, text) ← readField text
  let (nanos, text) ← readFraction text
  let (afternoon, text) ← readHalfDay (trimLeft text)
  if 1 ≤ hour ∧ hour ≤ 12 then
    let time ← TimeOfDay.of? (hour % 12 + if afternoon then 12 else 0) minute second nanos
    return (time, text)
  else none

/-- A sign: a plus, a hyphen or a minus. The answer is whether it is negative. -/
def readSign : Reader Bool
  | '+' :: rest => some (false, rest)
  | '-' :: rest => some (true, rest)
  | '\u2212' :: rest => some (true, rest)
  | _ => none

/-- A signed distance from universal time in hours and minutes, of two digits each, with the text
that `separator` skips between them. The answer is in minutes. -/
def readOffset (separator : Reader Unit) : Reader Int := fun text => do
  let (negative, text) ← readSign text
  let (hours, text) ← readFixed 2 text
  let (_, text) ← separator text
  let (minutes, text) ← readFixed 2 text
  if minutes < 60 then
    let total : Int := 60 * hours + minutes
    return (if negative then -total else total, text)
  else none

/-- The whole text is read. -/
def complete {α : Type} (reader : Reader α) (text : List Char) : Option α :=
  match reader text with
  | some (value, []) => some value
  | _ => none

/-! ## Written forms -/

/-- Date and time with blanks between them. -/
def readSpacedDateTime : Reader DateTime := fun text => do
  let (date, text) ← readDate text
  let (time, text) ← readTime (trimLeft text)
  return (⟨date, time⟩, text)

/-- Date and time with the letter T between them. -/
def readJoinedDateTime : Reader DateTime := fun text => do
  let (date, text) ← readDate text
  let (_, text) ← readChar 'T' text
  let (time, text) ← readTime text
  return (⟨date, time⟩, text)

/-- Date, hour and minute with blanks after the date. -/
def readMinuteDateTime : Reader DateTime := fun text => do
  let (date, text) ← readDate text
  let ((hour, minute), text) ← readHourMinute (trimLeft text)
  let time ← TimeOfDay.of? hour minute 0 0
  return (⟨date, time⟩, text)

/-- Day, month and year and a time in half days, with blanks between them. -/
def readHalfDayDateTime : Reader DateTime := fun text => do
  let (date, text) ← readDayMonthYear text
  let (time, text) ← readHalfDayTime (trimLeft text)
  return (⟨date, time⟩, text)

/-- The text without the points at its end. -/
def trimPoints (text : List Char) : List Char := (text.reverse.dropWhile (· == '.')).reverse

/-- A date with or without a time, in the first form that fits. Blanks around the text and points
after it do not count. -/
def readDateTime? (text : List Char) : Option DateTime :=
  let text := trimPoints (trim text)
  complete readSpacedDateTime text <|>
    complete readJoinedDateTime text <|>
    complete readMinuteDateTime text <|>
    complete readHalfDayDateTime text <|>
    (complete readDate text).map fun date => ⟨date, .midnight⟩

/-- A time of day with blanks around it. -/
def readTimeOfDay? (text : List Char) : Option TimeOfDay := complete readTime (trim text)

/-! ## Zoned forms -/

/-- Universal time as the letter Z, or a distance from it of less than a day. -/
def readZone : Reader Int
  | 'Z' :: rest => some (0, rest)
  | 'z' :: rest => some (0, rest)
  | text => do
      let (minutes, rest) ← readOffset (readChar ':') text
      if minutes.natAbs < 1440 then return (minutes, rest) else none

/-- The form for exchange: all fields of fixed width, and a letter T or a blank after the date. -/
def readExchangeForm : Reader ZonedDateTime := fun text => do
  let (year, text) ← readFixed 4 text
  let (_, text) ← readChar '-' text
  let (month, text) ← readFixed 2 text
  let (_, text) ← readChar '-' text
  let (day, text) ← readFixed 2 text
  let text ← match text with
    | c :: rest => if c = 'T' ∨ c = 't' ∨ c = ' ' then some rest else none
    | [] => none
  let (hour, text) ← readFixed 2 text
  let (_, text) ← readChar ':' text
  let (minute, text) ← readFixed 2 text
  let (_, text) ← readChar ':' text
  let (second, text) ← readFixed 2 text
  let (nanos, text) ← readFraction text
  let (offsetMinutes, text) ← readZone text
  let date ← Date.of? year month day
  let time ← TimeOfDay.of? hour minute second nanos
  return ({ localTime := ⟨date, time⟩, offsetMinutes }, text)

/-- Any number of colons and blanks. -/
def skipColonsAndBlanks : Reader Unit := fun text =>
  some ((), text.dropWhile fun c => c == ':' || isBlank c)

/-- Date, time and distance from universal time with blanks between them. -/
def readSpacedZoned : Reader ZonedDateTime := fun text => do
  let (localTime, text) ← readSpacedDateTime text
  let (offsetMinutes, text) ← readOffset skipColonsAndBlanks (trimLeft text)
  if offsetMinutes.natAbs < 1440 then return ({ localTime, offsetMinutes }, text) else none

/-- A date and time with a distance from universal time, in the first form that fits. -/
def readZoned? (text : List Char) : Option ZonedDateTime :=
  let text := trim text
  let represented (z : ZonedDateTime) := if z.isRepresented then some z else none
  ((complete readExchangeForm text).bind represented) <|>
    ((complete readSpacedZoned text).bind represented)

end ChangeCapture.Calendar
