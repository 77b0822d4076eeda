import ChangeCapture.Calendar.Reading
import ChangeCapture.Calendar.Writing
import ChangeCapture.Proofs.Text.Blank
import ChangeCapture.Proofs.Text.Integer

/-! # Dates and times are read as they are written

All fields but the year have a fixed width, and the year ends at the hyphen behind it, so that each reader
takes exactly the characters of its field. -/

namespace ChangeCapture.Calendar

open List
open Text (decimalPadded length_decimalPadded isDigit_of_mem_decimalPadded readDigits_decimalPadded)

/-! ## Date-times -/

/-- A day of the calendar in a represented year. -/
def Date.IsDay (d : Date) : Prop := Date.of? d.year d.month d.day = some d

instance (d : Date) : Decidable d.IsDay := inferInstanceAs (Decidable (_ = _))

/-- A time of day that is no leap second. -/
structure TimeOfDay.IsPlain (t : TimeOfDay) : Prop where
  hour : t.hour < 24
  minute : t.minute < 60
  second : t.second < 60
  nanos : t.nanos < 1000000000

/-- A date with a time of day that is no leap second. -/
structure DateTime.IsPlain (ts : DateTime) : Prop where
  date : ts.date.IsDay
  time : ts.time.IsPlain

/-- Date and time with a blank between them. -/
def DateTime.writeSpaced (ts : DateTime) : List Char := ts.date.write ++ ' ' :: ts.time.write

/-! ## Numbers -/

section Numbers

variable {max n value : Nat} {digits rest : List Char}

/-- Digits are taken up to the greatest width, or up to what is no digit. -/
theorem takeDigits_append (hdigits : ∀ c ∈ digits, c.isDigit) (hlength : digits.length ≤ max)
    (hend : digits.length = max ∨ ∀ c ∈ rest.head?, c.isDigit = false) :
    takeDigits max (digits ++ rest) = digits := by
  have hrest : (rest.take (max - digits.length)).takeWhile Char.isDigit = [] := by
    rcases hend with hend | hend
    · simp [hend]
    · cases hmore : max - digits.length with
      | zero => rfl
      | succ more =>
          cases rest with
          | nil => rfl
          | cons c rest => simp [hend c rfl]
  rw [takeDigits, take_append, take_of_length_le hlength, takeWhile_append_of_pos hdigits, hrest, append_nil]

theorem readNumber_append (hne : digits ≠ []) (hdigits : ∀ c ∈ digits, c.isDigit)
    (hlength : digits.length ≤ max)
    (hend : digits.length = max ∨ ∀ c ∈ rest.head?, c.isDigit = false)
    (hvalue : Text.readDigits 0 digits = some value) :
    readNumber max (digits ++ rest) = some (value, rest) := by
  have htaken := takeDigits_append hdigits hlength hend
  have hempty : digits.isEmpty = false := by simpa using hne
  simp [readNumber, htaken, hempty, hvalue]

/-- Digits are not trimmed. -/
theorem trimLeft_digits (hne : digits ≠ []) (hdigits : ∀ c ∈ digits, c.isDigit) :
    Text.trimLeft (digits ++ rest) = digits ++ rest := by
  cases digits with
  | nil => exact absurd rfl hne
  | cons c digits =>
      have hblank := Text.not_isBlank_of_isDigit (hdigits c mem_cons_self)
      exact Text.dropWhile_isBlank (by simpa using hblank)

theorem decimalPadded_ne_nil {width : Nat} (h : 0 < width) : decimalPadded width n ≠ [] := by
  rw [← length_pos_iff, length_decimalPadded]
  exact h

/-- All digits of a fixed width are taken, whatever comes next. -/
theorem readNumber_decimalPadded {width : Nat} (hwidth : 0 < width) (h : n < 10 ^ width) (rest : List Char) :
    readNumber width (decimalPadded width n ++ rest) = some (n, rest) :=
  readNumber_append (decimalPadded_ne_nil hwidth) isDigit_of_mem_decimalPadded
    (length_decimalPadded width n).le (.inl (length_decimalPadded width n)) (readDigits_decimalPadded h)

theorem readField_decimalPadded (h : n < 100) (rest : List Char) :
    readField (decimalPadded 2 n ++ rest) = some (n, rest) := by
  rw [readField, trimLeft_digits (decimalPadded_ne_nil (by decide)) isDigit_of_mem_decimalPadded]
  exact readNumber_decimalPadded (by decide) h rest

theorem readChar_cons (c : Char) (rest : List Char) : readChar c (c :: rest) = some ((), rest) := if_pos rfl

end Numbers

/-! ## Years -/

/-- The digits of a year that has a sign. -/
def signedDigits (year : Int) : List Char :=
  replicate (4 - (Nat.toDigits 10 year.natAbs).length) '0' ++ Nat.toDigits 10 year.natAbs

theorem isDigit_signedDigits (year : Int) : ∀ c ∈ signedDigits year, c.isDigit := by
  intro c hc
  rcases mem_append.mp hc with hc | hc
  · rw [(mem_replicate.mp hc).2]
    rfl
  · exact Text.isDigit_of_mem_toDigits c hc

theorem readDigits_signedDigits (year : Int) : Text.readDigits 0 (signedDigits year) = some year.natAbs := by
  have hzeros (count : Nat) (digits : List Char) :
      Text.readDigits 0 (replicate count '0' ++ digits) = Text.readDigits 0 digits := by
    induction count with
    | zero => rfl
    | succ count ih => exact ih
  rw [signedDigits, hzeros, ← Text.readDecimal?_of_ne_nil Nat.toDigits_ne_nil, Text.readDecimal?_toDigits]

theorem readNumber_signedDigits (year : Int) (rest : List Char) :
    readNumber (signedDigits year ++ '-' :: rest).length (signedDigits year ++ '-' :: rest) =
      some (year.natAbs, '-' :: rest) := by
  apply readNumber_append _ (isDigit_signedDigits year) (by simp) _ (readDigits_signedDigits year)
  · exact append_ne_nil_of_right_ne_nil _ Nat.toDigits_ne_nil
  · right
    simp

theorem readYear_of_isDigit {c : Char} {rest : List Char} (h : c.isDigit = true) :
    readYear (c :: rest) = (readNumber 4 (c :: rest)).map fun (n, rest) => ((n : Int), rest) := by
  have htrim : Text.trimLeft (c :: rest) = c :: rest :=
    Text.dropWhile_isBlank (by simpa using Text.not_isBlank_of_isDigit h)
  rw [readYear, htrim]
  -- a digit is neither of the signs
  split
  · rename_i heq
    simp [(cons.inj heq).1] at h
  · rename_i heq
    simp [(cons.inj heq).1] at h
  · rfl

theorem readYear_minus (rest : List Char) :
    readYear ('-' :: rest) = (readNumber rest.length rest).map fun (n, rest) => (-(n : Int), rest) := rfl

theorem readYear_plus (rest : List Char) :
    readYear ('+' :: rest) = (readNumber rest.length rest).map fun (n, rest) => ((n : Int), rest) := rfl

/-- A year is read up to the hyphen behind it. -/
theorem readYear_write (year : Int) (rest : List Char) :
    readYear (writeYear year ++ '-' :: rest) = some (year, '-' :: rest) := by
  by_cases hplain : 0 ≤ year ∧ year ≤ 9999
  · have hread := @readNumber_decimalPadded year.toNat 4 (by decide) (by omega) ('-' :: rest)
    have hyear : (year.toNat : Int) = year := by omega
    rw [writeYear, if_pos hplain]
    cases hdigits : decimalPadded 4 year.toNat with
    | nil => exact absurd hdigits (decimalPadded_ne_nil (by decide))
    | cons c digits =>
        have hc : c.isDigit := isDigit_of_mem_decimalPadded c (hdigits ▸ mem_cons_self)
        rw [hdigits] at hread
        rw [cons_append, readYear_of_isDigit hc, ← cons_append, hread]
        simp [hyear]
  · have hread := readNumber_signedDigits year rest
    have hwrite : writeYear year = (if year < 0 then '-' else '+') :: signedDigits year := if_neg hplain
    rw [hwrite]
    by_cases hneg : year < 0
    · have hyear : -(year.natAbs : Int) = year := by omega
      rw [if_pos hneg, cons_append, readYear_minus, hread, Option.map_some]
      exact congrArg (fun year => some (year, '-' :: rest)) hyear
    · have hyear : (year.natAbs : Int) = year := by omega
      rw [if_neg hneg, cons_append, readYear_plus, hread, Option.map_some]
      exact congrArg (fun year => some (year, '-' :: rest)) hyear

/-! ## Dates -/

theorem Date.IsDay.bounds {d : Date} (h : d.IsDay) : d.month < 100 ∧ d.day < 100 := by
  unfold Date.IsDay Date.of? at h
  split at h
  · rename_i hday
    have hdays : daysInMonth d.year d.month ≤ 31 := by
      unfold daysInMonth
      split_ifs <;> omega
    omega
  · cases h

theorem readDate_write {d : Date} (h : d.IsDay) (rest : List Char) :
    readDate (d.write ++ rest) = some (d, rest) := by
  have hmonth := @readField_decimalPadded d.month h.bounds.1
  have hday := @readField_decimalPadded d.day h.bounds.2
  have hdate : Date.of? d.year d.month d.day = some d := h
  simp [readDate, Date.write, readYear_write, readChar_cons, hmonth, hday, hdate]

/-! ## Times -/

/-- Up to nine digits of a fraction are taken. -/
theorem readNanos_decimalPadded {width n : Nat} (hwidth : 0 < width) (hle : width ≤ 9) (h : n < 10 ^ width) :
    readNanos (decimalPadded width n) = some (n * 10 ^ (9 - width), []) := by
  have htaken := @takeDigits_append 9 (decimalPadded width n) [] isDigit_of_mem_decimalPadded
    (by rwa [length_decimalPadded]) (.inr (by simp))
  have hempty : (decimalPadded width n).isEmpty = false := by simpa using decimalPadded_ne_nil hwidth
  have hrest : (decimalPadded width n).drop width = [] :=
    drop_of_length_le (length_decimalPadded width n).le
  rw [append_nil] at htaken
  simp [readNanos, htaken, hempty, readDigits_decimalPadded h, length_decimalPadded, hrest]

/-- A fraction is read from its three, six or nine digits. -/
theorem readFraction_write {nanos : Nat} (h : nanos < 1000000000) :
    readFraction (writeFraction nanos) = some (nanos, []) := by
  unfold writeFraction
  split_ifs with hzero hmillis hmicros
  · rw [hzero]
    rfl
  · have hnanos : nanos / 1000000 * 1000000 = nanos := by omega
    rw [readFraction, readNanos_decimalPadded (by decide) (by decide) (by omega)]
    simpa using hnanos
  · have hnanos : nanos / 1000 * 1000 = nanos := by omega
    rw [readFraction, readNanos_decimalPadded (by decide) (by decide) (by omega)]
    simpa using hnanos
  · rw [readFraction, readNanos_decimalPadded (by decide) (by decide) h]
    simp

theorem TimeOfDay.IsPlain.of?_eq {t : TimeOfDay} (h : t.IsPlain) :
    TimeOfDay.of? t.hour t.minute t.second t.nanos = some t := by
  obtain ⟨hhour, hminute, hsecond, hnanos⟩ := h
  rw [TimeOfDay.of?, if_neg (by omega), if_neg (by omega)]

theorem TimeOfDay.IsPlain.write_eq {t : TimeOfDay} (h : t.IsPlain) :
    t.write = decimalPadded 2 t.hour ++ ':' :: (decimalPadded 2 t.minute ++
      ':' :: (decimalPadded 2 t.second ++ writeFraction t.nanos)) := by
  have hquotient : t.nanos / 1000000000 = 0 := Nat.div_eq_of_lt h.nanos
  have hrest : t.nanos % 1000000000 = t.nanos := Nat.mod_eq_of_lt h.nanos
  simp [TimeOfDay.write, hquotient, hrest]

theorem readTime_write {t : TimeOfDay} (h : t.IsPlain) : readTime t.write = some (t, []) := by
  obtain ⟨hhour, hminute, hsecond, hnanos⟩ := id h
  have hhour := @readField_decimalPadded t.hour (by omega)
  have hminute := @readField_decimalPadded t.minute (by omega)
  have hsecond := @readField_decimalPadded t.second (by omega)
  rw [h.write_eq]
  simp [readTime, readHourMinute, readChar_cons, hhour, hminute, hsecond, readFraction_write hnanos, h.of?_eq]

/-! ## Texts of date-times -/

section Ends

variable {width n nanos : Nat} {year : Int} {c : Char}

theorem not_mem_decimalPadded (hc : c.isDigit = false) : c ∉ decimalPadded width n := fun hmem => by
  simp [isDigit_of_mem_decimalPadded c hmem] at hc

theorem not_mem_writeYear (hc : c.isDigit = false) (hminus : c ≠ '-') (hplus : c ≠ '+') : c ∉ writeYear year := by
  have hdigits : c ∉ signedDigits year := fun hmem => by simp [isDigit_signedDigits year c hmem] at hc
  unfold writeYear
  split_ifs
  · exact not_mem_decimalPadded hc
  · exact not_mem_cons_of_ne_of_not_mem hminus hdigits
  · exact not_mem_cons_of_ne_of_not_mem hplus hdigits

theorem not_mem_writeFraction (hc : c.isDigit = false) (hpoint : c ≠ '.') : c ∉ writeFraction nanos := by
  unfold writeFraction
  split_ifs <;> simp [hpoint, not_mem_decimalPadded hc]

/-- A year begins with a digit or a sign. -/
theorem exists_head?_writeYear (year : Int) : ∃ c, (writeYear year).head? = some c ∧ Text.isBlank c = false := by
  unfold writeYear
  split_ifs
  · cases hhead : (decimalPadded 4 year.toNat).head? with
    | none => exact absurd (head?_eq_none_iff.mp hhead) (decimalPadded_ne_nil (by decide))
    | some c =>
        have hdigit := isDigit_of_mem_decimalPadded c (mem_of_mem_head? hhead)
        exact ⟨c, rfl, Text.not_isBlank_of_isDigit hdigit⟩
  · exact ⟨'-', rfl, by decide⟩
  · exact ⟨'+', rfl, by decide⟩

theorem exists_isDigit_getLast? (front : List Char) (h : 0 < width) :
    ∃ c, (front ++ decimalPadded width n).getLast? = some c ∧ c.isDigit := by
  cases hlast : (decimalPadded width n).getLast? with
  | none => exact absurd (getLast?_eq_none_iff.mp hlast) (decimalPadded_ne_nil h)
  | some c =>
      exact ⟨c, by simp [getLast?_append, hlast], isDigit_of_mem_decimalPadded c (mem_of_getLast? hlast)⟩

/-- A time ends with a digit, with or without a fraction. -/
theorem exists_isDigit_writeFraction (front : List Char) :
    ∃ c, (front ++ (decimalPadded 2 n ++ writeFraction nanos)).getLast? = some c ∧ c.isDigit := by
  have hpoint {width n : Nat} (front : List Char) (hwidth : 0 < width) :
      ∃ c, (front ++ '.' :: decimalPadded width n).getLast? = some c ∧ c.isDigit := by
    rw [append_cons]
    exact exists_isDigit_getLast? (front ++ ['.']) hwidth
  rw [← append_assoc]
  unfold writeFraction
  split_ifs
  · rw [append_nil]
    exact exists_isDigit_getLast? front (by decide)
  · exact hpoint _ (by decide)
  · exact hpoint _ (by decide)
  · exact hpoint _ (by decide)

theorem trimPoints_of_last {text : List Char} (h : ∀ c ∈ text.getLast?, c ≠ '.') : trimPoints text = text := by
  have hkeep : text.reverse.dropWhile (· == '.') = text.reverse := by
    cases hreverse : text.reverse with
    | nil => rfl
    | cons c rest =>
        have hc : c ≠ '.' := h c (by rw [← head?_reverse, hreverse]; rfl)
        exact dropWhile_cons_of_neg (by simpa using hc)
  rw [trimPoints, hkeep, reverse_reverse]

end Ends

namespace DateTime.IsPlain

variable {ts : DateTime}

theorem readSpaced (h : ts.IsPlain) : readSpacedDateTime ts.writeSpaced = some (ts, []) := by
  have htrim : Text.trimLeft (' ' :: ts.time.write) = ts.time.write := by
    have hskip : Text.trimLeft (' ' :: ts.time.write) = Text.trimLeft ts.time.write := rfl
    rw [hskip, h.time.write_eq,
      trimLeft_digits (decimalPadded_ne_nil (by decide)) isDigit_of_mem_decimalPadded]
  simp [readSpacedDateTime, writeSpaced, readDate_write h.date, htrim, readTime_write h.time]

theorem exists_isDigit_getLast? (h : ts.IsPlain) : ∃ c, ts.writeSpaced.getLast? = some c ∧ c.isDigit := by
  obtain ⟨c, hlast, hdigit⟩ := @exists_isDigit_writeFraction ts.time.second ts.time.nanos
    (ts.date.write ++ ' ' :: (decimalPadded 2 ts.time.hour ++ ':' :: (decimalPadded 2 ts.time.minute ++ [':'])))
  refine ⟨c, ?_, hdigit⟩
  rw [writeSpaced, h.time.write_eq, ← hlast]
  simp

/-- A date-time is read as it is written. -/
theorem readDateTime?_eq (h : ts.IsPlain) : readDateTime? ts.writeSpaced = some ts := by
  obtain ⟨first, hfirst, hblank⟩ := exists_head?_writeYear ts.date.year
  obtain ⟨c, hlast, hdigit⟩ := h.exists_isDigit_getLast?
  have hends : Text.trim ts.writeSpaced = ts.writeSpaced := by
    apply Text.trim_of_ends
    · simpa [writeSpaced, Date.write, hfirst] using hblank
    · simpa [hlast] using Text.not_isBlank_of_isDigit hdigit
  have hpoint : c ≠ '.' := by
    rintro rfl
    cases hdigit
  have hpoints : trimPoints ts.writeSpaced = ts.writeSpaced :=
    trimPoints_of_last (by simpa [hlast] using hpoint)
  simp [readDateTime?, hends, hpoints, complete, h.readSpaced]

theorem not_mem_writeSpaced (h : ts.IsPlain) {c : Char} (hc : c.isDigit = false)
    (hmark : c ∉ ['-', '+', ':', '.', ' ']) : c ∉ ts.writeSpaced := by
  simp only [mem_cons, not_mem_nil, or_false, not_or] at hmark
  obtain ⟨hminus, hplus, hcolon, hpoint, hblank⟩ := hmark
  simp [writeSpaced, Date.write, h.time.write_eq, not_mem_decimalPadded hc, not_mem_writeYear hc hminus hplus,
    not_mem_writeFraction hc hpoint, hminus, hcolon, hblank]

end DateTime.IsPlain

end ChangeCapture.Calendar
