import ChangeCapture.Proofs.Calendar
import ChangeCapture.Proofs.Statement.Value
import ChangeCapture.Proofs.Text.Hex
import ChangeCapture.Proofs.Value.Calls
import ChangeCapture.Value.Normalize

/-! # Routes of a value agree

A value is captured from the server as it is, or from a statement as a literal, a bare number or a call.
Its column gives all of them the same meaning. -/

namespace ChangeCapture

/-! ## Bare numbers -/

/-- A text is no word with a character outside the class of the text. -/
theorem ofList_map_ne {inClass : Char → Bool} {f : Char → Char} {text : List Char}
    (htext : ∀ c ∈ text, inClass (f c)) {word : String} (hword : word.toList.all inClass = false) :
    String.ofList (text.map f) ≠ word := by
  rintro rfl
  rw [String.toList_ofList] at hword
  refine Bool.eq_false_iff.mp hword (List.all_eq_true.mpr fun c hc => ?_)
  obtain ⟨d, hd, rfl⟩ := List.mem_map.mp hc
  exact htext d hd

namespace Expression

variable {source : List Char}

theorem isNumberChar_toUpper {c : Char} (h : isNumberChar c = true) : isNumberChar c.toUpper = true := by
  rcases isNumberChar_iff.mp h with hdigit | rfl | rfl | rfl | rfl | rfl
  · rwa [Text.toUpper_of_isDigit hdigit]
  all_goals decide

/-- A bare number is no call. -/
theorem callArguments?_number (name : String) (hsource : ∀ c ∈ source, isNumberChar c) :
    callArguments? name source = none := by
  refine Option.eq_none_iff_forall_ne_some.mpr fun inner hinner => ?_
  obtain ⟨word, _, rfl⟩ := callArguments?_eq_some.mp hinner
  have hparen := hsource '(' (by simp)
  revert hparen
  decide

theorem trim_number (hsource : ∀ c ∈ source, isNumberChar c) : Text.trim source = source :=
  Text.trim_of_not_isBlank fun c hc => (isPlainChar_iff.mp (isPlainChar_of_isNumberChar (hsource c hc))).1

/-- A bare number stands for its own text. -/
theorem content_number (hsource : ∀ c ∈ source, isNumberChar c) : content source = .ok (.text source) := by
  -- a number stays one in upper case, and each of the fixed words has a letter that no number has
  have hword (word : String) (hword : word.toList.all isNumberChar = false) :
      String.ofList (Text.upperAscii source) ≠ word :=
    ofList_map_ne (fun c hc => isNumberChar_toUpper (hsource c hc)) hword
  simp only [content, trim_number hsource, callArguments?_number _ hsource, hword "EMPTY_CLOB()" (by decide),
    hword "EMPTY_BLOB()" (by decide), hword "NULL" (by decide), if_false, Option.orElse_eq_orElse,
    Option.orElse_eq_or, Option.none_or]

end Expression

/-! ## Integers -/

section Integers

open Text (isDigit_of_mem_toDigits)

theorem isNumberChar_toString (n : Int) : ∀ c ∈ (toString n).toList, isNumberChar c := by
  intro c hc
  rw [Text.toList_toString_int] at hc
  rcases List.mem_append.mp hc with hc | hc
  · split at hc
    · rw [List.mem_singleton.mp hc]
      rfl
    · cases hc
  · exact isNumberChar_iff.mpr (.inl (isDigit_of_mem_toDigits c hc))

theorem Decimal.spanDigits_toDigits (n : Nat) : spanDigits (Nat.toDigits 10 n) = (Nat.toDigits 10 n, []) := by
  have htake : (Nat.toDigits 10 n).takeWhile Char.isDigit = Nat.toDigits 10 n :=
    List.takeWhile_eq_self_iff.mpr isDigit_of_mem_toDigits
  have hdrop : (Nat.toDigits 10 n).dropWhile Char.isDigit = [] :=
    List.dropWhile_eq_nil_iff.mpr isDigit_of_mem_toDigits
  rw [spanDigits, List.span_eq_takeWhile_dropWhile, htake, hdrop]

theorem Decimal.readUnsigned?_toDigits (negative : Bool) (n : Nat) :
    readUnsigned? negative (Nat.toDigits 10 n) = some ⟨negative, n, 0⟩ := by
  simp [readUnsigned?, spanDigits_toDigits, Text.readDecimal?_toDigits, readExponent?]

theorem Decimal.takeSign_toString (n : Int) :
    takeSign (toString n).toList = (decide (n < 0), Nat.toDigits 10 n.natAbs) := by
  rw [Text.toList_toString_int]
  by_cases hneg : n < 0
  · simp [hneg, takeSign]
  · rw [if_neg hneg, List.nil_append, takeSign]
    · simp [hneg]
    · exact Text.toDigits_ne_cons rfl _
    · exact Text.toDigits_ne_cons rfl _

/-- Digits are none of the words that stand for numbers. -/
theorem Decimal.lower_toDigits_ne (n : Nat) (word : String) (hword : word.toList.all Char.isDigit = false) :
    String.ofList ((Nat.toDigits 10 n).map Char.toLower) ≠ word := by
  refine ofList_map_ne (fun c hc => ?_) hword
  have hdigit := isDigit_of_mem_toDigits c hc
  rwa [Text.toLower_of_isDigit hdigit]

theorem Decimal.readNumberText?_toString (n : Int) :
    readNumberText? (toString n).toList = some (.numeral ⟨decide (n < 0), n.natAbs, 0⟩) := by
  rw [readNumberText?, takeSign_toString]
  simp [lower_toDigits_ne n.natAbs "nan" (by decide), lower_toDigits_ne n.natAbs "inf" (by decide),
    lower_toDigits_ne n.natAbs "infinity" (by decide), readUnsigned?_toDigits]

end Integers

/-! ## Values -/

namespace Value

open Expression
open Text.Hex (Writes)

variable {column : Column}

/-- The column gives the value to all that is captured. -/
def GivesAll (column : Column) (json : Json) (captured : List RawValue) : Prop :=
  ∀ value ∈ captured, normalize column (some value) = .ok json

/-- An integer from the server and its text in a statement. -/
def integerRoutes (n : Int) : List RawValue :=
  [.integer n, .text (toString n), .literal (toString n), .expression (toString n)]

/-- Bytes from the server and their digits in a statement. -/
def binaryRoutes (bytes : List UInt8) (digits : String) : List RawValue :=
  [.binary bytes, .text digits, .literal digits, .expression ("HEXTORAW('" ++ digits ++ "')")]

/-- A date-time from the server and its text in a statement. -/
def dateTimeRoutes (ts : Calendar.DateTime) : List RawValue :=
  let text := String.ofList ts.writeSpaced
  [.timestamp ts, .text text, .literal text, .expression ("TO_TIMESTAMP('" ++ text ++ "')")]

theorem givesAll_of_eq {json : Json} {native text literal expression : RawValue}
    (hnative : normalize column (some native) = .ok json) (htext : normalize column (some text) = .ok json)
    (hliteral : normalize column (some literal) = .ok json)
    (hexpression : normalize column (some expression) = .ok json) :
    GivesAll column json [native, text, literal, expression] := by
  simp [GivesAll, hnative, htext, hliteral, hexpression]

/-- A text without quotes is worth as much in a literal. -/
theorem normalize_literal {text : String} (h : '\'' ∉ text.toList) :
    normalize column (some (.literal text)) = normalize column (some (.text text)) := by
  simp only [normalize, Literal.unescape_of_not_mem h]

theorem normalize_expression {source text : String} (h : content source.toList = .ok (.text text.toList)) :
    normalize column (some (.expression source)) = normalize column (some (.text text)) := by
  simp only [normalize, h, bind, Except.bind]

/-- A call with a quoted argument at its front. -/
theorem isCall_quoted (wrapper : Wrapper) (argument : String) :
    IsCall wrapper.name (wrapper.name ++ "('" ++ argument ++ "')").toList
      ('\'' :: (argument.toList ++ '\'' :: [])) :=
  ⟨wrapper.name.toList, by cases wrapper <;> decide, by simp⟩

theorem content_quoted (wrapper : Wrapper) {argument : String} (h : '\'' ∉ argument.toList) :
    content (wrapper.name ++ "('" ++ argument ++ "')").toList =
      wrapper.decode argument.toList (wrapper.name ++ "('" ++ argument ++ "')").toList := by
  have hcall := isCall_quoted wrapper argument
  have hopens := @opens_escape argument.toList [] (by simp)
  rw [Literal.escape_of_not_mem h] at hopens
  rw [Wrapper.content_eq hcall, firstLiteral_eq_ok.mpr ⟨[], hopens⟩]
  rfl

theorem givesAll_integer {n : Int} (hmin : Text.minInt64 ≤ n) (hmax : n ≤ Text.maxInt64)
    (hkind : ColumnKind.ofTypeName column.typeName = .integer ∨ ColumnKind.ofTypeName column.typeName = .decimal) :
    GivesAll column (ofInteger (ColumnKind.ofTypeName column.typeName) n) (integerRoutes n) := by
  have hchars := isNumberChar_toString n
  have hquote : '\'' ∉ (toString n).toList := fun hmem => absurd (hchars _ hmem) (by decide)
  have htext : normalize column (some (.text (toString n))) =
      .ok (ofInteger (ColumnKind.ofTypeName column.typeName) n) := by
    simp only [normalize]
    rcases hkind with hkind | hkind
    · rw [hkind, ofText, trim_number hchars, Text.readInt64?_toString hmin hmax]
      rfl
    · rw [hkind, ofText, trim_number hchars, Decimal.readNumberText?_toString]
      simp [Column.valueOf, ofInteger, ofChars]
  have hliteral := (normalize_literal hquote).trans htext
  have hexpression := (normalize_expression (content_number hchars)).trans htext
  exact givesAll_of_eq rfl htext hliteral hexpression

theorem givesAll_binary {bytes : List UInt8} {digits : String} (h : Writes digits.toList bytes)
    (hkind : ColumnKind.ofTypeName column.typeName = .binary) :
    GivesAll column (ofBytes .binary bytes) (binaryRoutes bytes digits) := by
  have hdecode : Text.Hex.decode digits = .ok bytes := Text.Hex.decode_eq_ok.mpr h
  have hnative : normalize column (some (.binary bytes)) = .ok (ofBytes .binary bytes) := by
    simp only [normalize, hkind]
  have htext : normalize column (some (.text digits)) = .ok (ofBytes .binary bytes) := by
    simp only [normalize, hkind, ofText, h.trim_eq, String.ofList_toList, hdecode]
    rfl
  have hliteral := (normalize_literal h.not_mem_quote).trans htext
  have hcontent := content_quoted .raw h.not_mem_quote
  have hexpression : normalize column (some (.expression ("HEXTORAW('" ++ digits ++ "')"))) =
      .ok (ofBytes .binary bytes) := by
    simp only [Wrapper.decode, h.trim_eq, String.ofList_toList, hdecode] at hcontent
    simp only [normalize, hkind]
    exact congrArg (· >>= _) hcontent
  exact givesAll_of_eq hnative htext hliteral hexpression

theorem givesAll_dateTime {ts : Calendar.DateTime} (h : ts.IsPlain)
    (hkind : ColumnKind.ofTypeName column.typeName = .date ∨ ColumnKind.ofTypeName column.typeName = .timestamp) :
    GivesAll column (ofTimestamp (ColumnKind.ofTypeName column.typeName) ts) (dateTimeRoutes ts) := by
  have hquote : '\'' ∉ (String.ofList ts.writeSpaced).toList := by
    rw [String.toList_ofList]
    exact h.not_mem_writeSpaced (by decide) (by decide)
  have htext : normalize column (some (.text (String.ofList ts.writeSpaced))) =
      .ok (ofTimestamp (ColumnKind.ofTypeName column.typeName) ts) := by
    simp only [normalize, String.toList_ofList]
    rcases hkind with hkind | hkind
    · rw [hkind, ofText, h.readDateTime?_eq]
      rfl
    · rw [hkind, ofText, h.readDateTime?_eq]
      rfl
  have hliteral := (normalize_literal hquote).trans htext
  have hexpression := (normalize_expression (content_quoted .timestamp hquote)).trans htext
  exact givesAll_of_eq rfl htext hliteral hexpression

/-- An integer of 64 bits, a list of bytes and a date-time have one value each in the columns of their kinds,
whichever way they are captured. -/
theorem routes_agree (column : Column) :
    (∀ n : Int, Text.minInt64 ≤ n → n ≤ Text.maxInt64 →
      (ColumnKind.ofTypeName column.typeName = .integer → GivesAll column (.integer n) (integerRoutes n)) ∧
        (ColumnKind.ofTypeName column.typeName = .decimal →
          GivesAll column (.string (toString n)) (integerRoutes n))) ∧
      (∀ (bytes : List UInt8) (digits : String), Writes digits.toList bytes →
        ColumnKind.ofTypeName column.typeName = .binary →
          GivesAll column (.string (Text.Base64.encode bytes)) (binaryRoutes bytes digits)) ∧
      ∀ ts : Calendar.DateTime, ts.IsPlain →
        (ColumnKind.ofTypeName column.typeName = .date →
          GivesAll column (.string (String.ofList ts.date.write)) (dateTimeRoutes ts)) ∧
        (ColumnKind.ofTypeName column.typeName = .timestamp →
          GivesAll column (.string (String.ofList ts.write)) (dateTimeRoutes ts)) := by
  refine ⟨fun n hmin hmax => ⟨?_, ?_⟩, fun bytes digits hdigits => ?_, fun ts hts => ⟨?_, ?_⟩⟩
  · intro hkind
    have hvalue := givesAll_integer hmin hmax (.inl hkind)
    rwa [hkind] at hvalue
  · intro hkind
    have hvalue := givesAll_integer hmin hmax (.inr hkind)
    rwa [hkind] at hvalue
  · exact givesAll_binary hdigits
  · intro hkind
    have hvalue := givesAll_dateTime hts (.inl hkind)
    rwa [hkind] at hvalue
  · intro hkind
    have hvalue := givesAll_dateTime hts (.inr hkind)
    rwa [hkind] at hvalue

/-- The least integer, no bytes and two of them in mixed case, and a year of five digits with a fraction. -/
theorem routes_agree_of_sample :
    GivesAll ⟨"N", 1, "NUMBER(19)", true, none⟩ (.string "-9223372036854775808")
        (integerRoutes (-9223372036854775808)) ∧
      GivesAll ⟨"B", 2, "RAW(16)", true, none⟩ (.string "") (binaryRoutes [] "") ∧
      GivesAll ⟨"B", 2, "RAW(16)", true, none⟩ (.string "qw8=") (binaryRoutes [171, 15] "aB0f") ∧
      GivesAll ⟨"T", 3, "datetime2", true, none⟩ (.string "+12345-02-03T04:05:06.000120")
        [.timestamp ⟨⟨12345, 2, 3⟩, ⟨4, 5, 6, 120000⟩⟩, .text "+12345-02-03 04:05:06.000120",
          .literal "+12345-02-03 04:05:06.000120",
          .expression "TO_TIMESTAMP('+12345-02-03 04:05:06.000120')"] := by
  have hdigits : Writes "aB0f".toList [171, 15] :=
    .cons (by decide) (by decide) (.cons (by decide) (by decide) .nil)
  have hplain : Calendar.DateTime.IsPlain ⟨⟨12345, 2, 3⟩, ⟨4, 5, 6, 120000⟩⟩ :=
    ⟨by decide, by decide, by decide, by decide, by decide⟩
  have hwritten : String.ofList (Calendar.DateTime.writeSpaced ⟨⟨12345, 2, 3⟩, ⟨4, 5, 6, 120000⟩⟩) =
      "+12345-02-03 04:05:06.000120" := by decide
  have hinteger := ((routes_agree ⟨"N", 1, "NUMBER(19)", true, none⟩).1 (-9223372036854775808) (by decide)
    (by decide)).2 (by decide)
  have hempty := (routes_agree ⟨"B", 2, "RAW(16)", true, none⟩).2.1 [] "" .nil (by decide)
  have hbytes := (routes_agree ⟨"B", 2, "RAW(16)", true, none⟩).2.1 _ _ hdigits (by decide)
  have htimestamp := ((routes_agree ⟨"T", 3, "datetime2", true, none⟩).2.2 _ hplain).2 (by decide)
  simp only [dateTimeRoutes, hwritten] at htimestamp
  exact ⟨hinteger, hempty, hbytes, htimestamp⟩

end Value

end ChangeCapture
