import ChangeCapture.Proofs.Numerals
import ChangeCapture.Proofs.Value.Calls
import ChangeCapture.Value.Normalize

/-! # Values of decimal columns

A decimal column keeps the text of a number. Whichever way a value is captured, its text is a numeral, or it
is one of the words for infinity and for no number, which the reader of numbers takes as well. -/

namespace ChangeCapture

/-! ## Contents of expressions -/

namespace Expression

variable {source : List Char} {value : Content}

/-- Only the call for bytes stands for bytes. -/
theorem Wrapper.eq_text_or_bytes {wrapper : Wrapper} {argument expr : List Char}
    (h : wrapper.decode argument expr = .ok value) :
    (∃ text, value = .text text) ∨ (wrapper = .raw ∧ ∃ bytes, value = .bytes bytes) := by
  cases wrapper with
  | date | timestamp | zonedTimestamp =>
      cases h
      exact .inl ⟨_, rfl⟩
  | escapedText =>
      dsimp only [decode] at h
      split at h
      · cases h
        exact .inl ⟨_, rfl⟩
      · cases h
  | raw =>
      dsimp only [decode] at h
      split at h
      · cases h
        exact .inr ⟨rfl, _, rfl⟩
      · cases h

/-- What is no call stands for its own text, but for three words. -/
theorem content_of_not_call
    (h : ∀ (wrapper : Wrapper) inner, ¬ IsCall wrapper.name (Text.trim source) inner) :
    content source =
      if Text.upperAscii (Text.trim source) = "EMPTY_CLOB()".toList then .ok (.text [])
      else if Text.upperAscii (Text.trim source) = "EMPTY_BLOB()".toList then .ok (.bytes [])
      else if Text.upperAscii (Text.trim source) = "NULL".toList then .ok .null
      else .ok (.text (Text.trim source)) := by
  have hnone (wrapper : Wrapper) : callArguments? wrapper.name (Text.trim source) = none :=
    Option.eq_none_iff_forall_ne_some.mpr fun inner hinner =>
      h wrapper inner (callArguments?_eq_some.mp hinner)
  have hdate := hnone .date
  have htimestamp := hnone .timestamp
  have hzoned := hnone .zonedTimestamp
  have hescaped := hnone .escapedText
  have hraw := hnone .raw
  simp only [Wrapper.name] at hdate htimestamp hzoned hescaped hraw
  simp only [content, hdate, htimestamp, hzoned, hescaped, hraw, Option.orElse_eq_orElse,
    Option.orElse_eq_or, Option.none_or, ← String.toList_inj, String.toList_ofList]

/-- An expression stands for bytes only as a call for them, and for null only as the word. -/
theorem content_cases (h : content source = .ok value) :
    (∃ text, value = .text text) ∨
      (∃ bytes, value = .bytes bytes ∧ ((∃ inner, IsCall "HEXTORAW" (Text.trim source) inner) ∨
        Text.upperAscii (Text.trim source) = "EMPTY_BLOB()".toList)) ∨
      (value = .null ∧ Text.upperAscii (Text.trim source) = "NULL".toList) := by
  by_cases hcall : ∃ (wrapper : Wrapper) (inner : List Char), IsCall wrapper.name (Text.trim source) inner
  · obtain ⟨wrapper, inner, hcall⟩ := hcall
    have htrimmed : content (Text.trim source) = .ok value := by
      rwa [content, Wrapper.trim_eq hcall]
    obtain ⟨argument, _, _, hvalue⟩ := (Wrapper.content_eq_ok hcall).mp htrimmed
    rcases Wrapper.eq_text_or_bytes hvalue with htext | ⟨rfl, bytes, hbytes⟩
    · exact .inl htext
    · exact .inr (.inl ⟨bytes, hbytes, .inl ⟨inner, hcall⟩⟩)
  · rw [content_of_not_call fun wrapper inner h => hcall ⟨wrapper, inner, h⟩] at h
    split_ifs at h with hclob hblob hnull <;> cases h
    · exact .inl ⟨_, rfl⟩
    · exact .inr (.inl ⟨_, rfl, .inr hblob⟩)
    · exact .inr (.inr ⟨rfl, hnull⟩)
    · exact .inl ⟨_, rfl⟩

end Expression

/-! ## Texts of values -/

namespace Value

open Decimal (IsNumeral IsNumberWord)
open Expression (content IsCall)

/-- The value is a text or a number, and no call for bytes. -/
def IsTextual : RawValue → Prop
  | .text _ | .literal _ | .integer _ | .float _ => True
  | .expression source => (∀ inner, ¬ IsCall "HEXTORAW" (Text.trim source.toList) inner) ∧
      Text.upperAscii (Text.trim source.toList) ≠ "EMPTY_BLOB()".toList
  | .binary _ | .boolean _ | .timestamp _ => False

/-- The value is the expression for null, in any case. -/
def IsNullWord (value : RawValue) : Prop :=
  ∃ source : String, value = .expression source ∧
    Text.upperAscii (Text.trim source.toList) = "NULL".toList

/-- The text by which a decimal column knows the value. -/
inductive DecimalText : RawValue → List Char → Prop where
  | text (s : String) : DecimalText (.text s) (Text.trim s.toList)
  | literal (body : String) : DecimalText (.literal body) (Text.trim (Literal.unescape body.toList))
  | expression {source : String} {text : List Char} (hcontent : content source.toList = .ok (.text text)) :
      DecimalText (.expression source) (Text.trim text)
  | integer (n : Int) : DecimalText (.integer n) (toString n).toList
  | float (x : Decimal.Binary64) : DecimalText (.float x) (Decimal.render x).toList

variable {column : Column} {value : RawValue} {text : List Char}

theorem ofText_of_number (h : IsNumeral (Text.trim text) ∨ IsNumberWord (Text.trim text)) :
    ofText column .decimal text = .ok (.string (String.ofList (Text.trim text))) := by
  obtain ⟨n, hn⟩ := Decimal.exists_readNumberText?_iff.mpr h
  simp only [ofText, hn]
  rfl

theorem ofText_of_not_number (h : ¬ (IsNumeral (Text.trim text) ∨ IsNumberWord (Text.trim text))) :
    ofText column .decimal text = .error (column.invalidValue "decimal" text) := by
  have hnone : Decimal.readNumberText? (Text.trim text) = none :=
    Option.eq_none_iff_forall_ne_some.mpr fun n hn => h (Decimal.exists_readNumberText?_iff.mp ⟨n, hn⟩)
  simp only [ofText, hnone]
  rfl

section Decimals

variable (hkind : ColumnKind.ofTypeName column.typeName = .decimal)

include hkind

/-- A text that is a number, be it only by a word, is kept. -/
theorem normalize_of_number (htext : DecimalText value text) (h : IsNumeral text ∨ IsNumberWord text) :
    normalize column (some value) = .ok (.string (String.ofList text)) := by
  cases htext with
  | text s => simpa only [normalize, hkind] using ofText_of_number h
  | literal body => simpa only [normalize, hkind] using ofText_of_number h
  | expression hcontent =>
      simpa only [normalize, hkind, hcontent, bind, Except.bind] using ofText_of_number h
  | integer n => simp only [normalize, hkind, ofInteger, String.ofList_toList]
  | float x => simp only [normalize, hkind, if_true, String.ofList_toList]

/-- All other texts are refused. -/
theorem exists_failure_of_not_number (htext : DecimalText value text)
    (h : ¬ (IsNumeral text ∨ IsNumberWord text)) :
    ∃ failure, normalize column (some value) = .error failure := by
  cases htext with
  | text s => exact ⟨_, by simpa only [normalize, hkind] using ofText_of_not_number h⟩
  | literal body => exact ⟨_, by simpa only [normalize, hkind] using ofText_of_not_number h⟩
  | expression hcontent =>
      exact ⟨_, by simpa only [normalize, hkind, hcontent, bind, Except.bind] using ofText_of_not_number h⟩
  | integer n => exact absurd (.inl (Decimal.isNumeral_toString n)) h
  | float x =>
      refine absurd ?_ h
      cases hfinite : x.isFinite with
      | true => exact .inl (Decimal.isNumeral_render hfinite)
      | false => exact .inr (Decimal.isNumberWord_render hfinite)

omit hkind in
/-- A textual value has a text, unless it is the word for null or an expression that cannot be read. -/
theorem textual_cases (h : IsTextual value) :
    (∃ text, DecimalText value text) ∨ (IsNullWord value ∧ normalize column (some value) = .ok .null) ∨
      ∃ failure, normalize column (some value) = .error failure := by
  cases value with
  | text s => exact .inl ⟨_, .text s⟩
  | literal body => exact .inl ⟨_, .literal body⟩
  | integer n => exact .inl ⟨_, .integer n⟩
  | float x => exact .inl ⟨_, .float x⟩
  | binary bytes | boolean b | timestamp ts => exact h.elim
  | expression source =>
      obtain ⟨hraw, hblob⟩ := h
      cases hcontent : content source.toList with
      | error failure => exact .inr (.inr ⟨failure, by simp only [normalize, hcontent, bind, Except.bind]⟩)
      | ok found =>
          rcases Expression.content_cases hcontent with ⟨text, rfl⟩ | ⟨bytes, _, hbytes⟩ | ⟨rfl, hnull⟩
          · exact .inl ⟨_, .expression hcontent⟩
          · exact (hbytes.elim (fun ⟨inner, hcall⟩ => hraw inner hcall) hblob).elim
          · refine .inr (.inl ⟨⟨source, rfl, hnull⟩, ?_⟩)
            simp only [normalize, hcontent, bind, Except.bind]
            rfl

end Decimals

/-! ## Numerals -/

/-- The value is refused, or it is null by its word, or it becomes a decimal numeral. -/
def GivesNumeral (column : Column) (value : RawValue) : Prop :=
  (∃ failure, normalize column (some value) = .error failure) ∨
    (IsNullWord value ∧ normalize column (some value) = .ok .null) ∨
    ∃ text, IsNumeral text ∧ normalize column (some value) = .ok (.string (String.ofList text))

/-- A textual value of a decimal column is refused, null by its word, or a numeral, unless its text is a
word for infinity or for no number; such a word is kept as it is. An integer always becomes a numeral, a
binary number exactly if it is finite. -/
theorem gives_numeral_iff (hkind : ColumnKind.ofTypeName column.typeName = .decimal) :
    (∀ value, IsTextual value →
        (GivesNumeral column value ↔ ∀ text, DecimalText value text → ¬ IsNumberWord text)) ∧
      (∀ value text, DecimalText value text → IsNumberWord text →
        normalize column (some value) = .ok (.string (String.ofList text))) ∧
      (∀ n, GivesNumeral column (.integer n)) ∧
      ∀ x, GivesNumeral column (.float x) ↔ x.isFinite = true := by
  have hgives (value : RawValue) (hvalue : IsTextual value) :
      GivesNumeral column value ↔ ∀ text, DecimalText value text → ¬ IsNumberWord text := by
    refine ⟨fun hgives text htext hword => ?_, fun hwords => ?_⟩
    · have hkept := normalize_of_number hkind htext (.inr hword)
      rcases hgives with ⟨failure, hfailure⟩ | ⟨_, hnull⟩ | ⟨numeral, hnumeral, hsame⟩
      · cases hkept.symm.trans hfailure
      · cases hkept.symm.trans hnull
      · have hstring := Json.string.inj (Except.ok.inj (hkept.symm.trans hsame))
        exact hnumeral.not_isNumberWord (String.ofList_inj.mp hstring ▸ hword)
    · rcases @textual_cases column value hvalue with ⟨text, htext⟩ | hnull | hfailure
      · by_cases hnumeral : IsNumeral text
        · exact .inr (.inr ⟨text, hnumeral, normalize_of_number hkind htext (.inl hnumeral)⟩)
        · exact .inl (exists_failure_of_not_number hkind htext (not_or.mpr ⟨hnumeral, hwords text htext⟩))
      · exact .inr (.inl hnull)
      · exact .inl hfailure
  refine ⟨hgives, fun value text htext hword => normalize_of_number hkind htext (.inr hword), ?_, ?_⟩
  · refine fun n => (hgives (.integer n) trivial).mpr ?_
    rintro _ ⟨⟩
    exact (Decimal.isNumeral_toString n).not_isNumberWord
  · refine fun x => (hgives (.float x) trivial).trans ⟨fun hwords => ?_, ?_⟩
    · by_contra hfinite
      exact hwords _ (.float x) (Decimal.isNumberWord_render (Bool.eq_false_iff.mpr hfinite))
    · rintro hfinite _ ⟨⟩
      exact (Decimal.isNumeral_render hfinite).not_isNumberWord

/-- A number between blanks without a digit before its point, a signed word, and the greatest number. -/
theorem gives_numeral_iff_of_sample :
    GivesNumeral ⟨"N", 1, "decimal(10,2)", true, none⟩ (.text " -.5E+10 ") ∧
      normalize ⟨"N", 1, "decimal(10,2)", true, none⟩ (some (.expression "-Infinity")) =
        .ok (.string "-Infinity") ∧
      GivesNumeral ⟨"N", 1, "decimal(10,2)", true, none⟩ (.float ⟨0x7FEFFFFFFFFFFFFF⟩) := by
  obtain ⟨hgives, hkept, _, hfloat⟩ :=
    @gives_numeral_iff ⟨"N", 1, "decimal(10,2)", true, none⟩ (by decide)
  have hnumeral : IsNumeral "-.5E+10".toList :=
    .intro .minus (@Decimal.IsMantissa.pointed [] ['5'] (by decide) (by simp))
      (@Decimal.IsExponent.marked 'E' _ ['1', '0'] (.inr rfl) .plus (by decide) (by simp))
  have hcontent : content "-Infinity".toList = .ok (.text "-Infinity".toList) := by decide
  have hword : IsNumberWord "-Infinity".toList := .intro .minus (by decide)
  refine ⟨(hgives (.text " -.5E+10 ") trivial).mpr ?_, hkept _ _ (.expression hcontent) hword,
    (hfloat _).mpr (by decide)⟩
  rintro _ ⟨⟩
  exact hnumeral.not_isNumberWord

/-- A literal that is no number becomes the value of a decimal column. -/
theorem word_kept_as_decimal :
    normalize ⟨"c", 1, "NUMBER(10,2)", true, none⟩ (some (.literal "NaN")) = .ok (.string "NaN") ∧
      ¬ IsNumeral "NaN".toList ∧ ¬ GivesNumeral ⟨"c", 1, "NUMBER(10,2)", true, none⟩ (.literal "NaN") := by
  have hkind : ColumnKind.ofTypeName "NUMBER(10,2)" = .decimal := by decide
  have hword : IsNumberWord "NaN".toList := @IsNumberWord.intro [] "NaN".toList .absent (by decide)
  have hnumeral : ¬ IsNumeral "NaN".toList := fun h => h.not_isNumberWord hword
  have hkept : normalize ⟨"c", 1, "NUMBER(10,2)", true, none⟩ (some (.literal "NaN")) =
      .ok (.string "NaN") :=
    @normalize_of_number ⟨"c", 1, "NUMBER(10,2)", true, none⟩ _ _ hkind (.literal "NaN") (.inr hword)
  refine ⟨hkept, hnumeral, ?_⟩
  rintro (⟨failure, hfailure⟩ | ⟨_, hnull⟩ | ⟨text, htext, hsame⟩)
  · cases hkept.symm.trans hfailure
  · cases hkept.symm.trans hnull
  · have hstring := Json.string.inj (Except.ok.inj (hkept.symm.trans hsame))
    exact hnumeral (by rw [hstring, String.toList_ofList]; exact htext)

end Value

end ChangeCapture
