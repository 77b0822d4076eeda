import ChangeCapture.Proofs.Text.Blank
import ChangeCapture.Text.Hex
import Mathlib.Data.UInt

/-! # Bytes are read from hexadecimal as they are written

A text denotes bytes if it has two digits for each byte, each of them in either case. -/

namespace ChangeCapture.Text.Hex

open List

/-! ## Digits -/

/-- The character is the digit of a value, in either case. -/
def IsDigitOf (c : Char) (value : Nat) : Prop :=
  value < 16 ∧ (c = lowerHexDigit value ∨ c = upperHexDigit value)

instance (c : Char) (value : Nat) : Decidable (IsDigitOf c value) := inferInstanceAs (Decidable (_ ∧ _))

/-- A byte that is read as a digit is the only byte of that digit. -/
theorem exists_isDigitOf {byte : UInt8} {value : Nat} (h : digitValue? byte = some value) :
    ∃ c, String.utf8EncodeChar c = [byte] ∧ IsDigitOf c value := by
  have hall : ∀ n < 256, ∀ value ∈ digitValue? (UInt8.ofNat n),
      String.utf8EncodeChar (Char.ofNat n) = [UInt8.ofNat n] ∧ value < 16 ∧
        (Char.ofNat n = lowerHexDigit value ∨ Char.ofNat n = upperHexDigit value) := by
    decide +kernel
  have hbyte := hall byte.toNat byte.toNat_lt value
  rw [UInt8.ofNat_toNat] at hbyte
  exact ⟨_, hbyte h⟩

/-- A digit is a single byte, which is read as its value. -/
theorem IsDigitOf.exists_byte {c : Char} {value : Nat} (h : IsDigitOf c value) :
    ∃ byte, String.utf8EncodeChar c = [byte] ∧ digitValue? byte = some value := by
  have hlower : ∀ value < 16, String.utf8EncodeChar (lowerHexDigit value) =
      [UInt8.ofNat (lowerHexDigit value).toNat] ∧
        digitValue? (UInt8.ofNat (lowerHexDigit value).toNat) = some value := by
    decide +kernel
  have hupper : ∀ value < 16, String.utf8EncodeChar (upperHexDigit value) =
      [UInt8.ofNat (upperHexDigit value).toNat] ∧
        digitValue? (UInt8.ofNat (upperHexDigit value).toNat) = some value := by
    decide +kernel
  rcases h.2 with rfl | rfl
  · exact ⟨_, hlower value h.1⟩
  · exact ⟨_, hupper value h.1⟩

theorem IsDigitOf.charValue? {c : Char} {value : Nat} (h : IsDigitOf c value) :
    charValue? c = some value := by
  have hall : ∀ value < 16, Hex.charValue? (lowerHexDigit value) = some value ∧
      Hex.charValue? (upperHexDigit value) = some value := by decide
  rcases h.2 with rfl | rfl
  · exact (hall value h.1).1
  · exact (hall value h.1).2

/-- A character that is read as a digit is one. -/
theorem isDigitOf_of_charValue? {c : Char} {value : Nat} (h : charValue? c = some value) :
    IsDigitOf c value := by
  have hall : ∀ n < 128, ∀ value ∈ digitValue? (UInt8.ofNat n), value < 16 ∧
      (Char.ofNat n = lowerHexDigit value ∨ Char.ofNat n = upperHexDigit value) := by
    decide +kernel
  unfold charValue? at h
  split at h
  · have hdigit := hall c.toNat ‹_› value h
    rwa [Char.ofNat_toNat] at hdigit
  · cases h

/-- A character without a value is no digit. -/
theorem IsDigitOf.ne {c other : Char} {value : Nat} (h : IsDigitOf c value)
    (hother : Hex.charValue? other = none) : c ≠ other := by
  rintro rfl
  cases hother.symm.trans h.charValue?

theorem IsDigitOf.not_isBlank {c : Char} {value : Nat} (h : IsDigitOf c value) : isBlank c = false := by
  have hall : ∀ value < 16, isBlank (lowerHexDigit value) = false ∧ isBlank (upperHexDigit value) = false := by
    decide
  rcases h.2 with rfl | rfl
  · exact (hall value h.1).1
  · exact (hall value h.1).2

/-! ## Texts -/

/-- The text has two digits for each byte. -/
inductive Writes : List Char → List UInt8 → Prop where
  | nil : Writes [] []
  | cons {high low byte text bytes} (hhigh : IsDigitOf high (byte.toNat / 16))
      (hlow : IsDigitOf low (byte.toNat % 16)) :
      Writes text bytes → Writes (high :: low :: text) (byte :: bytes)

namespace Writes

variable {text : List Char} {bytes : List UInt8}

/-- Two digits write the byte of which they are the halves. -/
theorem ofDigits {high low : Char} {h l : Nat} (hhigh : IsDigitOf high h) (hlow : IsDigitOf low l)
    (htext : Writes text bytes) : Writes (high :: low :: text) (UInt8.ofNat (16 * h + l) :: bytes) := by
  have hh := hhigh.1
  have hl := hlow.1
  have hbyte : (UInt8.ofNat (16 * h + l)).toNat = 16 * h + l := by
    rw [UInt8.toNat_ofNat']
    omega
  have hquotient : (16 * h + l) / 16 = h := by omega
  have hremainder : (16 * h + l) % 16 = l := by omega
  refine .cons ?_ ?_ htext
  · rwa [hbyte, hquotient]
  · rwa [hbyte, hremainder]

theorem encodeUpper (bytes : List UInt8) : Writes (encodeUpper bytes).toList bytes := by
  rw [Hex.encodeUpper, encodeWith, String.toList_ofList]
  induction bytes with
  | nil => exact .nil
  | cons byte bytes ih =>
      have hbyte := byte.toNat_lt
      exact .cons ⟨by omega, .inr rfl⟩ ⟨by omega, .inr rfl⟩ ih

theorem length_eq (h : Writes text bytes) : text.length = 2 * bytes.length := by
  induction h with
  | nil => rfl
  | cons _ _ _ ih =>
      rw [length_cons, length_cons, length_cons, ih]
      omega

theorem exists_value (h : Writes text bytes) : ∀ c ∈ text, ∃ value, IsDigitOf c value := by
  induction h with
  | nil => simp
  | cons hhigh hlow _ ih => exact forall_mem_cons.mpr ⟨⟨_, hhigh⟩, forall_mem_cons.mpr ⟨⟨_, hlow⟩, ih⟩⟩

end Writes

theorem Writes.trim_eq {text : List Char} {bytes : List UInt8} (h : Writes text bytes) : trim text = text := by
  apply trim_of_not_isBlank
  intro c hc
  obtain ⟨_, hdigit⟩ := h.exists_value c hc
  exact hdigit.not_isBlank

/-- No digit is a quote. -/
theorem Writes.not_mem_quote {text : List Char} {bytes : List UInt8} (h : Writes text bytes) : '\'' ∉ text := by
  intro hmem
  obtain ⟨_, hdigit⟩ := h.exists_value '\'' hmem
  exact hdigit.ne (by decide) rfl

/-- An even number of digits writes bytes. -/
theorem exists_writes {n : Nat} {text : List Char} (hlength : text.length = 2 * n)
    (hdigits : ∀ c ∈ text, ∃ value, IsDigitOf c value) : ∃ bytes, Writes text bytes := by
  induction n generalizing text with
  | zero =>
      rw [length_eq_zero_iff.mp hlength]
      exact ⟨[], .nil⟩
  | succ n ih =>
      match text with
      | [] => simp at hlength
      | [_] =>
          rw [length_singleton] at hlength
          omega
      | high :: low :: text =>
          obtain ⟨⟨h, hhigh⟩, ⟨l, hlow⟩, htext⟩ := by simpa only [forall_mem_cons] using hdigits
          obtain ⟨bytes, hbytes⟩ := ih (by simp only [length_cons] at hlength; omega) htext
          exact ⟨_, hbytes.ofDigits hhigh hlow⟩

/-! ## Bytes of texts -/

theorem loop_eq_append (bytes : ByteArray) (i : Nat) (taken : List UInt8) :
    ByteArray.toList.loop bytes i taken = taken.reverse ++ bytes.data.toList.drop i := by
  induction i, taken using ByteArray.toList.loop.induct bytes with
  | case1 i taken hlt ih =>
      have hlength : i < bytes.data.toList.length := by simpa using hlt
      have hget : bytes.get! i = bytes.data.toList[i] := by
        cases bytes with
        | mk data => exact getElem!_pos data i hlt
      rw [ByteArray.toList.loop, if_pos hlt, ih, hget, reverse_cons, append_assoc, singleton_append,
        ← drop_eq_getElem_cons hlength]
  | case2 i taken hle =>
      have hend : bytes.data.toList.length ≤ i := by simpa using hle
      rw [ByteArray.toList.loop, if_neg hle, drop_eq_nil_of_le hend, append_nil]

theorem toUTF8_toList (chars : List Char) :
    (String.ofList chars).toUTF8.toList = chars.flatMap String.utf8EncodeChar := by
  rw [String.toUTF8_eq_toByteArray, String.toByteArray_ofList, List.utf8Encode, ByteArray.toList,
    loop_eq_append, toList_data_toByteArray]
  rfl

/-- Texts with the same bytes are the same. -/
theorem eq_of_toUTF8_toList {text other : String} (h : text.toUTF8.toList = other.toUTF8.toList) :
    text = other := by
  rw [← String.ofList_toList (s := text), ← String.ofList_toList (s := other), toUTF8_toList,
    toUTF8_toList] at h
  rw [← String.toByteArray_inj, ← String.ofList_toList (s := text), ← String.ofList_toList (s := other),
    String.toByteArray_ofList, String.toByteArray_ofList, List.utf8Encode, List.utf8Encode, h]

/-! ## Reading -/

theorem decodePairs_of_writes {text : List Char} {bytes : List UInt8} (h : Writes text bytes) (index : Nat) :
    decodePairs index (text.flatMap String.utf8EncodeChar) = .ok bytes := by
  induction h generalizing index with
  | nil => rfl
  | @cons _ _ byte _ _ hhigh hlow _ ih =>
      obtain ⟨high, hhighBytes, hhighValue⟩ := hhigh.exists_byte
      obtain ⟨low, hlowBytes, hlowValue⟩ := hlow.exists_byte
      have hbyte : 16 * (byte.toNat / 16) + byte.toNat % 16 = byte.toNat := by omega
      rw [flatMap_cons, flatMap_cons, hhighBytes, hlowBytes, singleton_append, singleton_append,
        decodePairs, hhighValue, hlowValue]
      simp only [ih, hbyte, UInt8.ofNat_toNat]
      rfl

theorem exists_writes_of_decodePairs {index : Nat} {encoded bytes : List UInt8}
    (h : decodePairs index encoded = .ok bytes) :
    ∃ text, encoded = text.flatMap String.utf8EncodeChar ∧ Writes text bytes := by
  fun_induction decodePairs index encoded generalizing bytes with
  | case1 =>
      cases h
      exact ⟨[], rfl, .nil⟩
  | case2 | case3 | case4 => cases h
  | case5 index high low rest _ hhigh _ hlow ih =>
      cases hrest : decodePairs (index + 2) rest with
      | error e =>
          rw [hrest] at h
          cases h
      | ok others =>
          rw [hrest] at h
          cases h
          obtain ⟨text, rfl, htext⟩ := ih hrest
          obtain ⟨highChar, hhighBytes, hhigh⟩ := exists_isDigitOf hhigh
          obtain ⟨lowChar, hlowBytes, hlow⟩ := exists_isDigitOf hlow
          exact ⟨highChar :: lowChar :: text, by simp [hhighBytes, hlowBytes], htext.ofDigits hhigh hlow⟩

theorem Writes.length_flatMap {text : List Char} {bytes : List UInt8} (h : Writes text bytes) :
    (text.flatMap String.utf8EncodeChar).length = 2 * bytes.length := by
  induction h with
  | nil => rfl
  | cons hhigh hlow _ ih =>
      obtain ⟨_, hhighBytes, _⟩ := hhigh.exists_byte
      obtain ⟨_, hlowBytes, _⟩ := hlow.exists_byte
      simp only [flatMap_cons, hhighBytes, hlowBytes, singleton_append, length_cons, ih]
      omega

/-- Bytes are read from the texts that write them. -/
theorem decode_eq_ok {text : String} {bytes : List UInt8} :
    decode text = .ok bytes ↔ Writes text.toList bytes := by
  have hencoded : text.toUTF8.toList = text.toList.flatMap String.utf8EncodeChar := by
    rw [← toUTF8_toList, String.ofList_toList]
  unfold decode
  dsimp only
  constructor
  · intro h
    split_ifs at h
    obtain ⟨chars, hchars, hwrites⟩ := exists_writes_of_decodePairs h
    rw [← toUTF8_toList] at hchars
    rwa [eq_of_toUTF8_toList hchars, String.toList_ofList]
  · intro h
    rw [hencoded, h.length_flatMap, if_neg (by omega)]
    exact decodePairs_of_writes h 0

end ChangeCapture.Text.Hex
