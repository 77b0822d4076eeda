import ChangeCapture.Text.Utf16
import Mathlib.Logic.Basic

/-! # Text comes back from its code units -/

namespace ChangeCapture.Text.Utf16

open List

/-- A character of the basic plane is no half of a pair. -/
theorem not_half_of_char (c : Char) : isHigh c.toNat = false ∧ isLow c.toNat = false := by
  have hvalid : c.toNat < 0xD800 ∨ 0xDFFF < c.toNat ∧ c.toNat < 0x110000 := c.valid
  simp only [isHigh, isLow, decide_eq_false_iff_not, not_and_or]
  omega

/-- A character outside the basic plane comes back from its halves. -/
theorem pair_halves {c : Char} (h : ¬ c.toNat < 0x10000) :
    isHigh (0xD800 + (c.toNat - 0x10000) / 0x400) ∧ isLow (0xDC00 + (c.toNat - 0x10000) % 0x400) ∧
      pair (0xD800 + (c.toNat - 0x10000) / 0x400) (0xDC00 + (c.toNat - 0x10000) % 0x400) = c := by
  have hvalid : c.toNat < 0xD800 ∨ 0xDFFF < c.toNat ∧ c.toNat < 0x110000 := c.valid
  refine ⟨by simp only [isHigh, decide_eq_true_eq]; omega,
    by simp only [isLow, decide_eq_true_eq]; omega, ?_⟩
  have hsum : 0x10000 + (0xD800 + (c.toNat - 0x10000) / 0x400 - 0xD800) * 0x400 +
      (0xDC00 + (c.toNat - 0x10000) % 0x400 - 0xDC00) = c.toNat := by omega
  rw [pair, hsum, Char.ofNat_toNat]

theorem decode?_encodeChar_append (c : Char) (units : List Nat) :
    decode? (encodeChar c ++ units) = (decode? units).map (c :: ·) := by
  by_cases hplane : c.toNat < 0x10000
  · obtain ⟨hhigh, hlow⟩ := not_half_of_char c
    simp only [encodeChar, if_pos hplane, singleton_append]
    cases units with
    | nil => simp [decode?, hhigh, hlow, Char.ofNat_toNat]
    | cons m rest => simp [decode?, hhigh, hlow, Char.ofNat_toNat]
  · obtain ⟨hhigh, hlow, hpair⟩ := pair_halves hplane
    simp only [encodeChar, if_neg hplane, cons_append, nil_append]
    rw [decode?, if_pos hhigh, if_pos hlow, hpair]

/-- Text comes back from its code units. -/
theorem decode?_encode (text : List Char) : decode? (encode text) = some text := by
  induction text with
  | nil => rfl
  | cons c rest ih =>
      rw [encode, flatMap_cons, decode?_encodeChar_append, ← encode, ih]
      rfl

/-- Each character begins with a unit that is no second half. -/
theorem length_decode? {units : List Nat} {text : List Char} (h : decode? units = some text) :
    text.length = units.countP (!isLow ·) := by
  have hhalf {n : Nat} (hn : isHigh n = true) : isLow n = false := by
    simp only [isHigh, isLow, decide_eq_true_eq, decide_eq_false_iff_not] at hn ⊢
    omega
  fun_induction decode? units generalizing text with
  | case1 =>
      cases h
      rfl
  | case2 n hn => cases h
  | case3 n hn =>
      cases h
      simp_all
  | case4 n m rest hn hm ih =>
      obtain ⟨text, htext, rfl⟩ := Option.map_eq_some_iff.mp h
      simp [hhalf hn, hm, ih htext]
  | case5 n m rest hn hm => cases h
  | case6 n m rest hn hlow => cases h
  | case7 n m rest hn hlow ih =>
      obtain ⟨text, htext, rfl⟩ := Option.map_eq_some_iff.mp h
      rw [List.countP_cons, List.length_cons, ih htext]
      simp [hlow]

theorem countP_encodeChar (c : Char) : (encodeChar c).countP (!isLow ·) = 1 := by
  have hone := length_decode? (decode?_encode [c])
  simpa [encode] using hone.symm

theorem lt_of_mem_encodeChar {c : Char} : ∀ unit ∈ encodeChar c, unit < 0x10000 := by
  have hvalid : c.toNat < 0xD800 ∨ 0xDFFF < c.toNat ∧ c.toNat < 0x110000 := c.valid
  by_cases hplane : c.toNat < 0x10000
  · simp [encodeChar, hplane]
  · simp [encodeChar, hplane]
    omega

/-! ## Pairs -/

/-- Every first half has a second half directly behind it, and every second half a first one directly
before it. -/
structure Paired (units : List Nat) : Prop where
  high : ∀ i, units[i]?.any isHigh = true → units[i + 1]?.any isLow = true
  low : ∀ i, units[i]?.any isLow = true → ∃ j, i = j + 1 ∧ units[j]?.any isHigh = true

theorem isLow_of_isHigh {unit : Nat} (h : isHigh unit = true) : isLow unit = false := by
  simp only [isHigh, isLow, decide_eq_true_eq, decide_eq_false_iff_not] at h ⊢
  omega

namespace Paired

variable {n m : Nat} {units : List Nat}

theorem not_low (h : Paired (n :: units)) : isLow n = false := by
  refine Bool.eq_false_iff.mpr fun hlow => ?_
  obtain ⟨j, hj, _⟩ := h.low 0 (by simpa using hlow)
  omega

theorem of_high (h : Paired (n :: units)) (hn : isHigh n = true) : units[0]?.any isLow = true := by
  simpa using h.high 0 (by simpa using hn)

/-- A unit that is no half has no part in any pair. -/
theorem cons_iff (hhigh : isHigh n = false) (hlow : isLow n = false) :
    Paired (n :: units) ↔ Paired units := by
  constructor
  · intro h
    refine ⟨fun i hi => by simpa using h.high (i + 1) (by simpa using hi), fun i hi => ?_⟩
    obtain ⟨j, hj, hhalf⟩ := h.low (i + 1) (by simpa using hi)
    cases j with
    | zero => simp [hhigh] at hhalf
    | succ j => exact ⟨j, by omega, by simpa using hhalf⟩
  · intro h
    refine ⟨fun i hi => ?_, fun i hi => ?_⟩
    · cases i with
      | zero => simp [hhigh] at hi
      | succ i => simpa using h.high i (by simpa using hi)
    · cases i with
      | zero => simp [hlow] at hi
      | succ i =>
          obtain ⟨j, rfl, hhalf⟩ := h.low i (by simpa using hi)
          exact ⟨j + 1, rfl, by simpa using hhalf⟩

/-- Two halves that belong together have no part in any other pair. -/
theorem cons_cons_iff (hn : isHigh n = true) (hm : isLow m = true) :
    Paired (n :: m :: units) ↔ Paired units := by
  have hmHigh : isHigh m = false := Bool.eq_false_iff.mpr fun h => by simp [isLow_of_isHigh h] at hm
  constructor
  · intro h
    refine ⟨fun i hi => by simpa using h.high (i + 2) (by simpa using hi), fun i hi => ?_⟩
    obtain ⟨j, hj, hhalf⟩ := h.low (i + 2) (by simpa using hi)
    match j with
    | 0 => omega
    | 1 => simp [hmHigh] at hhalf
    | j + 2 => exact ⟨j, by omega, by simpa using hhalf⟩
  · intro h
    refine ⟨fun i hi => ?_, fun i hi => ?_⟩
    · match i with
      | 0 => simpa using hm
      | 1 => simp [hmHigh] at hi
      | i + 2 => simpa using h.high i (by simpa using hi)
    · match i with
      | 0 => simp [isLow_of_isHigh hn] at hi
      | 1 => exact ⟨0, rfl, by simpa using hn⟩
      | i + 2 =>
          obtain ⟨j, rfl, hhalf⟩ := h.low i (by simpa using hi)
          exact ⟨j + 2, rfl, by simpa using hhalf⟩

end Paired

theorem paired_nil : Paired [] := ⟨by simp, by simp⟩

/-- Code units are those of a text if all halves belong to pairs. -/
theorem isSome_decode?_iff {units : List Nat} : (decode? units).isSome ↔ Paired units := by
  fun_induction decode? units with
  | case1 => simp [paired_nil]
  | case2 n hn =>
      refine iff_of_false Bool.false_ne_true fun h => ?_
      rcases hn with hn | hn
      · simpa using h.of_high hn
      · simp [h.not_low] at hn
  | case3 n hn =>
      have hhalf : isHigh n = false ∧ isLow n = false := by simpa using hn
      simp [Paired.cons_iff hhalf.1 hhalf.2, paired_nil]
  | case4 n m rest hn hm ih => rw [Option.isSome_map, ih, Paired.cons_cons_iff hn hm]
  | case5 n m rest hn hm => exact iff_of_false Bool.false_ne_true fun h => hm (by simpa using h.of_high hn)
  | case6 n m rest hn hlow => exact iff_of_false Bool.false_ne_true fun h => by simp [h.not_low] at hlow
  | case7 n m rest hn hlow ih =>
      have hhalf : isHigh n = false ∧ isLow n = false := by simpa using And.intro hn hlow
      rw [Option.isSome_map, ih, Paired.cons_iff hhalf.1 hhalf.2]

theorem toNat_ofNat {n : Nat} (h : n.isValidChar) : (Char.ofNat n).toNat = n := by
  rw [Char.ofNat, dif_pos h]
  rfl

/-- A unit of the basic plane is the only one of its character. -/
theorem encodeChar_ofNat {unit : Nat} (hhalf : isHigh unit = false ∧ isLow unit = false)
    (hsize : unit < 0x10000) : encodeChar (Char.ofNat unit) = [unit] := by
  have hvalid : unit.isValidChar := by
    simp only [isHigh, isLow, decide_eq_false_iff_not] at hhalf
    simp only [Nat.isValidChar]
    omega
  simp [encodeChar, toNat_ofNat hvalid, hsize]

/-- The character of two halves is written by them. -/
theorem encodeChar_pair {high low : Nat} (hhigh : isHigh high = true) (hlow : isLow low = true) :
    encodeChar (pair high low) = [high, low] := by
  simp only [isHigh, isLow, decide_eq_true_eq] at hhigh hlow
  have hvalid : (0x10000 + (high - 0xD800) * 0x400 + (low - 0xDC00)).isValidChar := by
    simp only [Nat.isValidChar]
    omega
  have hplane : ¬ 0x10000 + (high - 0xD800) * 0x400 + (low - 0xDC00) < 0x10000 := by omega
  have hhalves : 0xD800 + (0x10000 + (high - 0xD800) * 0x400 + (low - 0xDC00) - 0x10000) / 0x400 = high ∧
      0xDC00 + (0x10000 + (high - 0xD800) * 0x400 + (low - 0xDC00) - 0x10000) % 0x400 = low := by omega
  rw [encodeChar, pair, toNat_ofNat hvalid, if_neg hplane, hhalves.1, hhalves.2]

/-- Code units of two bytes are those of the text that they are read as. -/
theorem encode_of_decode? {units : List Nat} {text : List Char} (hsize : ∀ unit ∈ units, unit < 0x10000)
    (h : decode? units = some text) : encode text = units := by
  fun_induction decode? units generalizing text with
  | case1 =>
      cases h
      rfl
  | case2 | case5 | case6 => cases h
  | case3 n hn =>
      cases h
      simp [encode, encodeChar_ofNat (by simpa using hn) (hsize n mem_cons_self)]
  | case4 n m rest hn hm ih =>
      obtain ⟨text, htext, rfl⟩ := Option.map_eq_some_iff.mp h
      have hrest := ih (fun unit hunit => hsize unit (mem_cons_of_mem _ (mem_cons_of_mem _ hunit))) htext
      rw [encode, flatMap_cons, encodeChar_pair hn hm, ← encode, hrest]
      rfl
  | case7 n m rest hn hlow ih =>
      obtain ⟨text, htext, rfl⟩ := Option.map_eq_some_iff.mp h
      have hrest := ih (fun unit hunit => hsize unit (mem_cons_of_mem _ hunit)) htext
      have hhalf : isHigh n = false ∧ isLow n = false := by simpa using And.intro hn hlow
      rw [encode, flatMap_cons, encodeChar_ofNat hhalf (hsize n mem_cons_self), ← encode, hrest]
      rfl

end ChangeCapture.Text.Utf16
