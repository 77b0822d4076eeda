import ChangeCapture.Text.Integer
import Mathlib.Algebra.Group.Nat.Defs
import Mathlib.Data.List.TakeDrop

/-! # Decimal integers are read as they are written -/

namespace ChangeCapture.Text

open List

/-! ## Digits -/

theorem readDigits_of_isDigit (value : Nat) {digits : List Char} (h : ∀ c ∈ digits, c.isDigit) :
    readDigits value digits = some (Nat.ofDigitChars 10 digits value) := by
  induction digits generalizing value with
  | nil => rfl
  | cons c rest ih =>
      rw [forall_mem_cons] at h
      have hdigit : digit? c = some (c.toNat - '0'.toNat) := by
        have hc := h.1
        simp only [Char.isDigit, Bool.and_eq_true, decide_eq_true_eq] at hc
        exact if_pos hc
      rw [readDigits, hdigit, Option.bind_some, ih _ h.2, Nat.ofDigitChars_cons]

theorem readDecimal?_of_ne_nil {digits : List Char} (h : digits ≠ []) :
    readDecimal? digits = readDigits 0 digits := by
  cases digits with
  | nil => exact absurd rfl h
  | cons c rest => rfl

theorem isDigit_of_readDigits {value n : Nat} {digits : List Char} (h : readDigits value digits = some n) :
    ∀ c ∈ digits, c.isDigit := by
  induction digits generalizing value with
  | nil => simp
  | cons c rest ih =>
      obtain ⟨d, hd, hrest⟩ := Option.bind_eq_some_iff.mp h
      have hc : c.isDigit = true := by
        unfold digit? at hd
        split at hd
        · rename_i hrange
          simpa [Char.isDigit, Char.le_def] using hrange
        · cases hd
      exact forall_mem_cons.mpr ⟨hc, ih hrest⟩

theorem exists_readDecimal?_iff {digits : List Char} :
    (∃ n, readDecimal? digits = some n) ↔ digits ≠ [] ∧ ∀ c ∈ digits, c.isDigit := by
  constructor
  · rintro ⟨n, hn⟩
    have hne : digits ≠ [] := by
      rintro rfl
      cases hn
    rw [readDecimal?_of_ne_nil hne] at hn
    exact ⟨hne, isDigit_of_readDigits hn⟩
  · rintro ⟨hne, hdigits⟩
    exact ⟨_, (readDecimal?_of_ne_nil hne).trans (readDigits_of_isDigit 0 hdigits)⟩

/-- Digits have no case. -/
theorem toLower_of_isDigit {c : Char} (h : c.isDigit = true) : c.toLower = c := by
  simp only [Char.isDigit, Bool.and_eq_true, decide_eq_true_eq] at h
  refine dif_neg fun ⟨hlow, _⟩ => ?_
  have hlow : 65 ≤ c.toNat := UInt32.le_iff_toNat_le.mp hlow
  have hhigh : c.toNat ≤ 57 := h.2
  omega

theorem toUpper_of_isDigit {c : Char} (h : c.isDigit = true) : c.toUpper = c := by
  simp only [Char.isDigit, Bool.and_eq_true, decide_eq_true_eq] at h
  refine dif_neg fun ⟨hlow, _⟩ => ?_
  have hlow : 97 ≤ c.toNat := UInt32.le_iff_toNat_le.mp hlow
  have hhigh : c.toNat ≤ 57 := h.2
  omega

theorem isDigit_of_mem_toDigits {n : Nat} : ∀ c ∈ Nat.toDigits 10 n, c.isDigit := fun _ =>
  Nat.isDigit_of_mem_toDigits (by decide) (by decide)

theorem readDecimal?_toDigits (n : Nat) : readDecimal? (Nat.toDigits 10 n) = some n := by
  rw [readDecimal?_of_ne_nil Nat.toDigits_ne_nil, readDigits_of_isDigit 0 isDigit_of_mem_toDigits,
    Nat.ofDigitChars_ten_toDigits]

/-! ## Digits of a fixed width -/

theorem length_decimalPadded (width n : Nat) : (decimalPadded width n).length = width := by
  induction width generalizing n with
  | zero => rfl
  | succ width ih => simp [decimalPadded, ih]

theorem isDigit_of_mem_decimalPadded {width n : Nat} : ∀ c ∈ decimalPadded width n, c.isDigit := by
  induction width generalizing n with
  | zero => simp [decimalPadded]
  | succ width ih =>
      intro c hc
      rcases mem_append.mp hc with hc | hc
      · exact ih c hc
      · have hlt : n % 10 < 10 := Nat.mod_lt _ (by decide)
        rw [mem_singleton.mp hc, Nat.isDigit_digitChar]
        simpa using hlt

/-- A number that fits comes back from its digits. -/
theorem readDigits_decimalPadded {width n : Nat} (h : n < 10 ^ width) :
    readDigits 0 (decimalPadded width n) = some n := by
  rw [readDigits_of_isDigit 0 isDigit_of_mem_decimalPadded, Nat.ofDigitChars_eq_foldl]
  induction width generalizing n with
  | zero =>
      have hzero : n = 0 := by simpa using h
      rw [hzero]
      rfl
  | succ width ih =>
      have hquotient : n / 10 < 10 ^ width := by
        rw [Nat.pow_succ] at h
        omega
      have hdigit : (n % 10).digitChar.toNat - '0'.toNat = n % 10 :=
        Nat.toNat_digitChar_sub_48_of_lt_ten (Nat.mod_lt _ (by decide))
      rw [decimalPadded, foldl_append, Option.some.inj (ih hquotient), foldl_cons, foldl_nil, hdigit,
        Nat.div_add_mod]

/-! ## Signs -/

theorem toList_toString_int (n : Int) :
    (toString n).toList = (if n < 0 then ['-'] else []) ++ Nat.toDigits 10 n.natAbs := by
  change n.repr.toList = _
  rw [Int.repr_eq_if]
  by_cases hneg : n < 0
  · have habs : (-n).toNat = n.natAbs := by omega
    rw [if_neg (by omega), if_pos hneg, String.toList_append, habs, Nat.repr_eq_ofList_toDigits]
    simp
  · have habs : n.toNat = n.natAbs := by omega
    rw [if_pos (by omega), if_neg hneg, Nat.repr_eq_ofList_toDigits, String.toList_ofList, habs,
      nil_append]

theorem exists_toDigits_eq_cons (n : Nat) : ∃ c digits, Nat.toDigits 10 n = c :: digits ∧ c.isDigit := by
  cases hdigits : Nat.toDigits 10 n with
  | nil => exact absurd hdigits Nat.toDigits_ne_nil
  | cons c digits => exact ⟨c, digits, rfl, isDigit_of_mem_toDigits c (hdigits ▸ mem_cons_self)⟩

/-- Digits have no sign before them. -/
theorem toDigits_ne_cons {c : Char} (hc : c.isDigit = false) (n : Nat) (rest : List Char) :
    Nat.toDigits 10 n ≠ c :: rest := by
  intro h
  obtain ⟨d, digits, hdigits, hd⟩ := exists_toDigits_eq_cons n
  rw [hdigits] at h
  simp [(cons.inj h).1, hc] at hd

/-- A number of 64 bits is read as it is written. -/
theorem readInt64?_toString {n : Int} (hmin : minInt64 ≤ n) (hmax : n ≤ maxInt64) :
    readInt64? (toString n).toList = some n := by
  rw [toList_toString_int]
  by_cases hneg : n < 0
  · have habs : -(n.natAbs : Int) = n := by omega
    rw [if_pos hneg, singleton_append, readInt64?, readDecimal?_toDigits]
    change Option.filter _ (some (-(n.natAbs : Int))) = some n
    simp only [habs, Option.filter_some, hmin, hmax, decide_true, Bool.and_self, if_true]
  · have habs : (n.natAbs : Int) = n := by omega
    rw [if_neg hneg, nil_append, readInt64?]
    · rw [readDecimal?_toDigits]
      change Option.filter _ (some (n.natAbs : Int)) = some n
      simp only [habs, Option.filter_some, hmin, hmax, decide_true, Bool.and_self, if_true]
    · exact toDigits_ne_cons rfl _
    · exact toDigits_ne_cons rfl _

end ChangeCapture.Text
