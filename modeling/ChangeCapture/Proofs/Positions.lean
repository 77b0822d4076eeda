import ChangeCapture.Position.Lsn
import ChangeCapture.Position.Scn
import ChangeCapture.Proofs.Order
import ChangeCapture.Proofs.Text.Hex
import Mathlib.Order.Bounds.Basic
import Mathlib.Order.Interval.Set.Defs
import Mathlib.Tactic.Ring

/-! # Bytes, texts and the order of positions

The bytes of a position are its number with the highest byte first, so that comparing the bytes one by one
compares the numbers. -/

namespace ChangeCapture

open List

/-! ## Bytes of a number -/

theorem ofBigEndian_concat (bytes : List UInt8) (byte : UInt8) :
    ofBigEndian (bytes ++ [byte]) = 256 * ofBigEndian bytes + byte.toNat := foldl_concat ..

theorem ofBigEndian_cons (byte : UInt8) (bytes : List UInt8) :
    ofBigEndian (byte :: bytes) = byte.toNat * 256 ^ bytes.length + ofBigEndian bytes := by
  induction bytes using reverseRecOn with
  | nil => simp [ofBigEndian]
  | append_singleton bytes last ih =>
      rw [← cons_append, ofBigEndian_concat, ofBigEndian_concat, ih, length_append, length_singleton,
        pow_succ]
      ring

theorem ofBigEndian_lt (bytes : List UInt8) : ofBigEndian bytes < 256 ^ bytes.length := by
  induction bytes with
  | nil => exact Nat.one_pos
  | cons byte bytes ih =>
      have hbyte : byte.toNat + 1 ≤ 256 := byte.toNat_lt
      calc ofBigEndian (byte :: bytes)
        _ = byte.toNat * 256 ^ bytes.length + ofBigEndian bytes := ofBigEndian_cons byte bytes
        _ < (byte.toNat + 1) * 256 ^ bytes.length := by rw [Nat.succ_mul]; omega
        _ ≤ 256 ^ (byte :: bytes).length := by
          rw [length_cons, pow_succ']
          exact Nat.mul_le_mul_right _ hbyte

@[simp] theorem length_bigEndian (width n : Nat) : (bigEndian width n).length = width := by
  induction width generalizing n with
  | zero => rfl
  | succ width ih => rw [bigEndian, length_append, ih, length_singleton]

theorem ofBigEndian_bigEndian (width n : Nat) : ofBigEndian (bigEndian width n) = n % 256 ^ width := by
  induction width generalizing n with
  | zero => exact (Nat.mod_one n).symm
  | succ width ih =>
      have hbyte : (UInt8.ofNat n).toNat = n % 256 := UInt8.toNat_ofNat'
      rw [bigEndian, ofBigEndian_concat, ih, hbyte, pow_succ', Nat.mod_mul, Nat.add_comm]

theorem bigEndian_ofBigEndian (bytes : List UInt8) : bigEndian bytes.length (ofBigEndian bytes) = bytes := by
  induction bytes using reverseRecOn with
  | nil => rfl
  | append_singleton bytes byte ih =>
      have hbyte := byte.toNat_lt
      have hquotient : (256 * ofBigEndian bytes + byte.toNat) / 256 = ofBigEndian bytes := by omega
      have hlast : UInt8.ofNat (256 * ofBigEndian bytes + byte.toNat) = byte := by
        rw [← UInt8.toNat_inj, UInt8.toNat_ofNat']
        omega
      rw [length_append, length_singleton, bigEndian, ofBigEndian_concat, hquotient, hlast, ih]

/-- Numbers of one width are compared by their bytes, the highest first. -/
theorem ofBigEndian_lt_iff {bytes other : List UInt8} (h : bytes.length = other.length) :
    ofBigEndian bytes < ofBigEndian other ↔ bytes < other := by
  induction bytes generalizing other with
  | nil =>
      rw [length_eq_zero_iff.mp h.symm]
      exact iff_of_false (lt_irrefl _) (List.lt_irrefl [])
  | cons byte bytes ih =>
      cases other with
      | nil => cases h
      | cons first other =>
          have hlength : bytes.length = other.length := by simpa using h
          have hbytes := ofBigEndian_lt bytes
          have hother := ofBigEndian_lt other
          rw [cons_lt_cons_iff, ← ih hlength, ofBigEndian_cons, ofBigEndian_cons, ← hlength,
            UInt8.lt_iff_toNat_lt, ← UInt8.toNat_inj]
          rw [← hlength] at hother
          -- The highest bytes decide, unless they are the same.
          rcases Nat.lt_trichotomy byte.toNat first.toNat with hlt | heq | hgt
          · have hstep := Nat.mul_le_mul_right (256 ^ bytes.length) (Nat.succ_le_of_lt hlt)
            rw [Nat.succ_mul] at hstep
            omega
          · rw [heq]
            omega
          · have hstep := Nat.mul_le_mul_right (256 ^ bytes.length) (Nat.succ_le_of_lt hgt)
            rw [Nat.succ_mul] at hstep
            omega

namespace Position

variable {b : Backend} {p q : Position b}

/-! ## Bytes of a position -/

theorem two_pow_width (b : Backend) : 2 ^ (8 * b.width) = 256 ^ b.width := pow_mul 2 8 b.width

theorem ofBytes_toBytes (p : Position b) : ofBytes p.toBytes = .ok p := by
  obtain ⟨value⟩ := p
  cases value with
  | none => rfl
  | some v =>
      have hv : v.toNat % 256 ^ b.width = v.toNat := Nat.mod_eq_of_lt (two_pow_width b ▸ v.isLt)
      simp [toBytes, ofBytes, ofNat, ofBigEndian_bigEndian, hv]

/-- Bytes are read if they are as wide as a position, and then they are its number. -/
theorem ofBytes_eq_ok {bytes : Option (List UInt8)} :
    ofBytes bytes = .ok p ↔
      (∀ bs ∈ bytes, bs.length = b.width) ∧ p.value.map BitVec.toNat = bytes.map ofBigEndian := by
  obtain ⟨value⟩ := p
  cases bytes with
  | none => cases value <;> simp [ofBytes, null]
  | some bs =>
      by_cases hwidth : bs.length = b.width
      · have hlt : ofBigEndian bs < 2 ^ (8 * b.width) := by
          rw [two_pow_width, ← hwidth]
          exact ofBigEndian_lt bs
        cases value with
        | none => simp [ofBytes, hwidth, ofNat]
        | some v => simp [ofBytes, hwidth, ofNat, ← BitVec.toNat_inj, Nat.mod_eq_of_lt hlt, eq_comm]
      · simp [ofBytes, hwidth]

theorem toBytes_eq {bytes : Option (List UInt8)} : p.toBytes = bytes ↔ ofBytes bytes = .ok p := by
  constructor
  · rintro rfl
    exact ofBytes_toBytes p
  · intro h
    obtain ⟨hwidth, hvalue⟩ := ofBytes_eq_ok.mp h
    cases bytes with
    | none => rw [toBytes, Option.map_eq_none_iff.mp hvalue, Option.map_none]
    | some bs =>
        obtain ⟨v, hv, hnumber⟩ := Option.map_eq_some_iff.mp hvalue
        rw [toBytes, hv, Option.map_some, hnumber, ← hwidth bs rfl, bigEndian_ofBigEndian]

theorem exists_ofBytes_eq_ok {bytes : Option (List UInt8)} :
    (∃ p : Position b, ofBytes bytes = .ok p) ↔ ∀ bs ∈ bytes, bs.length = b.width := by
  constructor
  · rintro ⟨p, hp⟩
    exact (ofBytes_eq_ok.mp hp).1
  · intro hwidth
    cases bytes with
    | none => exact ⟨null, rfl⟩
    | some bs => exact ⟨_, if_pos (hwidth bs rfl)⟩

/-- Positions are compared by their bytes, where null has none and lies below all others. -/
theorem lt_iff_toBytes_lt : p < q ↔ p.toBytes < q.toBytes := by
  obtain ⟨value⟩ := p
  obtain ⟨other⟩ := q
  rw [lt_iff_rank_lt]
  cases value with
  | none => cases other <;> simp [rank, toBytes]
  | some v =>
      cases other with
      | none => simp [rank, toBytes]
      | some w =>
          have hv : v.toNat % 256 ^ b.width = v.toNat := Nat.mod_eq_of_lt (two_pow_width b ▸ v.isLt)
          have hw : w.toNat % 256 ^ b.width = w.toNat := Nat.mod_eq_of_lt (two_pow_width b ▸ w.isLt)
          have hlength : (bigEndian b.width v.toNat).length = (bigEndian b.width w.toNat).length := by simp
          have hbytes := ofBigEndian_lt_iff hlength
          rw [ofBigEndian_bigEndian, ofBigEndian_bigEndian, hv, hw] at hbytes
          simp [rank, toBytes, hbytes]

/-! ## Texts of a position -/

theorem isNullText_iff {text : String} : isNullText text ↔ text = "" ∨ text.toLower = "null" := by
  have hlower : text.toLower = "null" ↔ text.toList.map Char.toLower = ['n', 'u', 'l', 'l'] := by
    have hmap : text.toLower.toList = text.toList.map Char.toLower := String.toList_map
    rw [← String.toList_inj, hmap]
    rfl
  rw [hlower, isNullText, Bool.or_eq_true, String.isEmpty_iff, beq_iff_eq]

theorem width_eq {bytes : List UInt8} (h : p.toBytes = some bytes) : bytes.length = b.width :=
  (ofBytes_eq_ok.mp (toBytes_eq.mp h)).1 bytes rfl

/-- A text that says null writes no bytes of a position. -/
theorem not_isNullText_of_writes {text : String} {bytes : List UInt8}
    (h : Text.Hex.Writes text.toList bytes) (hbytes : bytes.length = b.width) : ¬ isNullText text := by
  rw [isNullText, Bool.or_eq_true, String.isEmpty_iff, beq_iff_eq]
  rintro (rfl | hnull)
  · have hlength : 0 = 2 * bytes.length := h.length_eq
    have hwidth : 0 < b.width := by cases b <;> decide
    omega
  · have hdigit : ∀ value < 16,
        (Text.lowerHexDigit value).toLower ≠ 'n' ∧ (Text.upperHexDigit value).toLower ≠ 'n' := by decide
    obtain ⟨c, rest, hc, hn, _⟩ := map_eq_cons_iff.mp hnull
    obtain ⟨value, hvalue, hcase⟩ := h.exists_value c (hc ▸ mem_cons_self)
    rcases hcase with rfl | rfl
    · exact (hdigit value hvalue).1 hn
    · exact (hdigit value hvalue).2 hn

/-- A text is read as null if it says so, and else as the position whose bytes it writes. -/
theorem ofHex_eq_ok {text : String} : ofHex text = .ok p ↔
    (text = "" ∨ text.toLower = "null") ∧ p = null ∨
      ∃ bytes, Text.Hex.Writes text.toList bytes ∧ p.toBytes = some bytes := by
  simp only [← isNullText_iff, ← Text.Hex.decode_eq_ok, toBytes_eq, ofHex]
  by_cases hnull : isNullText text
  · have hnone : ¬ ∃ bytes, Text.Hex.decode text = .ok bytes ∧ ofBytes (some bytes) = .ok p := by
      rintro ⟨bytes, hdecode, hbytes⟩
      exact not_isNullText_of_writes (Text.Hex.decode_eq_ok.mp hdecode)
        (width_eq (toBytes_eq.mpr hbytes)) hnull
    rw [if_pos hnull, or_iff_left hnone]
    simp [hnull, eq_comm]
  · cases hdecode : Text.Hex.decode text <;> simp [hnull]

theorem ofHex_toHex (p : Position b) : ofHex p.toHex = .ok p := by
  obtain ⟨value⟩ := p
  cases value with
  | none => exact if_pos (show isNullText "NULL" by decide)
  | some v => exact ofHex_eq_ok.mpr (.inr ⟨_, .encodeUpper _, rfl⟩)

/-- The texts that are read are those that say null and those of two digits for each byte. -/
theorem exists_ofHex_eq_ok {text : String} : (∃ p : Position b, ofHex text = .ok p) ↔
    text = "" ∨ text.toLower = "null" ∨ text.toList.length = 2 * b.width ∧
      ∀ c ∈ text.toList, ∃ value, Text.Hex.IsDigitOf c value := by
  simp only [ofHex_eq_ok]
  constructor
  · rintro ⟨p, ⟨hnull, -⟩ | ⟨bytes, hwrites, hbytes⟩⟩
    · exact hnull.imp_right .inl
    · exact .inr (.inr ⟨width_eq hbytes ▸ hwrites.length_eq, hwrites.exists_value⟩)
  · rintro (hempty | hnull | ⟨hlength, hdigits⟩)
    · exact ⟨null, .inl ⟨.inl hempty, rfl⟩⟩
    · exact ⟨null, .inl ⟨.inr hnull, rfl⟩⟩
    · obtain ⟨bytes, hwrites⟩ := Text.Hex.exists_writes hlength hdigits
      have hwidth : bytes.length = b.width := by
        have := hwrites.length_eq
        omega
      exact ⟨ofNat (ofBigEndian bytes), .inr ⟨bytes, hwrites, toBytes_eq.mpr (if_pos hwidth)⟩⟩

/-- Numbers that fit are compared as positions. -/
theorem ofNat_lt_ofNat {m n : Nat} (hm : m < 2 ^ (8 * b.width)) (hn : n < 2 ^ (8 * b.width)) :
    (ofNat m : Position b) < ofNat n ↔ m < n := by
  rw [lt_iff_rank_lt]
  simp [rank, ofNat, Nat.mod_eq_of_lt hm, Nat.mod_eq_of_lt hn]

end Position

namespace Lsn

theorem ofParts_lt_ofParts {file block file' block' : UInt32} {slot slot' : UInt16} :
    ofParts file block slot < ofParts file' block' slot' ↔
      file < file' ∨ file = file' ∧ (block < block' ∨ block = block' ∧ slot < slot') := by
  have hfit (file block : UInt32) (slot : UInt16) :
      (file.toNat * UInt32.size + block.toNat) * UInt16.size + slot.toNat <
        2 ^ (8 * Backend.sqlserver.width) := by
    have hfile := file.toNat_lt
    have hblock := block.toNat_lt
    have hslot := slot.toNat_lt
    simp only [Backend.width, UInt32.size, UInt16.size]
    omega
  rw [ofParts, ofParts, Position.ofNat_lt_ofNat (hfit ..) (hfit ..)]
  have hblock := block.toNat_lt
  have hblock' := block'.toNat_lt
  have hslot := slot.toNat_lt
  have hslot' := slot'.toNat_lt
  simp only [UInt32.lt_iff_toNat_lt, UInt16.lt_iff_toNat_lt, ← UInt32.toNat_inj, UInt32.size, UInt16.size]
  omega

end Lsn

namespace Scn

theorem ofNat_lt_ofNat {m n : UInt64} :
    (Position.ofNat m.toNat : Scn) < Position.ofNat n.toNat ↔ m < n :=
  (Position.ofNat_lt_ofNat m.toNat_lt n.toNat_lt).trans UInt64.lt_iff_toNat_lt.symm

theorem next_some (v : BitVec (8 * Backend.oracle.width)) : next ⟨some v⟩ =
    if v.toNat + 1 < UInt64.size then .ok (Position.ofNat (v.toNat + 1))
    else .error (.invalidPosition s!"SCN {v.toNat} overflows") := rfl

theorem next_eq_error {p : Scn} :
    (∃ e, next p = .error e) ↔ p = Position.null ∨ p = Position.ofNat (UInt64.size - 1) := by
  obtain ⟨value⟩ := p
  cases value with
  | none => simp [next, Position.null]
  | some v =>
      have hv : v.toNat < UInt64.size := v.isLt
      have hlast : (⟨some v⟩ : Scn) = Position.ofNat (UInt64.size - 1) ↔ ¬ v.toNat + 1 < UInt64.size := by
        rw [Position.ofNat, Position.mk.injEq, Option.some_inj, ← BitVec.toNat_inj, BitVec.toNat_ofNat]
        simp only [Backend.width, UInt64.size] at hv ⊢
        omega
      rw [next_some, hlast]
      split_ifs with hnext <;> simp [Position.null, hnext]

/-- The next number is right behind. -/
theorem rank_of_next {p q : Scn} (h : next p = .ok q) : p ≠ Position.null ∧ q.rank = p.rank + 1 := by
  obtain ⟨value⟩ := p
  cases value with
  | none => cases h
  | some v =>
      rw [next_some] at h
      split_ifs at h with hnext
      cases h
      have hfit : (v.toNat + 1) % 2 ^ (8 * Backend.oracle.width) = v.toNat + 1 := Nat.mod_eq_of_lt hnext
      simp [Position.null, Position.rank, Position.ofNat, hfit]

theorem rank_le (p : Scn) : p.rank ≤ UInt64.size := by
  obtain ⟨value⟩ := p
  cases value with
  | none => exact Nat.zero_le _
  | some v => exact v.isLt

theorem next_eq_ok {p q : Scn} : next p = .ok q ↔ p ≠ Position.null ∧ IsLeast (Set.Ioi p) q := by
  have hleast {r : Scn} (h : next p = .ok r) : IsLeast (Set.Ioi p) r := by
    have hrank := (rank_of_next h).2
    refine ⟨?_, fun s (hs : p.rank < s.rank) => ?_⟩
    · exact show p.rank < r.rank by omega
    · exact show r.rank ≤ s.rank by omega
  constructor
  · exact fun h => ⟨(rank_of_next h).1, hleast h⟩
  · rintro ⟨hnull, hq⟩
    cases hnext : next p with
    | ok r => rw [(hleast hnext).unique hq]
    | error e =>
        -- Nothing lies above the greatest number.
        rcases next_eq_error.mp ⟨e, hnext⟩ with rfl | rfl
        · exact absurd rfl hnull
        · have hlt : UInt64.size < q.rank := hq.1
          exact absurd q.rank_le (by omega)

end Scn

/-! ## Reading, writing and comparing -/

/-- Positions are read from the bytes and texts that they are written as, and only from those. They are
compared as their bytes are, numbers of three parts part by part and plain numbers as such. The next of
these is the least one above, and only null and the greatest have none. -/
theorem Position.read_and_compared :
    (∀ (b : Backend) (p : Position b), ofBytes p.toBytes = .ok p ∧ ofHex p.toHex = .ok p) ∧
    (∀ (b : Backend) (bytes : Option (List UInt8)),
      ((∃ p : Position b, ofBytes bytes = .ok p) ↔ ∀ bs ∈ bytes, bs.length = b.width) ∧
      ∀ p : Position b, ofBytes bytes = .ok p ↔ p.toBytes = bytes) ∧
    (∀ (b : Backend) (text : String),
      ((∃ p : Position b, ofHex text = .ok p) ↔
        text = "" ∨ text.toLower = "null" ∨ text.toList.length = 2 * b.width ∧
          ∀ c ∈ text.toList, ∃ value, Text.Hex.IsDigitOf c value) ∧
      ∀ p : Position b, ofHex text = .ok p ↔
        (text = "" ∨ text.toLower = "null") ∧ p = null ∨
          ∃ bytes, Text.Hex.Writes text.toList bytes ∧ p.toBytes = some bytes) ∧
    (∀ (b : Backend) (p q : Position b), p < q ↔ p.toBytes < q.toBytes) ∧
    (∀ (file block file' block' : UInt32) (slot slot' : UInt16),
      Lsn.ofParts file block slot < Lsn.ofParts file' block' slot' ↔
        file < file' ∨ file = file' ∧ (block < block' ∨ block = block' ∧ slot < slot')) ∧
    (∀ m n : UInt64, (ofNat m.toNat : Scn) < ofNat n.toNat ↔ m < n) ∧
    ∀ p : Scn, ((∃ e, Scn.next p = .error e) ↔ p = null ∨ p = ofNat (UInt64.size - 1)) ∧
      ∀ q, Scn.next p = .ok q ↔ p ≠ null ∧ IsLeast (Set.Ioi p) q := by
  refine ⟨fun b p => ⟨ofBytes_toBytes p, ofHex_toHex p⟩, fun b bytes => ⟨exists_ofBytes_eq_ok, ?_⟩,
    fun b text => ⟨exists_ofHex_eq_ok, fun p => ofHex_eq_ok⟩, fun b p q => lt_iff_toBytes_lt, ?_, ?_, ?_⟩
  · exact fun p => toBytes_eq.symm
  · exact fun _ _ _ _ _ _ => Lsn.ofParts_lt_ofParts
  · exact fun m n => Scn.ofNat_lt_ofNat
  · exact fun p => ⟨Scn.next_eq_error, fun q => Scn.next_eq_ok⟩

end ChangeCapture
