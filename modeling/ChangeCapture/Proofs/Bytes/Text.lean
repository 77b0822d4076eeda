import ChangeCapture.Statement.Input
import Mathlib.Data.UInt

/-! # Texts by the indices of their bytes

An access by index is checked: a byte is there only in range, a part of a text only between indices that are
in order and divide no character. -/

namespace ChangeCapture.Bytes

open Statement (byteLength)

/-! ## Accesses -/

/-- The byte at an index, if the text goes on that far. -/
def byte? (text : String) (i : Nat) : Option UInt8 := text.toUTF8[i]?

/-- The bytes from one index to another, if these are in order and in range. -/
def bytes? (text : String) (start stop : Nat) : Option (List UInt8) :=
  if start ≤ stop ∧ stop ≤ text.utf8ByteSize then some (text.toUTF8.data.toList.extract start stop)
  else none

/-- The text from one index to another, if these are in order and stand between characters. -/
def slice? (text : String) (start stop : Nat) : Option String :=
  if h : start ≤ stop ∧ String.Pos.Raw.IsValid text ⟨start⟩ ∧ String.Pos.Raw.IsValid text ⟨stop⟩ then
    some (String.extract (text.pos _ h.2.1) (text.pos _ h.2.2))
  else none

/-- The difference of two sizes, if it is not below zero. -/
def minus? (size other : Nat) : Option Nat := if other ≤ size then some (size - other) else none

/-- What is left is less than before, as it must be for a loop to go on. -/
def less? (left before : Nat) : Option (PLift (left < before)) :=
  if h : left < before then some ⟨h⟩ else none

/-- The characters of a text, each with the index of its first byte; `start` is that of the first one. -/
def charIndices (start : Nat) : List Char → List (Nat × Char)
  | [] => []
  | c :: rest => (start, c) :: charIndices (start + c.utf8Size) rest

/-- The index at which a character first stands. -/
def find? (text : String) (c : Char) : Option Nat :=
  ((charIndices 0 text.toList).find? (·.2 == c)).map (·.1)

/-- What reads a text by index. It has no outcome if an access fails, and none if a loop does not get on. -/
abbrev Checked (ε α : Type) := ExceptT ε Option α

/-! ## Bytes of characters -/

def encode (text : List Char) : List UInt8 := text.flatMap String.utf8EncodeChar

@[simp] theorem encode_nil : encode [] = [] := rfl

@[simp] theorem encode_cons (c : Char) (text : List Char) :
    encode (c :: text) = String.utf8EncodeChar c ++ encode text := rfl

@[simp] theorem encode_append (text more : List Char) :
    encode (text ++ more) = encode text ++ encode more := List.flatMap_append

@[simp] theorem byteLength_nil : byteLength [] = 0 := rfl

@[simp] theorem byteLength_cons (c : Char) (text : List Char) :
    byteLength (c :: text) = c.utf8Size + byteLength text := rfl

@[simp] theorem byteLength_append (text more : List Char) :
    byteLength (text ++ more) = byteLength text + byteLength more := by
  induction text with
  | nil => simp
  | cons c text ih => simp [ih, Nat.add_assoc]

@[simp] theorem byteLength_eq_zero_iff {text : List Char} : byteLength text = 0 ↔ text = [] := by
  cases text with
  | nil => simp
  | cons c text =>
      have := c.utf8Size_pos
      simp
      omega

/-- Two fronts of one text are equal if they take as many bytes. -/
theorem eq_of_byteLength {front front' rest rest' : List Char} (h : front ++ rest = front' ++ rest')
    (hlength : byteLength front = byteLength front') : front = front' := by
  rcases List.append_eq_append_iff.mp h with ⟨more, rfl, _⟩ | ⟨more, rfl, _⟩
  · have hmore : more = [] := byteLength_eq_zero_iff.mp (by rw [byteLength_append] at hlength; omega)
    rw [hmore, List.append_nil]
  · have hmore : more = [] := byteLength_eq_zero_iff.mp (by rw [byteLength_append] at hlength; omega)
    rw [hmore, List.append_nil]

@[simp] theorem length_encode (text : List Char) : (encode text).length = byteLength text := by
  induction text with
  | nil => rfl
  | cons c text ih => simp [ih]

theorem toList_toUTF8 (text : List Char) : (String.ofList text).toUTF8.data.toList = encode text := by
  simp [encode, List.utf8Encode]

@[simp] theorem utf8ByteSize_ofList (text : List Char) :
    (String.ofList text).utf8ByteSize = byteLength text := by
  rw [← length_encode, ← toList_toUTF8]
  rfl

theorem utf8ByteSize_eq (text : String) : text.utf8ByteSize = byteLength text.toList := by
  rw [← utf8ByteSize_ofList, String.ofList_toList]

/-! ## Accesses between characters -/

theorem byte?_ofList (before rest : List Char) (i : Nat) :
    byte? (String.ofList (before ++ rest)) (byteLength before + i) = (encode rest)[i]? := by
  have hbyte : byte? (String.ofList (before ++ rest)) (byteLength before + i) =
      (encode (before ++ rest))[byteLength before + i]? := by
    rw [← toList_toUTF8, Array.getElem?_toList]
    rfl
  rw [hbyte, encode_append, ← length_encode, List.getElem?_append_right (by omega), Nat.add_sub_cancel_left]

theorem bytes?_ofList (before rest : List Char) {size : Nat} (hsize : size ≤ byteLength rest) :
    bytes? (String.ofList (before ++ rest)) (byteLength before) (byteLength before + size) =
      some ((encode rest).take size) := by
  rw [bytes?, if_pos (by simpa using hsize), toList_toUTF8, List.extract_eq_take_drop, encode_append,
    ← length_encode, List.drop_left, Nat.add_sub_cancel_left]

theorem isValid_byteLength (before after : List Char) :
    String.Pos.Raw.IsValid (String.ofList (before ++ after)) ⟨byteLength before⟩ :=
  String.Pos.Raw.isValid_iff_exists_append.mpr
    ⟨String.ofList before, String.ofList after, String.ofList_append,
      congrArg String.Pos.Raw.mk (utf8ByteSize_ofList before).symm⟩

/-- The places between characters are those at which a text may be cut. -/
theorem slice?_ofList (before part after : List Char) :
    slice? (String.ofList (before ++ part ++ after)) (byteLength before) (byteLength (before ++ part)) =
      some (String.ofList part) := by
  have hstart := isValid_byteLength before (part ++ after)
  rw [← List.append_assoc] at hstart
  have hstop := isValid_byteLength (before ++ part) after
  rw [slice?, dif_pos ⟨by simp, hstart, hstop⟩, Option.some_inj, ← String.toByteArray_inj]
  ext1
  apply Array.toList_inj.mp
  simp only [String.toByteArray_extract, String.offset_pos, ByteArray.data_extract, Array.toList_extract]
  have hpart : (encode (before ++ part ++ after)).extract (byteLength before) (byteLength (before ++ part)) =
      encode part := by
    have hlength : byteLength (before ++ part) - byteLength before = (encode part).length := by simp
    rw [List.extract_eq_take_drop, hlength, encode_append, encode_append, List.append_assoc,
      ← length_encode, List.drop_left, List.take_left]
  exact ((toList_toUTF8 _).symm ▸ hpart).trans (toList_toUTF8 part).symm

example : slice? "aé" 1 3 = some "é" := by decide

example : slice? "aé" 1 2 = none := by decide

theorem find?_charIndices (start : Nat) (text : List Char) (c : Char) :
    (charIndices start text).find? (·.2 == c) =
      (text.dropWhile (· != c)).head?.map fun _ => (start + byteLength (text.takeWhile (· != c)), c) := by
  induction text generalizing start with
  | nil => rfl
  | cons d text ih =>
      by_cases hd : d = c
      · simp [charIndices, hd]
      · simp [charIndices, hd, ih, Nat.add_assoc]

/-- A character stands behind the characters before it. -/
theorem find?_ofList (text : List Char) (c : Char) :
    find? (String.ofList text) c =
      (text.dropWhile (· != c)).head?.map fun _ => byteLength (text.takeWhile (· != c)) := by
  rw [find?, String.toList_ofList, find?_charIndices, Option.map_map]
  simp [Function.comp_def]

theorem minus?_of_le {size other : Nat} (h : other ≤ size) : minus? size other = some (size - other) :=
  if_pos h

theorem less?_of_lt {left before : Nat} (h : left < before) : less? left before = some ⟨h⟩ := dif_pos h

/-! ## Bytes and characters -/

/-- A character begins with the byte: one of ASCII is its own byte, every other begins with a byte that no
character of ASCII has. -/
inductive Begins : UInt8 → Char → Prop where
  | ascii {c : Char} (hc : c.toNat < 128) : Begins c.toUInt8 c
  | wide {byte : UInt8} {c : Char} (hbyte : 128 ≤ byte.toNat) (hc : 128 ≤ c.toNat) : Begins byte c

theorem utf8Size_of_ascii {c : Char} (hc : c.toNat < 128) : c.utf8Size = 1 :=
  Char.utf8Size_eq_one_iff.mpr (UInt32.le_iff_toNat_le.mpr (Nat.le_of_lt_succ hc))

theorem utf8EncodeChar_of_ascii {c : Char} (hc : c.toNat < 128) : String.utf8EncodeChar c = [c.toUInt8] :=
  String.utf8EncodeChar_eq_singleton (utf8Size_of_ascii hc)

theorem toNat_toUInt8 {c : Char} (hc : c.toNat < 128) : c.toUInt8.toNat = c.toNat := by
  have h : c.toUInt8.toNat = c.toNat % 256 := rfl
  omega

theorem toNat_ofUInt8 (byte : UInt8) : (Char.ofUInt8 byte).toNat = byte.toNat := byte.toNat_toUInt32

theorem ofUInt8_toUInt8 {c : Char} (hc : c.toNat < 128) : Char.ofUInt8 c.toUInt8 = c := by
  rw [← Char.toNat_inj, toNat_ofUInt8, toNat_toUInt8 hc]

/-- Every byte of a character that is not of ASCII is outside ASCII, too. -/
theorem le_toNat_of_mem {c : Char} (hc : 128 ≤ c.toNat) {byte : UInt8}
    (hbyte : byte ∈ String.utf8EncodeChar c) : 128 ≤ byte.toNat := by
  have hmark (bits mark : UInt8) (hmark : 128 ≤ mark.toNat) : 128 ≤ (bits ||| mark).toNat := by
    rw [UInt8.toNat_or]
    exact hmark.trans Nat.right_le_or
  obtain h | h | h | h := c.utf8Size_eq
  · have hle := UInt32.le_iff_toNat_le.mp (Char.utf8Size_eq_one_iff.mp h)
    exact absurd (hc.trans hle) (by decide)
  · rw [String.utf8EncodeChar_eq_cons_cons h] at hbyte
    simp only [List.mem_cons, List.not_mem_nil, or_false] at hbyte
    rcases hbyte with rfl | rfl <;> exact hmark _ _ (by decide)
  · rw [String.utf8EncodeChar_eq_cons_cons_cons h] at hbyte
    simp only [List.mem_cons, List.not_mem_nil, or_false] at hbyte
    rcases hbyte with rfl | rfl | rfl <;> exact hmark _ _ (by decide)
  · rw [String.utf8EncodeChar_eq_cons_cons_cons_cons h] at hbyte
    simp only [List.mem_cons, List.not_mem_nil, or_false] at hbyte
    rcases hbyte with rfl | rfl | rfl | rfl <;> exact hmark _ _ (by decide)

theorem exists_begins (c : Char) : ∃ byte, (String.utf8EncodeChar c)[0]? = some byte ∧ Begins byte c := by
  by_cases hc : c.toNat < 128
  · exact ⟨c.toUInt8, by rw [utf8EncodeChar_of_ascii hc]; rfl, .ascii hc⟩
  · have hlength : 0 < (String.utf8EncodeChar c).length := by
      rw [String.length_utf8EncodeChar]
      exact c.utf8Size_pos
    exact ⟨_, List.getElem?_eq_getElem hlength,
      .wide (le_toNat_of_mem (Nat.le_of_not_lt hc) (List.getElem_mem hlength)) (Nat.le_of_not_lt hc)⟩

namespace Begins

variable {byte : UInt8} {c : Char}

/-- A byte is a character of ASCII if that is the character that it begins. -/
theorem eq_iff (h : Begins byte c) {other : Char} (hother : other.toNat < 128) :
    byte = other.toUInt8 ↔ c = other := by
  cases h with
  | ascii hc =>
      refine ⟨fun h => ?_, fun h => h ▸ rfl⟩
      rw [← ofUInt8_toUInt8 hc, h, ofUInt8_toUInt8 hother]
  | wide hbyte hc =>
      constructor
      · rintro rfl
        rw [toNat_toUInt8 hother] at hbyte
        omega
      · rintro rfl
        omega

/-- What holds of characters of ASCII only holds of a byte if it holds of the character that it begins. -/
theorem test (h : Begins byte c) {p : Char → Bool} (hp : ∀ c, p c = true → c.toNat < 128) :
    p (Char.ofUInt8 byte) = p c := by
  cases h with
  | ascii hc => rw [ofUInt8_toUInt8 hc]
  | wide hbyte hc =>
      have hfalse (d : Char) (hd : 128 ≤ d.toNat) : p d = false :=
        Bool.eq_false_iff.mpr fun h => by have := hp d h; omega
      rw [hfalse c hc, hfalse _ ((toNat_ofUInt8 byte).symm ▸ hbyte)]

end Begins

end ChangeCapture.Bytes
