import ChangeCapture.Offset.Store
import ChangeCapture.Proofs.Json.Reading
import ChangeCapture.Proofs.Positions
import ChangeCapture.Proofs.Text.Hex

/-! # Offsets are read as they are written

The first three fields of an offset have no colon, so that the three colons behind them are the first ones
of the text, whatever the origin holds. -/

namespace ChangeCapture

open List

/-! ## Fields without colons -/

theorem Position.colon_not_mem_toHex {b : Backend} (p : Position b) : ':' ∉ p.toHex.toList := by
  rw [toHex]
  split
  · decide
  · intro hcolon
    have hdigit : ∀ value < 16, ':' ∉ [Text.lowerHexDigit value, Text.upperHexDigit value] := by decide
    obtain ⟨value, hvalue, hcase⟩ := (Text.Hex.Writes.encodeUpper _).exists_value ':' hcolon
    exact hdigit value hvalue (by simpa using hcase)

theorem not_mem_toString_nat {c : Char} (hc : c.isDigit = false) (n : Nat) : c ∉ (toString n).toList := by
  rw [Nat.toString_eq_repr, Nat.repr_eq_ofList_toDigits, String.toList_ofList]
  intro hmem
  have hdigit := Text.isDigit_of_mem_toDigits c hmem
  rw [hc] at hdigit
  cases hdigit

/-- A number that is at most `max` is read as it is written. -/
theorem Text.readNat?_toString {max n : Nat} (h : n ≤ max) : readNat? max (toString n).toList = some n := by
  have hplus : '+' ∉ (toString n).toList := not_mem_toString_nat rfl n
  rw [Nat.toString_eq_repr, Nat.repr_eq_ofList_toDigits, String.toList_ofList] at hplus ⊢
  have hread := readDecimal?_toDigits n
  unfold readNat?
  split
  · rename_i heq
    simp [heq] at hplus
  · simp [hread, h]

namespace Sequence

theorem colon_not_mem_encode : {b : Backend} → (s : Sequence b) → ':' ∉ s.encode.toList
  | .sqlserver, (s : Lsn) => s.colon_not_mem_toHex
  | .oracle, (s : UInt64) => not_mem_toString_nat rfl s.toNat

theorem decode_encode : {b : Backend} → (s : Sequence b) → decode s.encode = .ok s
  | .sqlserver, (s : Lsn) => Position.ofHex_toHex s
  | .oracle, (s : UInt64) => by
      have hread : Text.readNat? (UInt64.size - 1) (toString s.toNat).toList = some s.toNat :=
        Text.readNat?_toString (Nat.le_sub_one_of_lt s.toNat_lt)
      simp only [decode, encode, hread, ofUInt64, UInt64.ofNat_toNat]

end Sequence

namespace Offset

variable {b : Backend}

/-! ## Text -/

theorem splitColon_append {head : List Char} (h : ':' ∉ head) (rest : List Char) :
    splitColon (head ++ ':' :: rest) = (head, some rest) := by
  induction head with
  | nil => rfl
  | cons c head ih =>
      rw [mem_cons, not_or] at h
      rw [cons_append, splitColon, if_neg (Ne.symm h.1), ih h.2]

theorem splitColon_of_not_mem {text : List Char} (h : ':' ∉ text) : splitColon text = (text, none) := by
  induction text with
  | nil => rfl
  | cons c text ih =>
      rw [mem_cons, not_or] at h
      rw [splitColon, if_neg (Ne.symm h.1), ih h.2]

/-- The text of the origin with the colon before it. -/
def originText (o : Offset b) : List Char := if o.origin = "" then [] else ':' :: o.origin.toList

theorem toList_render (o : Offset b) : o.render.toList = o.position.toHex.toList ++
    ':' :: (o.sequence.encode.toList ++ ':' :: ((toString o.op.toNat).toList ++ o.originText)) := by
  have hself (text : String) : toString text = text := rfl
  simp only [render, originText, hself, String.isEmpty_iff]
  split_ifs <;> simp only [String.toList_append, append_assoc, append_nil] <;> rfl

theorem fields_render (o : Offset b) : fields o.render.toList =
    [o.position.toHex.toList, o.sequence.encode.toList, (toString o.op.toNat).toList] ++
      (if o.origin = "" then [] else [o.origin.toList]) := by
  have hop := not_mem_toString_nat (c := ':') rfl o.op.toNat
  rw [toList_render, fields, fields.go, splitColon_append o.position.colon_not_mem_toHex]
  dsimp only
  rw [fields.go, splitColon_append o.sequence.colon_not_mem_encode]
  dsimp only
  rw [fields.go, originText]
  split_ifs with horigin
  · rw [append_nil, splitColon_of_not_mem hop]
    rfl
  · rw [splitColon_append hop]
    rfl

theorem parse_render (o : Offset b) : parse o.render = .ok o := by
  have hop : Text.readNat? 255 (toString o.op.toNat).toList = some o.op.toNat :=
    Text.readNat?_toString (Nat.le_of_lt_succ o.op.toNat_lt)
  have horigin : String.ofList (if o.origin = "" then [] else [o.origin.toList]).flatten = o.origin := by
    split_ifs with h <;> simp [h]
  rw [parse, fields_render]
  simp only [cons_append, nil_append, String.ofList_toList, Position.ofHex_toHex, Sequence.decode_encode,
    hop, horigin, UInt8.ofNat_toNat]
  rfl

/-! ## JSON text -/

theorem readJson_writeJson (o : Offset b) : readJson o.writeJson = .ok o := by
  have hparse : Json.Tree.parse? o.writeJson = some (.string (some o.render)) :=
    Json.parse?_eq_of_readsAs (Json.readsAs_string o.render)
  simp [readJson, Json.decodeText, hparse, ofTree?, Json.Tree.toString?, parse_render, Except.toOption]

theorem toByteArray_jsonBytes (o : Offset b) : o.jsonBytes.toByteArray = o.writeJson.toByteArray := by
  rw [jsonBytes, ← String.ofList_toList (s := o.writeJson), Text.Hex.toUTF8_toList, String.toByteArray_ofList]
  rfl

theorem fromUTF8?_jsonBytes (o : Offset b) : String.fromUTF8? o.jsonBytes.toByteArray = some o.writeJson := by
  rw [toByteArray_jsonBytes]
  exact dif_pos o.writeJson.isValidUTF8

/-- No offset is read from the front of the bytes of one. -/
theorem readJson_of_prefix {o : Offset b} {front : List UInt8} (h : front <+: o.jsonBytes)
    (hne : front ≠ o.jsonBytes) {text : String} (htext : String.fromUTF8? front.toByteArray = some text) :
    readJson (b := b) text = .error .json := by
  obtain ⟨more, hmore⟩ := h
  have hbytes : text.toByteArray = front.toByteArray := by
    obtain ⟨_, heq⟩ := Option.dite_none_right_eq_some.mp htext
    rw [← Option.some.inj heq]
    rfl
  have hfront : text.toList <+: o.writeJson.toList := by
    refine isPrefix_of_utf8Encode_append_eq_utf8Encode more.toByteArray ?_
    rw [String.utf8Encode_toList, String.utf8Encode_toList, hbytes, ← toByteArray_jsonBytes, ← hmore,
      List.toByteArray_append]
  have hshort : text.toList ≠ o.writeJson.toList := by
    intro heq
    rw [String.toList_inj.mp heq, ← toByteArray_jsonBytes] at hbytes
    exact hne (List.toByteArray_inj.mp hbytes).symm
  have hparse : Json.Tree.parse? text = none := by
    rw [← String.ofList_toList (s := text)]
    exact Json.parse?_eq_none_of_prefix hfront hshort
  simp [readJson, Json.decodeText, hparse]

/-! ## Canonical texts -/

/-- Only one offset is written as a text. -/
theorem render_inj {o p : Offset b} : o.render = p.render ↔ o = p := by
  refine ⟨fun h => ?_, fun h => h ▸ rfl⟩
  have hparse := parse_render o
  rw [h, parse_render] at hparse
  exact (Except.ok.inj hparse).symm

/-- The text that the offset of a text is written as, if it denotes one. -/
def canonical? (b : Backend) (text : String) : Option String := (parse (b := b) text).toOption.map render

/-- An offset is read from its text and from its JSON text. What is read from any text is written and read
again, and two texts have one canonical text exactly if they denote one offset. -/
theorem read_as_written :
    (∀ o : Offset b, parse o.render = .ok o ∧ readJson o.writeJson = .ok o) ∧
    (∀ (text : String) (o : Offset b), parse text = .ok o → parse o.render = parse (b := b) text) ∧
    ∀ text other : String, canonical? b text = canonical? b other ↔
      (parse (b := b) text).toOption = (parse (b := b) other).toOption := by
  refine ⟨fun o => ⟨parse_render o, readJson_writeJson o⟩, fun text o h => ?_, fun text other => ?_⟩
  · rw [parse_render, h]
  · have hinjective : Function.Injective (render (b := b)) := fun o p => render_inj.mp
    exact (Option.map_injective hinjective).eq_iff

end Offset

end ChangeCapture
