import ChangeCapture.Proofs.Text.Hex
import ChangeCapture.Proofs.Text.Utf16
import ChangeCapture.Proofs.Value.Calls
import ChangeCapture.Value.Normalize

/-! # Escaped text is read as it is written

There are two layers. A quote is written twice in every literal, and in the literals whose escapes are
decoded a backslash begins an escape. -/

namespace ChangeCapture.Expression

open Text

/-! ## How texts are written -/

/-- Four digits, each of them in either case, for a code unit. -/
inductive WritesUnit : Nat → List Char → Prop where
  | digits {unit : Nat} {a b c d : Char} (ha : Hex.IsDigitOf a (unit / 4096))
      (hb : Hex.IsDigitOf b (unit / 256 % 16)) (hc : Hex.IsDigitOf c (unit / 16 % 16))
      (hd : Hex.IsDigitOf d (unit % 16)) : WritesUnit unit [a, b, c, d]

/-- A backslash and four digits for each code unit. -/
inductive WritesUnits : List Nat → List Char → Prop where
  | nil : WritesUnits [] []
  | cons {unit : Nat} {units : List Nat} {digits body : List Char} (hunit : WritesUnit unit digits)
      (hunits : WritesUnits units body) : WritesUnits (unit :: units) ('\\' :: (digits ++ body))

/-- A character between the quotes of an escaped literal: as it is, or by its code units. -/
inductive WritesChar : Char → List Char → Prop where
  | plain {c : Char} (hquote : c ≠ '\'') (hbackslash : c ≠ '\\') : WritesChar c [c]
  | quote : WritesChar '\'' ['\'', '\'']
  | backslash : WritesChar '\\' ['\\', '\\']
  | units {c : Char} {body : List Char} (hunits : WritesUnits (Utf16.encodeChar c) body) : WritesChar c body

/-- Each character is written in one of its ways. -/
inductive WritesText : List Char → List Char → Prop where
  | nil : WritesText [] []
  | cons {c : Char} {text written body : List Char} (hc : WritesChar c written)
      (htext : WritesText text body) : WritesText (c :: text) (written ++ body)

/-! ## Code units -/

theorem WritesUnit.readUnit? {unit : Nat} {digits : List Char} (h : WritesUnit unit digits) :
    readUnit? digits = some unit := by
  obtain ⟨ha, hb, hc, hd⟩ := h
  have hsum : 16 * (16 * (16 * (16 * 0 + unit / 4096) + unit / 256 % 16) + unit / 16 % 16) + unit % 16 =
      unit := by omega
  rw [Expression.readUnit?]
  · simp only [Hex.readNumber?, List.mapM_cons, List.mapM_nil, ha.charValue?, hb.charValue?,
      hc.charValue?, hd.charValue?]
    exact congrArg some hsum
  · exact fun _ heq => ha.ne (by decide) (List.cons.inj heq).1

theorem escapedUnits?_escape {unit : Nat} {digits : List Char} (h : WritesUnit unit digits)
    (rest : List Char) :
    escapedUnits? ('\\' :: (digits ++ rest)) = (escapedUnits? rest).map (unit :: ·) := by
  have hunit := h.readUnit?
  obtain ⟨ha, hb, hc, hd⟩ := h
  rw [List.cons_append, List.cons_append, List.cons_append, List.cons_append, List.nil_append,
    escapedUnits?, hunit]
  · cases escapedUnits? rest <;> rfl
  · exact fun heq => ha.ne (by decide) heq

theorem escapedUnits?_plain {c : Char} (h : c ≠ '\\') (rest : List Char) :
    escapedUnits? (c :: rest) = (escapedUnits? rest).map (Utf16.encodeChar c ++ ·) := by
  rw [escapedUnits?, if_neg h]
  · exact fun _ heq => absurd heq h
  · exact fun _ _ _ _ _ heq => absurd heq h

theorem WritesUnits.escapedUnits? {units : List Nat} {body : List Char} (h : WritesUnits units body)
    (rest : List Char) :
    escapedUnits? (body ++ rest) = (escapedUnits? rest).map (units ++ ·) := by
  induction h with
  | nil => simp
  | cons hunit _ ih =>
      rw [List.cons_append, List.append_assoc, escapedUnits?_escape hunit, ih, Option.map_map]
      rfl

theorem WritesUnits.not_mem {units : List Nat} {body : List Char} (h : WritesUnits units body) :
    '\'' ∉ body := by
  induction h with
  | nil => exact List.not_mem_nil
  | cons hunit _ ih =>
      obtain ⟨ha, hb, hc, hd⟩ := hunit
      have hnone : Hex.charValue? '\'' = none := by decide
      simpa using ⟨(ha.ne hnone).symm, (hb.ne hnone).symm, (hc.ne hnone).symm, (hd.ne hnone).symm, ih⟩

/-! ## Characters -/

/-- Without its doubled quotes a character is read as its code units, whatever comes next. -/
theorem WritesChar.exists_escaped {c : Char} {written : List Char} (h : WritesChar c written) :
    ∃ escaped, written = Literal.escape escaped ∧ ∀ rest,
      escapedUnits? (escaped ++ rest) = (escapedUnits? rest).map (Utf16.encodeChar c ++ ·) := by
  cases h with
  | plain hquote hbackslash =>
      exact ⟨[c], (Literal.escape_cons_of_ne hquote []).symm, escapedUnits?_plain hbackslash⟩
  | quote => exact ⟨['\''], rfl, escapedUnits?_plain (by decide)⟩
  | backslash => exact ⟨['\\', '\\'], rfl, fun _ => rfl⟩
  | units hunits =>
      exact ⟨written, (Literal.escape_of_not_mem hunits.not_mem).symm, hunits.escapedUnits?⟩

theorem WritesText.exists_escaped {text body : List Char} (h : WritesText text body) :
    ∃ escaped, body = Literal.escape escaped ∧ escapedUnits? escaped = some (Utf16.encode text) := by
  induction h with
  | nil => exact ⟨[], rfl, rfl⟩
  | cons hc _ ih =>
      obtain ⟨first, rfl, hfirst⟩ := hc.exists_escaped
      obtain ⟨escaped, rfl, hescaped⟩ := ih
      refine ⟨first ++ escaped, (Literal.escape_append first escaped).symm, ?_⟩
      rw [hfirst, hescaped]
      rfl

/-- The text comes back from the literal in which it is written. -/
theorem WritesText.exists_decoded {text body : List Char} (h : WritesText text body) :
    ∃ escaped, body = Literal.escape escaped ∧ decodeEscaped? escaped = some text := by
  obtain ⟨escaped, hbody, hescaped⟩ := h.exists_escaped
  refine ⟨escaped, hbody, ?_⟩
  rw [decodeEscaped?, hescaped, Option.bind_some, Utf16.decode?_encode]

/-- A call whose first argument is a written text stands for the text, whatever comes behind it. -/
theorem WritesText.content_eq {text body expr tail : List Char} (h : WritesText text body)
    (htail : tail.head? ≠ some '\'')
    (hcall : IsCall Wrapper.escapedText.name expr ('\'' :: (body ++ '\'' :: tail))) :
    content expr = .ok (.text text) := by
  obtain ⟨escaped, rfl, hdecoded⟩ := h.exists_decoded
  refine (Wrapper.content_eq_ok hcall).mpr ⟨escaped, tail, opens_escape escaped htail, ?_⟩
  rw [Wrapper.decode, hdecoded]

/-! ## Lengths -/

/-- Each escape and each other character begins one character at most. -/
theorem countP_escapedUnits? {text : List Char} {units : List Nat} (h : escapedUnits? text = some units) :
    units.countP (!Utf16.isLow ·) ≤ text.length := by
  have hcons (unit : Nat) (units : List Nat) : (unit :: units).countP (!Utf16.isLow ·) ≤
      units.countP (!Utf16.isLow ·) + 1 := by
    rw [List.countP_cons]
    split <;> omega
  fun_induction escapedUnits? text generalizing units with
  | case1 =>
      cases h
      exact Nat.le_refl 0
  | case2 rest ih =>
      obtain ⟨units, hunits, rfl⟩ := Option.map_eq_some_iff.mp h
      have hrest := ih hunits
      have hfirst := hcons '\\'.toNat units
      simp only [List.length_cons]
      omega
  | case3 a b c d rest hpair ih =>
      obtain ⟨unit, _, h⟩ := Option.bind_eq_some_iff.mp h
      obtain ⟨units, hunits, h⟩ := Option.bind_eq_some_iff.mp h
      cases h
      have hrest := ih hunits
      have hfirst := hcons unit units
      simp only [List.length_cons]
      omega
  | case4 => cases h
  | case5 c rest _ _ _ ih =>
      obtain ⟨units, hunits, rfl⟩ := Option.map_eq_some_iff.mp h
      rw [List.countP_append, Utf16.countP_encodeChar, List.length_cons]
      have hrest := ih hunits
      omega

theorem length_decodeEscaped?_le {escaped text : List Char} (h : decodeEscaped? escaped = some text) :
    text.length ≤ escaped.length := by
  obtain ⟨units, hunits, hdecode⟩ := Option.bind_eq_some_iff.mp h
  exact Utf16.length_decode? hdecode ▸ countP_escapedUnits? hunits

end ChangeCapture.Expression

namespace ChangeCapture.Value

open Expression

/-! ## Values -/

/-- In a column of texts every text comes back from each of its literals: from the one that writes
quotes twice, and from all that escape characters as well. -/
theorem normalize_written (column : Column) (hkind : ColumnKind.ofTypeName column.typeName = .text)
    (text : String) :
    normalize column (some (.literal (String.ofList (Literal.escape text.toList)))) = .ok (.string text) ∧
      ∀ body : String, WritesText text.toList body.toList →
        normalize column (some (.expression ("UNISTR('" ++ body ++ "')"))) = .ok (.string text) := by
  constructor
  · simp only [normalize, hkind, String.toList_ofList, Literal.unescape_escape, ofText, ofChars,
      String.ofList_toList]
  · intro body hbody
    have hcall : IsCall Wrapper.escapedText.name ("UNISTR('" ++ body ++ "')").toList
        ('\'' :: (body.toList ++ '\'' :: [])) :=
      ⟨"UNISTR".toList, by decide, by simp⟩
    have hcontent := hbody.content_eq (by simp) hcall
    simp only [normalize, hkind, hcontent, bind, Except.bind, ofText, ofChars, String.ofList_toList]

/-- Quotes, backslashes and a character of two code units, with escapes in either case. -/
theorem normalize_written_of_sample :
    normalize ⟨"NAME", 1, "NVARCHAR2(20)", true, none⟩ (some (.literal "it''s")) = .ok (.string "it's") ∧
      normalize ⟨"NAME", 1, "NVARCHAR2(20)", true, none⟩
        (some (.expression ("UNISTR('" ++ "''\\\\\\D83D\\de00(\\0029" ++ "')"))) =
          .ok (.string "'\\😀()") := by
  have hkind : ColumnKind.ofTypeName "NVARCHAR2(20)" = .text := by decide
  have hescape : String.ofList (Literal.escape "it's".toList) = "it''s" := by decide
  have hparen : WritesChar ')' ['\\', '0', '0', '2', '9'] :=
    .units (.cons (.digits (by decide) (by decide) (by decide) (by decide)) .nil)
  have hsmile : WritesChar '😀' "\\D83D\\de00".toList :=
    .units (.cons (.digits (by decide) (by decide) (by decide) (by decide))
      (.cons (.digits (by decide) (by decide) (by decide) (by decide)) .nil))
  have hwritten : WritesText "'\\😀()".toList "''\\\\\\D83D\\de00(\\0029".toList :=
    .cons .quote (.cons .backslash (.cons hsmile (.cons (.plain (by decide) (by decide))
      (.cons hparen .nil))))
  constructor
  · rw [← hescape]
    exact (normalize_written ⟨"NAME", 1, "NVARCHAR2(20)", true, none⟩ hkind "it's").1
  · exact (normalize_written ⟨"NAME", 1, "NVARCHAR2(20)", true, none⟩ hkind "'\\😀()").2 _ hwritten

end ChangeCapture.Value
