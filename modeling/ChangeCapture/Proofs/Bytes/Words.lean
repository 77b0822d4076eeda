import ChangeCapture.Proofs.Bytes.Parser
import ChangeCapture.Proofs.Statement.Delimiters
import ChangeCapture.Proofs.Statement.Endings

/-! # Words are read alike by byte and by character

The invariant of the scanner: it stands between characters, inside the body or at its end, and what comes
after the body cannot be taken for a part of it. -/

namespace ChangeCapture.Bytes

open Statement (Fault Input byteLength)

/-! ## Outcomes that agree -/

variable {ε α β γ δ : Type}

/-- The reading by byte has an outcome: the failure of the reading by character, or a result that is
related to its result. -/
inductive Agrees (R : α → β → Prop) : Checked ε α → Except ε β → Prop where
  | error (failure : ε) : Agrees R (throw failure) (.error failure)
  | ok {a : α} {b : β} (h : R a b) : Agrees R (pure a) (.ok b)

namespace Agrees

theorem bind {R : α → β → Prop} {S : γ → δ → Prop} {read : Checked ε α} {expected : Except ε β}
    {go : α → Checked ε γ} {next : β → Except ε δ} (h : Agrees R read expected)
    (hgo : ∀ a b, expected = .ok b → R a b → Agrees S (go a) (next b)) :
    Agrees S (read >>= go) (expected >>= next) := by
  cases h with
  | error failure => exact .error failure
  | ok h => exact hgo _ _ rfl h

theorem run_map {f : β → α} {read : Checked ε α} {expected : Except ε β}
    (h : Agrees (fun a b => a = f b) read expected) : read.run = some (expected.map f) := by
  cases h with
  | error failure => rfl
  | ok h =>
      rw [h]
      rfl

theorem run_eq {read : Checked ε α} {expected : Except ε α} (h : Agrees Eq read expected) :
    read.run = some expected := by
  rw [run_map (f := id) h, Except.map_id]
  rfl

end Agrees

/-- An access that succeeds is no step. -/
@[simp] theorem lift_some_bind (a : α) (go : α → Checked ε β) :
    ((liftM (some a) : Checked ε α) >>= go) = go a := rfl

/-- Nothing is found by byte and by character, or related things are. -/
def Finds (R : α → β → Prop) (found : Option (Option α)) (expected : Option β) : Prop :=
  (found = some none ∧ expected = none) ∨ ∃ a b, found = some (some a) ∧ expected = some b ∧ R a b

namespace Scanner

/-! ## Places -/

/-- At index `i`, between two characters, `rest` is left of the body. -/
def Stands (scanner : Scanner) (i : Nat) (rest : List Char) : Prop :=
  ∃ before after : List Char, scanner.text = String.ofList (before ++ (rest ++ after)) ∧
    i = byteLength before ∧ scanner.stop = i + byteLength rest ∧
    ∀ c ∈ after.head?, c = ';' ∨ Text.isBlank c = true

namespace Stands

variable {scanner : Scanner} {i : Nat} {c : Char} {taken rest : List Char}

theorem stop_eq (h : Stands scanner i rest) : scanner.stop = i + byteLength rest := by
  obtain ⟨_, _, _, _, hstop, _⟩ := h
  exact hstop

theorem eq_stop (h : Stands scanner i []) : i = scanner.stop := h.stop_eq.symm

theorem lt_stop (h : Stands scanner i (c :: rest)) : i < scanner.stop := by
  rw [h.stop_eq, byteLength_cons]
  have := c.utf8Size_pos
  omega

theorem advance (h : Stands scanner i (taken ++ rest)) : Stands scanner (i + byteLength taken) rest := by
  obtain ⟨before, after, htext, rfl, hstop, hafter⟩ := h
  exact ⟨before ++ taken, after, by simpa using htext, by simp, by simpa [Nat.add_assoc] using hstop, hafter⟩

theorem next (h : Stands scanner i (c :: rest)) : Stands scanner (i + c.utf8Size) rest :=
  @advance _ _ [c] _ h

theorem next_ascii (hc : c.toNat < 128) (h : Stands scanner i (c :: rest)) :
    Stands scanner (i + 1) rest := by
  have hnext := h.next
  rwa [utf8Size_of_ascii hc] at hnext

theorem byte?_eq (h : Stands scanner i (c :: rest)) {k : Nat} (hk : k < c.utf8Size) :
    byte? scanner.text (i + k) = (String.utf8EncodeChar c)[k]? := by
  obtain ⟨before, after, htext, rfl, _, _⟩ := h
  rw [htext, byte?_ofList, List.cons_append, encode_cons, List.getElem?_append_left (by simpa using hk)]

theorem byte (h : Stands scanner i (c :: rest)) : ∃ byte, byte? scanner.text i = some byte ∧ Begins byte c := by
  obtain ⟨byte, hbyte, hbegins⟩ := exists_begins c
  exact ⟨byte, (h.byte?_eq c.utf8Size_pos).trans hbyte, hbegins⟩

/-- The scanner also goes over the bytes inside a character, none of which is in ASCII. -/
theorem wide_byte (h : Stands scanner i (c :: rest)) (hc : 128 ≤ c.toNat) {k : Nat} (hk : k < c.utf8Size) :
    ∃ byte, byte? scanner.text (i + k) = some byte ∧ 128 ≤ byte.toNat := by
  have hlength : k < (String.utf8EncodeChar c).length := by simpa using hk
  exact ⟨_, (h.byte?_eq hk).trans (List.getElem?_eq_getElem hlength),
    le_toNat_of_mem hc (List.getElem_mem hlength)⟩

/-- A look behind the body meets a semicolon, a blank or nothing. -/
theorem byte_after (h : Stands scanner i []) {byte : UInt8} (hbyte : byte? scanner.text i = some byte) :
    ∃ c, Begins byte c ∧ (c = ';' ∨ Text.isBlank c = true) := by
  obtain ⟨before, after, htext, rfl, _, hafter⟩ := h
  rw [htext, List.nil_append, ← Nat.add_zero (byteLength before), byte?_ofList] at hbyte
  cases after with
  | nil => cases hbyte
  | cons c after =>
      obtain ⟨first, hfirst, hbegins⟩ := exists_begins c
      have hlength : 0 < (String.utf8EncodeChar c).length := by
        rw [String.length_utf8EncodeChar]
        exact c.utf8Size_pos
      rw [encode_cons, List.getElem?_append_left hlength, hfirst] at hbyte
      cases hbyte
      exact ⟨c, hbegins, hafter c rfl⟩

theorem slice?_eq (h : Stands scanner i (taken ++ rest)) :
    slice? scanner.text i (i + byteLength taken) = some (String.ofList taken) := by
  obtain ⟨before, after, htext, rfl, _, _⟩ := h
  rw [htext, ← byteLength_append, List.append_assoc, ← List.append_assoc before]
  exact slice?_ofList before taken (rest ++ after)

theorem bytes?_eq (h : Stands scanner i rest) {size : Nat} (hsize : i + size ≤ scanner.stop) :
    bytes? scanner.text i (i + size) = some ((encode rest).take size) := by
  rw [h.stop_eq] at hsize
  obtain ⟨before, after, htext, rfl, _, _⟩ := h
  rw [htext, bytes?_ofList before (rest ++ after) (by simp; omega), encode_append,
    List.take_append_of_le_length (by simp; omega)]

end Stands

/-- The scanner stands where the reading by character is, in the body in which it began. -/
structure At (origin scanner : Scanner) (input : Input) : Prop where
  stands : Stands scanner scanner.pos input.rest
  offset : input.offset = scanner.pos
  text : scanner.text = origin.text
  stop : scanner.stop = origin.stop

/-- The same value was read, and the readings go on at the same place. -/
def SameAt (origin : Scanner) (read : α × Scanner) (expected : α × Input) : Prop :=
  read.1 = expected.1 ∧ At origin read.2 expected.2

/-- A statement or a part of one is read alike. -/
abbrev Reads (origin : Scanner) (read : Checked Fault (α × Scanner)) (expected : Except Fault (α × Input)) :
    Prop :=
  Agrees (SameAt origin) read expected

variable {origin scanner : Scanner} {input : Input}

theorem Reads.bind {S : γ → δ → Prop} {read : Checked Fault (α × Scanner)}
    {expected : Except Fault (α × Input)} {go : α × Scanner → Checked Fault γ}
    {next : α × Input → Except Fault δ} (h : Reads origin read expected)
    (hgo : ∀ value scanner input, expected = .ok (value, input) → At origin scanner input →
      Agrees S (go (value, scanner)) (next (value, input))) :
    Agrees S (read >>= go) (expected >>= next) := by
  refine Agrees.bind h ?_
  rintro ⟨value, scanner⟩ ⟨_, input⟩ hexpected ⟨rfl, hat⟩
  exact hgo value scanner input hexpected hat

namespace At

theorem reads_return (h : At origin scanner input) (value : α) :
    Reads origin (pure (value, scanner)) (pure (value, input)) := .ok ⟨rfl, h⟩

/-- A failure tells the same place. -/
theorem agrees_error (h : At origin scanner input) (reason : Statement.Reason) {R : α → β → Prop} :
    Agrees R (throw (scanner.fault reason)) (.error (input.fault reason)) := by
  rw [fault, Input.fault, h.offset]
  exact .error _

theorem advance (h : At origin scanner input) {taken rest : List Char} (hrest : input.rest = taken ++ rest) :
    At origin { scanner with pos := scanner.pos + byteLength taken } (input.advance taken rest) where
  stands := (hrest ▸ h.stands : Stands scanner scanner.pos (taken ++ rest)).advance
  offset := by rw [Input.advance, h.offset]
  text := h.text
  stop := h.stop

/-- The body is cut in two at the place of the scanner. -/
theorem exists_front (h : At origin scanner input) :
    ∃ front after, origin.text = String.ofList (front ++ after) ∧ origin.stop = byteLength front ∧
      input.rest <:+ front ∧ scanner.left = byteLength input.rest := by
  obtain ⟨before, after, htext, hpos, hstop, _⟩ := h.stands
  refine ⟨before ++ input.rest, after, ?_, ?_, List.suffix_append _ _, ?_⟩
  · rw [← h.text, htext, List.append_assoc]
  · rw [← h.stop, hstop, hpos, byteLength_append]
  · rw [left, hstop, Nat.add_sub_cancel_left]

/-- A loop gets on in bytes if it gets on in characters. -/
theorem left_lt (h : At origin scanner input) {next : Scanner} {after : Input} (hnext : At origin next after)
    (hlength : after.rest.length < input.rest.length) : next.left < scanner.left := by
  obtain ⟨front, rest, htext, hstop, hsuffix, hleft⟩ := h.exists_front
  obtain ⟨front', rest', htext', hstop', hsuffix', hleft'⟩ := hnext.exists_front
  have hfront : front' = front :=
    eq_of_byteLength (String.ofList_injective (htext'.symm.trans htext)) (hstop'.symm.trans hstop)
  rw [hfront] at hsuffix'
  obtain ⟨taken, htaken⟩ := List.suffix_of_suffix_length_le hsuffix' hsuffix hlength.le
  have hne : byteLength taken ≠ 0 := fun hzero => by
    rw [byteLength_eq_zero_iff.mp hzero] at htaken
    rw [← htaken] at hlength
    exact absurd hlength (Nat.lt_irrefl _)
  rw [hleft, hleft', ← htaken, byteLength_append]
  omega

theorem less?_bind (h : At origin scanner input) {next : Scanner} {after : Input}
    (hnext : At origin next after) (hlength : after.rest.length < input.rest.length) {R : γ → δ → Prop}
    {go : Checked Fault γ} {expected : Except Fault δ} (hgo : Agrees R go expected) :
    Agrees R (do let ⟨_⟩ ← less? next.left scanner.left; go) expected := by
  rw [less?_of_lt (h.left_lt hnext hlength), lift_some_bind]
  exact hgo

end At

/-! ## Characters -/

section Characters

variable {i : Nat} {rest : List Char}

theorem ascii_of_isAsciiBlank {c : Char} (h : Text.isAsciiBlank c = true) : c.toNat < 128 := by
  simp only [Text.isAsciiBlank, Bool.or_eq_true, beq_iff_eq] at h
  rcases h with (((rfl | rfl) | rfl) | rfl) | rfl <;> decide

theorem ascii_of_isWordChar {c : Char} (h : Input.isWordChar c = true) : c.toNat < 128 := by
  have := (Statement.Ending.range_of_isWordChar h).2
  omega

theorem isBlankByte_eq {byte : UInt8} {c : Char} (h : Begins byte c) :
    isBlankByte byte = Text.isAsciiBlank c := h.test fun _ => ascii_of_isAsciiBlank

theorem isWordByte_eq {byte : UInt8} {c : Char} (h : Begins byte c) :
    isWordByte byte = Input.isWordChar c := h.test fun _ => ascii_of_isWordChar

theorem At.eat? (h : At origin scanner input) {c : Char} (hc : c.toNat < 128) :
    Finds (At origin) (scanner.eat? c) (input.eat? c) := by
  have hstands := h.stands
  cases hrest : input.rest with
  | nil =>
      rw [hrest] at hstands
      have hstop : ¬ scanner.pos < scanner.stop := hstands.eq_stop.not_lt
      exact .inl ⟨by simp [Scanner.eat?, peek, if_neg hstop], by simp [Input.eat?, hrest]⟩
  | cons d rest =>
      rw [hrest] at hstands
      obtain ⟨byte, hbyte, hbegins⟩ := hstands.byte
      by_cases hd : d = c
      · have hsame : byte = c.toUInt8 := (hbegins.eq_iff hc).mpr hd
        have hat := h.advance (show input.rest = [d] ++ rest from hrest)
        simp only [byteLength_cons, byteLength_nil, hd, utf8Size_of_ascii hc] at hat
        exact .inr ⟨_, _, by simp [Scanner.eat?, peek, if_pos hstands.lt_stop, hbyte, hsame],
          by simp [Input.eat?, hrest, hd], hat⟩
      · have hother : byte ≠ c.toUInt8 := mt (hbegins.eq_iff hc).mp hd
        exact .inl ⟨by simp [Scanner.eat?, peek, if_pos hstands.lt_stop, hbyte, hother],
          by simp [Input.eat?, hrest, hd]⟩

theorem At.expect (h : At origin scanner input) {c : Char} (hc : c.toNat < 128) :
    Agrees (At origin) (scanner.expect c) (input.expect c) := by
  unfold Scanner.expect Input.expect
  rcases h.eat? hc with ⟨hfound, hexpected⟩ | ⟨next, after, hfound, hexpected, hat⟩
  · simp only [hfound, hexpected, lift_some_bind]
    exact h.agrees_error _
  · simp only [hfound, hexpected, lift_some_bind]
    exact .ok hat

theorem Stands.blanksEnd_eq (h : Stands scanner i rest) :
    scanner.blanksEnd i = some (i + byteLength (rest.takeWhile Text.isAsciiBlank)) := by
  induction rest generalizing i with
  | nil =>
      rw [blanksEnd, if_neg h.eq_stop.not_lt]
      rfl
  | cons c rest ih =>
      obtain ⟨byte, hbyte, hbegins⟩ := h.byte
      rw [blanksEnd, if_pos h.lt_stop, hbyte]
      simp only [Option.bind_eq_bind, Option.bind_some, isBlankByte_eq hbegins]
      by_cases hc : Text.isAsciiBlank c = true
      · have hascii := ascii_of_isAsciiBlank hc
        rw [if_pos hc, ih (h.next_ascii hascii), List.takeWhile_cons_of_pos hc, byteLength_cons,
          utf8Size_of_ascii hascii, Nat.add_assoc]
      · rw [if_neg hc, List.takeWhile_cons_of_neg hc]
        rfl

theorem At.skipBlanks (h : At origin scanner input) :
    ∃ next, scanner.skipBlanks = some next ∧ At origin next input.skipBlanks :=
  ⟨_, by rw [Scanner.skipBlanks, h.stands.blanksEnd_eq]; rfl,
    h.advance (List.takeWhile_append_dropWhile (p := Text.isAsciiBlank)).symm⟩

theorem At.skipBlanks_bind {S : γ → δ → Prop} {go : Scanner → Checked Fault γ}
    {expected : Except Fault δ} (h : At origin scanner input)
    (hgo : ∀ next, At origin next input.skipBlanks → Agrees S (go next) expected) :
    Agrees S (do go (← scanner.skipBlanks)) expected := by
  obtain ⟨next, hnext, hat⟩ := h.skipBlanks
  rw [hnext, lift_some_bind]
  exact hgo next hat

end Characters

/-! ## Keywords -/

/-- A keyword has characters of ASCII only, and no capitals. -/
def IsPlainWord (keyword : String) : Prop :=
  keyword.toList.all (fun c => c.toNat < 128 && c.toLower == c) = true

instance (keyword : String) : Decidable (IsPlainWord keyword) := inferInstanceAs (Decidable (_ = true))

theorem IsPlainWord.plain {keyword : String} (h : IsPlainWord keyword) :
    ∀ c ∈ keyword.toList, c.toNat < 128 ∧ c.toLower = c := by
  simpa [IsPlainWord] using h

section Keywords

variable {i : Nat} {rest : List Char}

theorem ascii_of_toLower {c : Char} (h : c.toLower.toNat < 128) : c.toNat < 128 := by
  unfold Char.toLower at h
  split at h
  · rename_i hc
    have hle : c.toNat ≤ 90 := UInt32.le_iff_toNat_le.mp hc.2
    omega
  · exact h

theorem sameLetter_eq {byte : UInt8} {c w : Char} (h : Begins byte c) (hw : w.toNat < 128)
    (hlower : w.toLower = w) : sameLetter byte w.toUInt8 = decide (c.toLower = w) := by
  rw [sameLetter, ofUInt8_toUInt8 hw, hlower, ← beq_eq_decide]
  exact h.test (p := fun c => c.toLower == w) fun c hc => ascii_of_toLower (eq_of_beq hc ▸ hw)

theorem encode_of_ascii {text : List Char} (h : ∀ c ∈ text, c.toNat < 128) :
    encode text = text.map Char.toUInt8 := by
  induction text with
  | nil => rfl
  | cons c text ih =>
      obtain ⟨hc, htext⟩ := List.forall_mem_cons.mp h
      rw [encode_cons, utf8EncodeChar_of_ascii hc, ih htext]
      rfl

theorem byteLength_of_ascii {text : List Char} (h : ∀ c ∈ text, c.toNat < 128) :
    byteLength text = text.length := by
  rw [← length_encode, encode_of_ascii h, List.length_map]

/-- A keyword stands in front of the bytes of a text if it stands in front of its characters. -/
theorem isEqv_encode {word : List Char} (hword : ∀ c ∈ word, c.toNat < 128 ∧ c.toLower = c)
    (rest : List Char) : List.isEqv ((encode rest).take word.length) (word.map Char.toUInt8) sameLetter =
      decide (Text.lowerAscii (rest.take word.length) = word) := by
  induction word generalizing rest with
  | nil => simp [Text.lowerAscii]
  | cons w word ih =>
      obtain ⟨⟨hw, hlower⟩, hword⟩ := List.forall_mem_cons.mp hword
      cases rest with
      | nil => simp [Text.lowerAscii]
      | cons c rest =>
          obtain ⟨byte, hbyte, hbegins⟩ := exists_begins c
          obtain ⟨inner, hencode⟩ := List.head?_eq_some_iff.mp (List.head?_eq_getElem?.trans hbyte)
          rw [encode_cons, hencode, List.map_cons, List.length_cons, List.cons_append, List.take_succ_cons,
            List.isEqv_cons_cons, sameLetter_eq hbegins hw hlower]
          by_cases hc : c.toLower = w
          · have hascii : c.toNat < 128 := ascii_of_toLower (hc ▸ hw)
            rw [utf8EncodeChar_of_ascii hascii] at hencode
            cases hencode
            simp [ih hword, Text.lowerAscii, hc]
          · simp [Text.lowerAscii, hc]

/-- Nothing that may stand behind a body goes on with a word. -/
theorem not_isWordChar_after {c : Char} (h : c = ';' ∨ Text.isBlank c = true) : Input.isWordChar c = false := by
  rcases h with rfl | hblank
  · decide
  · refine Bool.eq_false_iff.mpr fun hword => ?_
    obtain ⟨hlow, hhigh⟩ := Statement.Ending.range_of_isWordChar hword
    have hvalue := Text.toNat_of_isBlank hblank
    omega

theorem Stands.all_not_isWordByte (h : Stands scanner i rest) :
    (byte? scanner.text i).all (!isWordByte ·) = !rest.head?.any Input.isWordChar := by
  cases rest with
  | cons c rest =>
      obtain ⟨byte, hbyte, hbegins⟩ := h.byte
      simp [hbyte, isWordByte_eq hbegins]
  | nil =>
      cases hbyte : byte? scanner.text i with
      | none => rfl
      | some byte =>
          obtain ⟨c, hbegins, hc⟩ := h.byte_after hbyte
          simp [isWordByte_eq hbegins, not_isWordChar_after hc]

theorem byteLength_of_lowerAscii {keyword : String} (hkeyword : IsPlainWord keyword) {written : List Char}
    (h : Text.lowerAscii written = keyword.toList) : byteLength written = keyword.utf8ByteSize := by
  have hwritten : ∀ c ∈ written, c.toNat < 128 := fun c hc =>
    ascii_of_toLower (hkeyword.plain c.toLower (h ▸ List.mem_map_of_mem hc)).1
  have hlength : written.length = keyword.toList.length := by rw [← h, Text.lowerAscii, List.length_map]
  rw [utf8ByteSize_eq, byteLength_of_ascii hwritten, byteLength_of_ascii fun c hc => (hkeyword.plain c hc).1, hlength]

/-- A keyword is found at a place exactly if it is next in the body. -/
theorem Stands.keywordAt_eq (h : Stands scanner i rest) {keyword : String} (hkeyword : IsPlainWord keyword) :
    scanner.keywordAt keyword i = some (Input.afterKeyword? keyword rest).isSome := by
  have hascii : ∀ c ∈ keyword.toList, c.toNat < 128 := fun c hc => (hkeyword.plain c hc).1
  have hsize : keyword.utf8ByteSize = keyword.toList.length := by
    rw [utf8ByteSize_eq, byteLength_of_ascii hascii]
  have hbytes : keyword.toUTF8.data.toList = keyword.toList.map Char.toUInt8 := by
    rw [← encode_of_ascii hascii, ← toList_toUTF8, String.ofList_toList]
  have hfound : List.isEqv ((encode rest).take keyword.utf8ByteSize) keyword.toUTF8.data.toList sameLetter =
      decide (Text.lowerAscii (rest.take keyword.toList.length) = keyword.toList) := by
    rw [hsize, hbytes]
    exact isEqv_encode hkeyword.plain rest
  unfold keywordAt Input.afterKeyword?
  by_cases hwritten : Text.lowerAscii (rest.take keyword.toList.length) = keyword.toList
  · have hplace := h
    rw [← List.take_append_drop keyword.toList.length rest] at hplace
    have hnext := hplace.advance
    rw [byteLength_of_lowerAscii hkeyword hwritten] at hnext
    have hin : i + keyword.utf8ByteSize ≤ scanner.stop := by
      rw [hnext.stop_eq]
      exact Nat.le_add_right _ _
    simp only [if_pos hin, h.bytes?_eq hin, Option.bind_eq_bind, Option.bind_some, hfound,
      decide_eq_true hwritten, if_pos hwritten, hnext.all_not_isWordByte]
    cases (rest.drop keyword.toList.length).head?.any Input.isWordChar <;> rfl
  · simp only [if_neg hwritten]
    by_cases hin : i + keyword.utf8ByteSize ≤ scanner.stop
    · simp only [if_pos hin, h.bytes?_eq hin, Option.bind_eq_bind, Option.bind_some, hfound,
        decide_eq_false hwritten]
      rfl
    · simp only [if_neg hin]
      rfl

/-- A keyword has as many bytes as characters, also where it is written in capitals. -/
theorem take_of_afterKeyword {keyword : String} (hkeyword : IsPlainWord keyword) {tail : List Char}
    (htail : Input.afterKeyword? keyword rest = some tail) :
    rest = rest.take keyword.toList.length ++ tail ∧
      byteLength (rest.take keyword.toList.length) = keyword.utf8ByteSize := by
  obtain ⟨written, hwritten, rfl, _⟩ := Input.afterKeyword?_eq_some.mp htail
  have hlength : keyword.toList.length = written.length := by
    rw [← hwritten, Text.lowerAscii, List.length_map]
  rw [hlength, List.take_left]
  exact ⟨rfl, byteLength_of_lowerAscii hkeyword hwritten⟩

theorem Stands.afterKeyword (h : Stands scanner i rest) {keyword : String} (hkeyword : IsPlainWord keyword)
    {tail : List Char} (htail : Input.afterKeyword? keyword rest = some tail) :
    Stands scanner (i + keyword.utf8ByteSize) tail := by
  obtain ⟨hrest, hsize⟩ := take_of_afterKeyword hkeyword htail
  rw [hrest] at h
  exact hsize ▸ h.advance

theorem At.eatKeyword? (h : At origin scanner input) (keyword : String) (hkeyword : IsPlainWord keyword) :
    Finds (At origin) (scanner.eatKeyword? keyword) (input.eatKeyword? keyword) := by
  have hfound := h.stands.keywordAt_eq hkeyword
  unfold Scanner.eatKeyword? Input.eatKeyword?
  rw [hfound]
  cases htail : Input.afterKeyword? keyword input.rest with
  | none => exact .inl ⟨rfl, rfl⟩
  | some tail =>
      obtain ⟨hrest, hsize⟩ := take_of_afterKeyword hkeyword htail
      have hat := h.advance hrest
      rw [hsize] at hat
      exact .inr ⟨_, _, rfl, rfl, hat⟩

theorem At.expectKeyword (h : At origin scanner input) {keyword : String} (hkeyword : IsPlainWord keyword) :
    Agrees (At origin) (scanner.expectKeyword keyword) (input.expectKeyword keyword) := by
  unfold Scanner.expectKeyword Input.expectKeyword
  rcases h.eatKeyword? keyword hkeyword with ⟨hfound, hexpected⟩ | ⟨next, after, hfound, hexpected, hat⟩
  · simp only [hfound, hexpected, lift_some_bind]
    exact h.agrees_error _
  · simp only [hfound, hexpected, lift_some_bind]
    exact .ok hat

end Keywords

/-! ## Identifiers -/

theorem identifier_eq (input : Input) : input.identifier = (do
    let opened ← input.expect '"'
    match opened.rest.dropWhile (· != '"') with
    | [] => throw (opened.fault .unterminatedIdentifier)
    | _ :: rest =>
        if (opened.rest.takeWhile (· != '"')).isEmpty then throw (opened.fault .emptyIdentifier)
        else return (String.ofList (opened.rest.takeWhile (· != '"')),
          opened.advance (opened.rest.takeWhile (· != '"') ++ ['"']) rest)) := by
  unfold Input.identifier
  cases input.expect '"' with
  | error fault => rfl
  | ok opened => rfl

theorem At.identifier (h : At origin scanner input) :
    Reads origin scanner.identifier input.identifier := by
  rw [identifier_eq]
  refine (h.expect (c := '"') (by decide)).bind fun opened input _ hat => ?_
  have hsplit : input.rest = input.rest.takeWhile (· != '"') ++ input.rest.dropWhile (· != '"') :=
    (List.takeWhile_append_dropWhile).symm
  have hall : slice? opened.text opened.pos opened.stop = some (String.ofList input.rest) := by
    have hplace := hat.stands
    rw [← List.append_nil input.rest] at hplace
    rw [hat.stands.stop_eq]
    exact hplace.slice?_eq
  simp only [hall, lift_some_bind, find?_ofList]
  cases hdrop : input.rest.dropWhile (· != '"') with
  | nil => exact hat.agrees_error _
  | cons quote tail =>
      have hquote : quote = '"' := by
        have hfirst := List.head?_dropWhile_not (· != '"') input.rest
        rw [hdrop] at hfirst
        simpa using hfirst
      rw [hdrop, hquote] at hsplit
      generalize input.rest.takeWhile (· != '"') = name at hsplit ⊢
      by_cases hempty : name = []
      · simp only [hempty]
        exact hat.agrees_error _
      · have hplace := hat.stands
        rw [hsplit] at hplace
        have hnext := hat.advance (show input.rest = (name ++ ['"']) ++ tail by simpa using hsplit)
        have hlength : byteLength (name ++ ['"']) = byteLength name + 1 := by
          rw [byteLength_append]
          rfl
        rw [hlength, ← Nat.add_assoc] at hnext
        simp only [List.head?_cons, Option.map_some, byteLength_eq_zero_iff, if_neg hempty,
          hplace.slice?_eq, lift_some_bind, List.isEmpty_iff]
        exact .ok ⟨rfl, hnext⟩

end Scanner

end ChangeCapture.Bytes
