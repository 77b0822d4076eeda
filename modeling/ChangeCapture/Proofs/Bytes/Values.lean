import ChangeCapture.Proofs.Bytes.Words
import ChangeCapture.Proofs.Statement.Spans

/-! # Values are read alike by byte and by character

The scanner goes over a character of several bytes one byte at a time. None of these bytes is in ASCII, so
it changes its state at characters only, and stops between them. -/

namespace ChangeCapture.Bytes

open Statement (Fault Input Nesting ValueContext byteLength spanValue)

/-- A loop that only goes on in some places leaves them behind. -/
theorem goes_on {γ : Type} {loop : Nat → γ} {i size : Nat} (h : ∀ k < size, loop (i + k) = loop (i + k + 1)) :
    loop i = loop (i + size) := by
  induction size with
  | zero => rfl
  | succ size ih =>
      rw [ih fun k hk => h k (Nat.lt_succ_of_lt hk), h size (Nat.lt_succ_self size)]
      rfl

theorem ne_of_wide {byte : UInt8} (hbyte : 128 ≤ byte.toNat) {c : Char} (hc : c.toNat < 128) :
    byte ≠ c.toUInt8 := by
  rintro rfl
  rw [toNat_toUInt8 hc] at hbyte
  omega

namespace Scanner

variable {scanner : Scanner} {context : ValueContext} {i : Nat} {c : Char} {rest : List Char}

/-! ## Ends of values -/

theorem Stands.spacedKeywordAt_eq (h : Stands scanner i (c :: rest)) {keyword : String}
    (hkeyword : IsPlainWord keyword) : scanner.spacedKeywordAt keyword i =
      some (Statement.beginsWithSpaced keyword (c :: rest)) := by
  obtain ⟨byte, hbyte, hbegins⟩ := h.byte
  have hplace := h
  rw [← List.takeWhile_append_dropWhile (p := Text.isAsciiBlank) (l := c :: rest)] at hplace
  have hstart : Stands scanner _ _ := hplace.advance
  unfold spacedKeywordAt Statement.beginsWithSpaced
  simp only [hbyte, Option.bind_eq_bind, Option.bind_some, Scanner.isBlankByte_eq hbegins, h.blanksEnd_eq,
    hstart.keywordAt_eq hkeyword, List.head?_cons, Option.any_some]
  cases hblank : Text.isAsciiBlank c with
  | false => rfl
  | true =>
      cases htail : Input.afterKeyword? keyword ((c :: rest).dropWhile Text.isAsciiBlank) with
      | none => rfl
      | some tail =>
          have hnext := hstart.afterKeyword hkeyword htail
          cases tail with
          | nil =>
              rw [if_pos rfl, Option.isSome_some, if_pos rfl, if_pos hnext.eq_stop]
              rfl
          | cons d tail =>
              obtain ⟨after, hafter, hd⟩ := hnext.byte
              rw [if_pos rfl, Option.isSome_some, if_pos rfl, if_neg hnext.lt_stop.ne, hafter]
              simp [Scanner.isBlankByte_eq hd]

theorem Stands.endsValue_eq (h : Stands scanner i (c :: rest)) :
    scanner.endsValue context i = some (context.endsBefore (c :: rest)) := by
  obtain ⟨byte, hbyte, hbegins⟩ := h.byte
  have heq (other : Char) (hother : other.toNat < 128) : byte = other.toUInt8 ↔ c = other :=
    hbegins.eq_iff hother
  unfold endsValue ValueContext.endsBefore
  simp only [hbyte, Option.bind_eq_bind, Option.bind_some, heq ';' (by decide), heq ',' (by decide),
    heq ')' (by decide), h.spacedKeywordAt_eq (show IsPlainWord "where" by decide),
    h.spacedKeywordAt_eq (show IsPlainWord "and" by decide), List.head?_cons, beq_eq_decide]
  by_cases hsemicolon : c = ';'
  · simp [hsemicolon]
  · cases context with
    | tuple => simp [hsemicolon]
    | setClause => by_cases hcomma : c = ',' <;> simp [hsemicolon, hcomma]
    | whereClause => simp [hsemicolon]

theorem endsValue_wide {byte : UInt8} (hbyte : byte? scanner.text i = some byte) (hwide : 128 ≤ byte.toNat) :
    scanner.endsValue context i = some false := by
  have hblank : isBlankByte byte = false := by
    refine Bool.eq_false_iff.mpr fun h => ?_
    have := ascii_of_isAsciiBlank h
    rw [toNat_ofUInt8] at this
    omega
  have hspaced (keyword : String) : scanner.spacedKeywordAt keyword i = some false := by
    simp [spacedKeywordAt, hbyte, hblank]
  unfold endsValue
  cases context <;>
    simp [hbyte, hspaced, ne_of_wide hwide (show ';'.toNat < 128 by decide),
      ne_of_wide hwide (show ','.toNat < 128 by decide), ne_of_wide hwide (show ')'.toNat < 128 by decide)]

/-! ## Spans of values -/

/-- A byte outside ASCII changes nothing, whatever the scanner is in. -/
theorem valueEnd_wide {byte : UInt8} (hi : i < scanner.stop) (hbyte : byte? scanner.text i = some byte)
    (hwide : 128 ≤ byte.toNat) (state resume : State) :
    scanner.valueEnd context state resume i = scanner.valueEnd context state resume (i + 1) := by
  have hquote := ne_of_wide hwide (show '\''.toNat < 128 by decide)
  have hopen := ne_of_wide hwide (show '('.toNat < 128 by decide)
  have hclose := ne_of_wide hwide (show ')'.toNat < 128 by decide)
  rw [valueEnd, if_pos hi, hbyte]
  cases state <;> simp [hquote, hopen, hclose, endsValue_wide hbyte hwide]

theorem Stands.valueEnd_wide (h : Stands scanner i (c :: rest)) (hc : 128 ≤ c.toNat) (state resume : State) :
    scanner.valueEnd context state resume i =
      scanner.valueEnd context state resume (i + c.utf8Size) := by
  refine goes_on fun k hk => ?_
  obtain ⟨byte, hbyte, hwide⟩ := h.wide_byte hc hk
  refine Scanner.valueEnd_wide ?_ hbyte hwide state resume
  rw [h.stop_eq, byteLength_cons]
  omega

/-- Outside quotes, at some depth. -/
def State.ofDepth : Nat → State
  | 0 => .normal
  | depth + 1 => .parens (depth + 1)

def State.ofNesting (nesting : Nesting) : State :=
  if nesting.quoted then .quoted else .ofDepth nesting.depth

/-- In quotes the scanner remembers what they stand in. -/
def Resumes (resume : State) (nesting : Nesting) : Prop :=
  nesting.quoted = true → resume = .ofDepth nesting.depth

/-- A look ahead meets a quote only if it is next in the body. -/
theorem Stands.byte?_eq_quote_iff (h : Stands scanner i rest) :
    byte? scanner.text i = some '\''.toUInt8 ↔ rest.head? = some '\'' := by
  cases rest with
  | cons c rest =>
      obtain ⟨byte, hbyte, hbegins⟩ := h.byte
      rw [hbyte, List.head?_cons, Option.some_inj, Option.some_inj, hbegins.eq_iff (by decide)]
  | nil =>
      refine iff_of_false (fun hquote => ?_) (by simp)
      obtain ⟨c, hbegins, hc⟩ := h.byte_after hquote
      have hsame : c = '\'' := (hbegins.eq_iff (by decide)).mp rfl
      rw [hsame] at hc
      exact absurd hc (by decide)

/-- The quotes end before a quote that no other one follows. -/
theorem Stands.valueEnd_quoted (h : Stands scanner i (c :: rest))
    (hpair : ¬(c = '\'' ∧ rest.head? = some '\'')) (resume : State) :
    scanner.valueEnd context .quoted resume i =
      scanner.valueEnd context (if c = '\'' then resume else .quoted) resume (i + c.utf8Size) := by
  by_cases hc : c.toNat < 128
  · obtain ⟨byte, hbyte, hbegins⟩ := h.byte
    have hquote : byte = '\''.toUInt8 ↔ c = '\'' := hbegins.eq_iff (by decide)
    rw [utf8Size_of_ascii hc, valueEnd, if_pos h.lt_stop, hbyte]
    simp only [Option.bind_eq_bind, Option.bind_some, hquote, (h.next_ascii hc).byte?_eq_quote_iff]
    by_cases hopen : c = '\''
    · rw [if_pos hopen, if_pos hopen, if_neg fun hnext => hpair ⟨hopen, hnext⟩]
    · rw [if_neg hopen, if_neg hopen]
  · rw [if_neg (by rintro rfl; exact hc (by decide))]
    exact h.valueEnd_wide (Nat.le_of_not_lt hc) .quoted resume

theorem Stands.valueEnd_pair (h : Stands scanner i ('\'' :: '\'' :: rest)) (resume : State) :
    scanner.valueEnd context .quoted resume i = scanner.valueEnd context .quoted resume (i + 2) := by
  have hbyte := h.byte?_eq_quote_iff.mpr rfl
  have hnext := (h.next_ascii (by decide)).byte?_eq_quote_iff.mpr rfl
  rw [valueEnd, if_pos h.lt_stop, hbyte]
  simp [hnext]

theorem Stands.valueEnd_ends (h : Stands scanner i (c :: rest)) (hends : context.endsBefore (c :: rest) = true)
    (resume : State) : scanner.valueEnd context .normal resume i = some (.normal, i) := by
  obtain ⟨byte, hbyte, hbegins⟩ := h.byte
  rw [valueEnd, if_pos h.lt_stop, hbyte]
  simp [h.endsValue_eq, hends]

theorem Stands.valueEnd_unquoted (h : Stands scanner i (c :: rest)) (depth : Nat)
    (hgo : ¬(depth = 0 ∧ context.endsBefore (c :: rest) = true)) (resume : State) :
    ∃ resume', Resumes resume' (Nesting.step ⟨depth, false⟩ c) ∧
      scanner.valueEnd context (.ofDepth depth) resume i =
        scanner.valueEnd context (.ofNesting (Nesting.step ⟨depth, false⟩ c)) resume' (i + c.utf8Size) := by
  by_cases hc : c.toNat < 128
  · obtain ⟨byte, hbyte, hbegins⟩ := h.byte
    have hquote : byte = '\''.toUInt8 ↔ c = '\'' := hbegins.eq_iff (by decide)
    have hopen : byte = '('.toUInt8 ↔ c = '(' := hbegins.eq_iff (by decide)
    have hclose : byte = ')'.toUInt8 ↔ c = ')' := hbegins.eq_iff (by decide)
    rw [utf8Size_of_ascii hc, valueEnd, if_pos h.lt_stop, hbyte, Nesting.step_unquoted]
    cases depth with
    | zero =>
        have hends : context.endsBefore (c :: rest) = false := by simpa using hgo
        simp only [State.ofDepth, Option.bind_eq_bind, Option.bind_some, h.endsValue_eq, hends, hquote, hopen,
          Bool.false_eq_true, if_false]
        split_ifs with hc₁ hc₂ hc₃
        · exact ⟨.normal, fun _ => rfl, rfl⟩
        · exact ⟨resume, nofun, rfl⟩
        · exact ⟨resume, nofun, rfl⟩
        · exact ⟨resume, nofun, rfl⟩
    | succ depth =>
        simp only [State.ofDepth, Option.bind_eq_bind, Option.bind_some, hquote, hopen, hclose,
          minus?_of_le (Nat.le_add_left 1 depth)]
        split_ifs with hc₁ hc₂ hc₃ hdepth
        · exact ⟨.parens (depth + 1), fun _ => rfl, rfl⟩
        · exact ⟨resume, nofun, rfl⟩
        · obtain rfl : depth = 0 := Nat.succ_inj.mp hdepth
          exact ⟨resume, nofun, rfl⟩
        · obtain ⟨more, rfl⟩ := Nat.exists_eq_succ_of_ne_zero fun h => hdepth (congrArg Nat.succ h)
          exact ⟨resume, nofun, rfl⟩
        · exact ⟨resume, nofun, rfl⟩
  · have hstep : Nesting.step ⟨depth, false⟩ c = ⟨depth, false⟩ := by
      have hne (other : Char) (hother : other.toNat < 128) : c ≠ other := by
        rintro rfl
        exact hc hother
      rw [Nesting.step_unquoted, if_neg (hne _ (by decide)), if_neg (hne _ (by decide)),
        if_neg (hne _ (by decide))]
    exact ⟨resume, by simp [hstep, Resumes], by rw [hstep]; exact h.valueEnd_wide (Nat.le_of_not_lt hc) _ resume⟩

theorem Stands.valueEnd_eq {text : List Char} (nesting : Nesting) (h : Stands scanner i text) {resume : State}
    (hresume : Resumes resume nesting) :
    scanner.valueEnd context (.ofNesting nesting) resume i =
      some (.ofNesting (spanValue context nesting text).2.2,
        i + byteLength (spanValue context nesting text).1) := by
  fun_induction spanValue context nesting text generalizing i resume with
  | case1 nesting =>
      rw [valueEnd, if_neg h.eq_stop.not_lt]
      rfl
  | case2 depth rest value tail final hspan ih =>
      have hnext : Stands scanner (i + 2) rest := (h.next_ascii (by decide)).next_ascii (by decide)
      rw [hspan] at ih
      refine (h.valueEnd_pair resume).trans ((ih hnext hresume).trans ?_)
      rw [byteLength_cons, byteLength_cons, utf8Size_of_ascii (by decide), ← Nat.add_assoc 1, Nat.add_assoc i]
  | case3 depth c rest hpair value tail final hspan ih =>
      rw [hspan] at ih
      refine (h.valueEnd_quoted ?_ resume).trans ?_
      · rintro ⟨rfl, hhead⟩
        obtain ⟨more, rfl⟩ := List.head?_eq_some_iff.mp hhead
        exact hpair more rfl rfl
      · have hstate : (if c = '\'' then resume else .quoted) = State.ofNesting ⟨depth, c != '\''⟩ := by
          by_cases hc : c = '\''
          · simpa [hc, State.ofNesting] using hresume rfl
          · simp [hc, State.ofNesting]
        rw [hstate, ih h.next fun _ => hresume rfl, byteLength_cons, Nat.add_assoc]
  | case4 depth c rest hends =>
      obtain ⟨rfl, hends⟩ := hends
      exact h.valueEnd_ends hends resume
  | case5 depth c rest hgo =>
      rename_i hspan ih
      obtain ⟨resume', hresume', hstep⟩ := h.valueEnd_unquoted depth hgo resume
      rw [Nesting.step_unquoted] at hresume' hstep
      rw [hspan] at ih
      refine hstep.trans ((ih h.next hresume').trans ?_)
      rw [byteLength_cons, Nat.add_assoc]

/-! ## Literals -/

/-- A text that is a body as a whole. -/
abbrev whole (text : String) : Scanner := ⟨text, 0, text.utf8ByteSize⟩

theorem stands_whole (text : List Char) : Stands (whole (String.ofList text)) 0 text :=
  ⟨[], [], by simp, rfl, by simp, by simp⟩

section Literals

variable {token : String}

theorem Stands.bodyUpTo?_other (h : Stands (whole token) i (c :: rest)) (hc : c ≠ '\'') :
    bodyUpTo? token i = bodyUpTo? token (i + c.utf8Size) := by
  by_cases hascii : c.toNat < 128
  · obtain ⟨byte, hbyte, hbegins⟩ := h.byte
    have hother : byte ≠ '\''.toUInt8 := mt (hbegins.eq_iff (by decide)).mp hc
    rw [utf8Size_of_ascii hascii, bodyUpTo?, if_pos h.lt_stop, show byte? token i = _ from hbyte]
    exact if_neg hother
  · refine goes_on fun k hk => ?_
    obtain ⟨byte, hbyte, hwide⟩ := h.wide_byte (Nat.le_of_not_lt hascii) hk
    have hi : i + k < token.utf8ByteSize := by
      rw [show token.utf8ByteSize = _ from h.stop_eq, byteLength_cons]
      omega
    rw [bodyUpTo?, if_pos hi, show byte? token (i + k) = _ from hbyte]
    exact if_neg (ne_of_wide hwide (by decide))

theorem Stands.bodyUpTo?_pair (h : Stands (whole token) i ('\'' :: '\'' :: rest)) :
    bodyUpTo? token i = bodyUpTo? token (i + 2) := by
  have hbyte := h.byte?_eq_quote_iff.mpr rfl
  have hnext := (h.next_ascii (by decide)).byte?_eq_quote_iff.mpr rfl
  rw [bodyUpTo?, if_pos h.lt_stop, show byte? token i = _ from hbyte]
  exact if_pos hnext

/-- A quote that stands alone ends the text, or the text is no literal. -/
theorem Stands.bodyUpTo?_alone (h : Stands (whole token) i ('\'' :: rest)) (halone : rest.head? ≠ some '\'') :
    bodyUpTo? token i = if rest = [] then do return some (← slice? token 1 i) else return none := by
  have hnext := h.next_ascii (by decide)
  have hbyte := h.byte?_eq_quote_iff.mpr rfl
  have hother : byte? token (i + 1) ≠ some '\''.toUInt8 := mt hnext.byte?_eq_quote_iff.mp halone
  have hsize : token.utf8ByteSize = i + 1 + byteLength rest := hnext.stop_eq
  have hlast : minus? token.utf8ByteSize 1 = some (i + byteLength rest) := by
    rw [minus?_of_le (by omega), hsize]
    congr 1
    omega
  have hend : i = i + byteLength rest ↔ rest = [] := by
    rw [← byteLength_eq_zero_iff]
    omega
  rw [bodyUpTo?, if_pos h.lt_stop, show byte? token i = _ from hbyte]
  simp only [Option.bind_eq_bind, Option.bind_some, if_pos, if_neg hother, hlast, hend]

/-- The body of a literal is cut out between its quotes. -/
theorem Stands.bodyUpTo?_eq (before : List Char) (h : Stands (whole token) 1 (before ++ rest)) :
    bodyUpTo? token (1 + byteLength before) =
      some ((ValueToken.bodyBeforeQuote? rest).map fun body => String.ofList (before ++ body)) := by
  have hplace : Stands (whole token) (1 + byteLength before) rest := h.advance
  fun_induction ValueToken.bodyBeforeQuote? rest generalizing before with
  | case1 =>
      rw [bodyUpTo?, if_neg hplace.eq_stop.not_lt]
      rfl
  | case2 =>
      have hbody : slice? token 1 (1 + byteLength before) = some (String.ofList before) := h.slice?_eq
      rw [hplace.bodyUpTo?_alone (by simp), if_pos rfl, hbody]
      simp
  | case3 rest ih =>
      have hread : Stands (whole token) 1 ((before ++ ['\'', '\'']) ++ rest) := by simpa using h
      have hlength : 1 + byteLength (before ++ ['\'', '\'']) = 1 + byteLength before + 2 := by
        rw [byteLength_append, ← Nat.add_assoc]
        rfl
      rw [hplace.bodyUpTo?_pair, ← hlength, ih _ hread hread.advance, Option.map_map]
      simp [Function.comp_def]
  | case4 rest hend hpair =>
      have halone : rest.head? ≠ some '\'' := fun hhead => by
        obtain ⟨more, rfl⟩ := List.head?_eq_some_iff.mp hhead
        exact hpair more rfl rfl
      rw [hplace.bodyUpTo?_alone halone, if_neg (hend rfl)]
      rfl
  | case5 c rest _ _ hc ih =>
      have hread : Stands (whole token) 1 ((before ++ [c]) ++ rest) := by simpa using h
      have hlength : 1 + byteLength (before ++ [c]) = 1 + byteLength before + c.utf8Size := by
        simp [Nat.add_assoc]
      rw [hplace.bodyUpTo?_other hc, ← hlength, ih _ hread hread.advance, Option.map_map]
      simp [Function.comp_def]

theorem literalBody?_eq (token : List Char) :
    literalBody? (String.ofList token) = some ((ValueToken.literalBody? token).map String.ofList) := by
  have h := stands_whole token
  unfold literalBody?
  fun_cases ValueToken.literalBody? token with
  | case1 rest =>
      have hbody := Stands.bodyUpTo?_eq [] (h.next_ascii (by decide))
      rw [if_pos (h.byte?_eq_quote_iff.mpr rfl)]
      exact hbody
  | case2 token hother =>
      have hhead : token.head? ≠ some '\'' := fun hhead => by
        obtain ⟨rest, rfl⟩ := List.head?_eq_some_iff.mp hhead
        exact hother rest rfl
      rw [if_neg (mt h.byte?_eq_quote_iff.mp hhead)]
      rfl

theorem classify_eq (token : List Char) :
    classify (String.ofList token) = some (ValueToken.classify token) := by
  unfold classify ValueToken.classify
  split_ifs
  · rfl
  · rfl
  · rw [literalBody?_eq]
    cases ValueToken.literalBody? token <;> rfl

end Literals

/-! ## Values -/

theorem At.value {origin : Scanner} {input : Input} (h : At origin scanner input) (context : ValueContext) :
    Reads origin (scanner.value context) (input.value context) := by
  obtain ⟨written, rest, ⟨depth, quoted⟩, hspan⟩ :
      ∃ written rest nesting, spanValue context .outside input.rest = (written, rest, nesting) := ⟨_, _, _, rfl⟩
  have hsplit := Statement.spanValue_append context .outside input.rest
  have hend : scanner.valueEnd context .normal .normal scanner.pos = _ :=
    h.stands.valueEnd_eq .outside fun hquoted => nomatch hquoted
  rw [hspan] at hsplit hend
  have hat := h.advance hsplit.symm
  have hplace := h.stands
  rw [← hsplit] at hplace
  have htrim : Text.trimString (String.ofList written) = String.ofList (Text.trim written) := by
    rw [Text.trimString, String.toList_ofList]
  unfold Scanner.value Input.value
  simp only [hspan, hend, lift_some_bind]
  cases quoted with
  | true => exact hat.agrees_error _
  | false =>
      cases depth with
      | succ depth => exact hat.agrees_error _
      | zero =>
          simp only [State.ofNesting, State.ofDepth, Bool.false_eq_true, if_false, Nat.lt_irrefl,
            hplace.slice?_eq, lift_some_bind, htrim, List.isEmpty_iff, String.ofList_eq_empty_iff, classify_eq]
          split_ifs with hempty
          · exact hat.agrees_error _
          · exact .ok ⟨rfl, hat⟩

end Scanner

end ChangeCapture.Bytes
