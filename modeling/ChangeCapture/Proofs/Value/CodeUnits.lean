import ChangeCapture.Proofs.Value.Escapes

/-! # Which escapes are decoded

A text is decoded if each backslash in it begins an escape and its code units pair up. The four
characters of a code unit are read as a number with an optional sign, and so a plus sign may replace the
zero at its front. -/

namespace ChangeCapture.Expression

open Text

/-! ## Escapes -/

/-- The characters that are read as a code unit: four digits, of which a plus sign may replace a zero at
the front. -/
inductive ReadsUnit : Nat → List Char → Prop where
  | digits {unit : Nat} {written : List Char} (h : WritesUnit unit written) : ReadsUnit unit written
  | signed {unit : Nat} {rest : List Char} (h : WritesUnit unit ('0' :: rest)) :
      ReadsUnit unit ('+' :: rest)

/-- Each backslash, from left to right, has a second one behind it or a code unit in the form. All other
characters stand for their own code units. -/
inductive Escaped (Form : Nat → List Char → Prop) : List Char → List Nat → Prop where
  | nil : Escaped Form [] []
  | plain {c : Char} {rest : List Char} {units : List Nat} (hc : c ≠ '\\')
      (hrest : Escaped Form rest units) : Escaped Form (c :: rest) (Utf16.encodeChar c ++ units)
  | backslash {rest : List Char} {units : List Nat} (hrest : Escaped Form rest units) :
      Escaped Form ('\\' :: '\\' :: rest) ('\\'.toNat :: units)
  | unit {unit : Nat} {written rest : List Char} {units : List Nat} (hunit : Form unit written)
      (hrest : Escaped Form rest units) : Escaped Form ('\\' :: (written ++ rest)) (unit :: units)

/-- An escape has a plus sign. -/
def HasSignedUnit (source : List Char) : Prop :=
  ∃ before units rest, Escaped ReadsUnit before units ∧ source = before ++ '\\' :: '+' :: rest

/-! ## Code units -/

section Units

variable {unit : Nat} {written : List Char} {a b c d : Char}

/-- Four characters that are read as a number are its digits. -/
theorem writesUnit_of_readNumber? (h : Hex.readNumber? [a, b, c, d] = some unit) :
    WritesUnit unit [a, b, c, d] := by
  simp only [Hex.readNumber?, List.mapM_cons, List.mapM_nil, Option.map_eq_some_iff, bind, pure,
    Option.bind_eq_some_iff, Option.some.injEq] at h
  obtain ⟨_, ⟨first, ha, _, ⟨second, hb, _, ⟨third, hc, _, ⟨fourth, hd, _, rfl, rfl⟩, rfl⟩, rfl⟩,
    rfl⟩, rfl⟩ := h
  have ha := Hex.isDigitOf_of_charValue? ha
  have hb := Hex.isDigitOf_of_charValue? hb
  have hc := Hex.isDigitOf_of_charValue? hc
  have hd := Hex.isDigitOf_of_charValue? hd
  simp only [List.foldl_cons, List.foldl_nil]
  generalize hsum : 16 * (16 * (16 * (16 * 0 + first) + second) + third) + fourth = unit
  have hvalues : first = unit / 4096 ∧ second = unit / 256 % 16 ∧ third = unit / 16 % 16 ∧
      fourth = unit % 16 := by
    have hsecond := hb.1
    have hthird := hc.1
    have hfourth := hd.1
    omega
  obtain ⟨rfl, rfl, rfl, rfl⟩ := hvalues
  exact .digits ha hb hc hd

theorem readNumber?_zero (digits : List Char) : Hex.readNumber? ('0' :: digits) = Hex.readNumber? digits := by
  have hzero : Hex.charValue? '0' = some 0 := by decide
  simp only [Hex.readNumber?, List.mapM_cons, hzero, bind, Option.bind_some]
  cases digits.mapM Hex.charValue? <;> rfl

theorem readUnit?_plus (digits : List Char) : readUnit? ('+' :: digits) = readUnit? ('0' :: digits) := by
  rw [readUnit?, readUnit?, readNumber?_zero]
  simp

theorem ReadsUnit.readUnit? (h : ReadsUnit unit written) : readUnit? written = some unit := by
  cases h with
  | digits h => exact h.readUnit?
  | signed h => rw [readUnit?_plus, h.readUnit?]

theorem readsUnit_of_readUnit? (h : readUnit? [a, b, c, d] = some unit) : ReadsUnit unit [a, b, c, d] := by
  by_cases ha : a = '+'
  · subst ha
    rw [readUnit?, ← readNumber?_zero] at h
    exact .signed (writesUnit_of_readNumber? h)
  · rw [readUnit?] at h
    · exact .digits (writesUnit_of_readNumber? h)
    · simpa using ha

theorem WritesUnit.lt (h : WritesUnit unit written) : unit < 0x10000 := by
  obtain ⟨ha, -, -, -⟩ := h
  have hfirst := ha.1
  omega

theorem ReadsUnit.lt (h : ReadsUnit unit written) : unit < 0x10000 := by
  cases h with
  | digits h | signed h => exact h.lt

/-- A code unit has four characters, and the first of them is no backslash. -/
theorem ReadsUnit.exists_eq (h : ReadsUnit unit written) :
    ∃ a b c d, written = [a, b, c, d] ∧ a ≠ '\\' := by
  cases h with
  | digits h =>
      obtain ⟨ha, -, -, -⟩ := h
      exact ⟨_, _, _, _, rfl, ha.ne (by decide)⟩
  | signed h =>
      cases h
      exact ⟨_, _, _, _, rfl, by decide⟩

end Units

/-! ## Texts -/

namespace Escaped

variable {Form : Nat → List Char → Prop} {source tail rest : List Char} {units : List Nat}

theorem mono {Form' : Nat → List Char → Prop} (hform : ∀ unit written, Form unit written → Form' unit written)
    (h : Escaped Form source units) : Escaped Form' source units := by
  induction h with
  | nil => exact .nil
  | plain hc _ ih => exact .plain hc ih
  | backslash _ ih => exact .backslash ih
  | unit hunit _ ih => exact .unit (hform _ _ hunit) ih

theorem append {others : List Nat} (h : Escaped Form source units) (hrest : Escaped Form rest others) :
    Escaped Form (source ++ rest) (units ++ others) := by
  induction h with
  | nil => exact hrest
  | plain hc _ ih =>
      rw [List.cons_append, List.append_assoc]
      exact .plain hc ih
  | backslash _ ih => exact .backslash ih
  | unit hunit _ ih =>
      rw [List.cons_append, List.append_assoc]
      exact .unit hunit ih

theorem exists_of_cons {c : Char} (hc : c ≠ '\\') (h : Escaped Form (c :: tail) units) :
    ∃ units, Escaped Form tail units := by
  cases h with
  | plain _ hrest => exact ⟨_, hrest⟩
  | backslash => exact absurd rfl hc
  | unit => exact absurd rfl hc

/-- Behind a backslash there is a second one or a code unit. -/
theorem exists_of_backslash (h : Escaped Form ('\\' :: tail) units) :
    (∃ rest units, tail = '\\' :: rest ∧ Escaped Form rest units) ∨
      ∃ unit written rest units, Form unit written ∧ tail = written ++ rest ∧ Escaped Form rest units := by
  generalize hsource : '\\' :: tail = source at h
  cases h with
  | nil => cases hsource
  | plain hc _ =>
      cases hsource
      exact absurd rfl hc
  | backslash hrest =>
      cases hsource
      exact .inl ⟨_, _, rfl, hrest⟩
  | unit hunit hrest =>
      cases hsource
      exact .inr ⟨_, _, _, _, hunit, rfl, hrest⟩

/-- Escapes are read alike whatever comes behind them. -/
theorem exists_of_append (hform : ∀ unit written, Form unit written → ReadsUnit unit written)
    (hsource : Escaped ReadsUnit source units) {others : List Nat} (h : Escaped Form (source ++ tail) others) :
    ∃ units, Escaped Form tail units := by
  induction hsource generalizing others with
  | nil => exact ⟨_, h⟩
  | plain hc _ ih =>
      obtain ⟨_, hrest⟩ := exists_of_cons hc h
      exact ih hrest
  -- no code unit begins with a backslash, so that a text has one first escape
  | backslash _ ih =>
      rcases exists_of_backslash h with ⟨_, _, heq, hrest⟩ | ⟨_, written, _, _, hunit, heq, _⟩
      · cases heq
        exact ih hrest
      · obtain ⟨a, b, c, d, rfl, ha⟩ := (hform _ _ hunit).exists_eq
        exact absurd (List.cons.inj heq).1.symm ha
  | unit hunit _ ih =>
      obtain ⟨a, b, c, d, rfl, ha⟩ := hunit.exists_eq
      rcases exists_of_backslash h with ⟨_, _, heq, _⟩ | ⟨_, written, _, _, hunit, heq, hrest⟩
      · exact absurd (List.cons.inj heq).1 ha
      · obtain ⟨_, _, _, _, rfl, _⟩ := (hform _ _ hunit).exists_eq
        cases heq
        exact ih hrest

/-- Code units have two bytes. -/
theorem lt (h : Escaped ReadsUnit source units) : ∀ unit ∈ units, unit < 0x10000 := by
  induction h with
  | nil => simp
  | plain _ _ ih => exact List.forall_mem_append.mpr ⟨Utf16.lt_of_mem_encodeChar, ih⟩
  | backslash _ ih => exact List.forall_mem_cons.mpr ⟨by decide, ih⟩
  | unit hunit _ ih => exact List.forall_mem_cons.mpr ⟨hunit.lt, ih⟩

theorem escapedUnits? (h : Escaped ReadsUnit source units) : escapedUnits? source = some units := by
  induction h with
  | nil => rfl
  | plain hc _ ih => rw [escapedUnits?_plain hc, ih, Option.map_some]
  | backslash _ ih => rw [Expression.escapedUnits?, ih, Option.map_some]
  | unit hunit _ ih =>
      have hread := hunit.readUnit?
      obtain ⟨a, b, c, d, rfl, ha⟩ := hunit.exists_eq
      simp only [List.cons_append, List.nil_append]
      rw [Expression.escapedUnits?, hread, ih]
      · rfl
      · exact fun heq => ha heq

end Escaped

theorem escaped_of_escapedUnits? {source : List Char} {units : List Nat}
    (h : escapedUnits? source = some units) : Escaped ReadsUnit source units := by
  fun_induction escapedUnits? source generalizing units with
  | case1 =>
      cases h
      exact .nil
  | case2 rest ih =>
      obtain ⟨units, hunits, rfl⟩ := Option.map_eq_some_iff.mp h
      exact .backslash (ih hunits)
  | case3 a b c d rest _ ih =>
      obtain ⟨unit, hunit, h⟩ := Option.bind_eq_some_iff.mp h
      obtain ⟨units, hunits, h⟩ := Option.bind_eq_some_iff.mp h
      cases h
      exact .unit (readsUnit_of_readUnit? hunit) (ih hunits)
  | case4 => cases h
  | case5 c rest _ _ hc ih =>
      obtain ⟨units, hunits, rfl⟩ := Option.map_eq_some_iff.mp h
      exact .plain hc (ih hunits)

/-! ## Plus signs -/

theorem ReadsUnit.writesUnit_or {unit : Nat} {written : List Char} (h : ReadsUnit unit written) :
    WritesUnit unit written ∨ ∃ rest, written = '+' :: rest := by
  cases h with
  | digits h => exact .inl h
  | signed h => exact .inr ⟨_, rfl⟩

theorem WritesUnit.ne_plus {unit : Nat} {written rest : List Char} (h : WritesUnit unit written) :
    written ≠ '+' :: rest := by
  intro heq
  obtain ⟨ha, -, -, -⟩ := h
  exact ha.ne (by decide) (List.cons.inj heq).1

theorem HasSignedUnit.append {before source : List Char} {units : List Nat}
    (hbefore : Escaped ReadsUnit before units) (h : HasSignedUnit source) :
    HasSignedUnit (before ++ source) := by
  obtain ⟨front, others, rest, hfront, rfl⟩ := h
  exact ⟨before ++ front, units ++ others, rest, hbefore.append hfront, by rw [List.append_assoc]⟩

/-- Without plus signs all code units have four digits. -/
theorem escaped_writesUnit_iff {source : List Char} {units : List Nat} :
    Escaped WritesUnit source units ↔ Escaped ReadsUnit source units ∧ ¬ HasSignedUnit source := by
  constructor
  · intro h
    refine ⟨h.mono fun _ _ => .digits, ?_⟩
    rintro ⟨before, others, rest, hbefore, rfl⟩
    obtain ⟨_, hsigned⟩ := hbefore.exists_of_append (fun _ _ => .digits) h
    rcases hsigned.exists_of_backslash with ⟨_, _, heq, _⟩ | ⟨_, _, _, _, hunit, heq, _⟩
    · cases heq
    · obtain ⟨a, b, c, d, rfl, _⟩ := (ReadsUnit.digits hunit).exists_eq
      cases heq
      exact hunit.ne_plus rfl
  · rintro ⟨h, hsigned⟩
    induction h with
    | nil => exact .nil
    | plain hc _ ih =>
        apply Escaped.plain hc
        apply ih
        intro hrest
        exact hsigned (hrest.append (.plain hc .nil))
    | backslash _ ih =>
        apply Escaped.backslash
        apply ih
        intro hrest
        exact hsigned (hrest.append (.backslash .nil))
    | unit hunit hrest ih =>
        rcases hunit.writesUnit_or with hdigits | ⟨rest, rfl⟩
        · apply Escaped.unit hdigits
          apply ih
          intro hrest
          have hwritten := Escaped.unit hunit .nil
          rw [List.append_nil] at hwritten
          exact hsigned (hrest.append hwritten)
        · exact absurd ⟨[], [], _, .nil, rfl⟩ hsigned

/-! ## Decoding -/

theorem decodeEscaped?_eq_some {source text : List Char} :
    decodeEscaped? source = some text ↔ Escaped ReadsUnit source (Utf16.encode text) := by
  rw [decodeEscaped?, Option.bind_eq_some_iff]
  constructor
  · rintro ⟨units, hunits, htext⟩
    have hsource := escaped_of_escapedUnits? hunits
    rwa [Utf16.encode_of_decode? hsource.lt htext]
  · intro h
    exact ⟨_, h.escapedUnits?, Utf16.decode?_encode text⟩

theorem isSome_decodeEscaped?_iff {source : List Char} : (decodeEscaped? source).isSome ↔
    ∃ units, Escaped ReadsUnit source units ∧ Utf16.Paired units := by
  constructor
  · intro h
    obtain ⟨text, htext⟩ := Option.isSome_iff_exists.mp h
    refine ⟨_, decodeEscaped?_eq_some.mp htext, Utf16.isSome_decode?_iff.mp ?_⟩
    simp [Utf16.decode?_encode]
  · rintro ⟨units, hsource, hpaired⟩
    rw [decodeEscaped?, hsource.escapedUnits?, Option.bind_some]
    exact Utf16.isSome_decode?_iff.mpr hpaired

/-- A text is decoded exactly if each backslash in it begins an escape and all halves of characters pair up;
its code units are then those that its escapes and its other characters stand for. A call with any other
text fails. If all code units are to have four digits, the texts with a plus sign in an escape are to fail
as well. -/
theorem decodes_iff_escaped (source : List Char) :
    (∀ text, decodeEscaped? source = some text ↔ Escaped ReadsUnit source (Utf16.encode text)) ∧
      ((decodeEscaped? source).isSome ↔
        ∃ units, Escaped ReadsUnit source units ∧ Utf16.Paired units) ∧
      ((∃ units, Escaped WritesUnit source units ∧ Utf16.Paired units) ↔
        (decodeEscaped? source).isSome ∧ ¬ HasSignedUnit source) ∧
      ∀ expr inner tail, IsCall Wrapper.escapedText.name expr inner → Opens inner source tail →
        (∀ text, decodeEscaped? source = some text → content expr = .ok (.text text)) ∧
          (decodeEscaped? source = none → content expr = .error (invalidEscape expr)) := by
  refine ⟨fun text => decodeEscaped?_eq_some, isSome_decodeEscaped?_iff, ?_, ?_⟩
  · simp only [isSome_decodeEscaped?_iff, escaped_writesUnit_iff]
    constructor
    · rintro ⟨units, ⟨hsource, hsigned⟩, hpaired⟩
      exact ⟨⟨units, hsource, hpaired⟩, hsigned⟩
    · rintro ⟨⟨units, hsource, hpaired⟩, hsigned⟩
      exact ⟨units, ⟨hsource, hsigned⟩, hpaired⟩
  · intro expr inner tail hcall hopens
    have hcontent : content expr = Wrapper.escapedText.decode source expr := by
      rw [Wrapper.content_eq hcall, firstLiteral_eq_ok.mpr ⟨tail, hopens⟩]
      rfl
    constructor
    · intro text htext
      rw [hcontent, Wrapper.decode, htext]
    · intro hnone
      rw [hcontent, Wrapper.decode, hnone]

/-- A pair of halves is decoded, and a first half alone is not. -/
theorem decodes_iff_escaped_of_sample :
    decodeEscaped? "a\\\\\\D83D\\de00".toList = some "a\\😀".toList ∧
      content "UNISTR('a\\D83Db')".toList = .error (invalidEscape "UNISTR('a\\D83Db')".toList) := by
  have hhigh : WritesUnit 0xD83D "D83D".toList :=
    .digits (by decide) (by decide) (by decide) (by decide)
  have hlow : WritesUnit 0xDE00 "de00".toList :=
    .digits (by decide) (by decide) (by decide) (by decide)
  have hpair : Escaped ReadsUnit "a\\\\\\D83D\\de00".toList (Utf16.encode "a\\😀".toList) :=
    .plain (by decide) (.backslash (.unit (ReadsUnit.digits hhigh) (.unit (ReadsUnit.digits hlow) .nil)))
  have hcall : IsCall Wrapper.escapedText.name "UNISTR('a\\D83Db')".toList "'a\\D83Db'".toList :=
    ⟨"UNISTR".toList, by decide, by decide⟩
  have hopens : Opens "'a\\D83Db'".toList "a\\D83Db".toList [] :=
    opens_escape "a\\D83Db".toList (by simp)
  exact ⟨((decodes_iff_escaped _).1 _).mpr hpair,
    ((decodes_iff_escaped _).2.2.2 _ _ _ hcall hopens).2 (by decide)⟩

/-- A plus sign and three digits are decoded like four digits. -/
theorem signed_unit_decoded :
    (¬ ∃ units, Escaped WritesUnit "\\+041".toList units ∧ Utf16.Paired units) ∧
      decodeEscaped? "\\+041".toList = some ['A'] ∧
      Value.normalize ⟨"NAME", 1, "NVARCHAR2(20)", true, none⟩ (some (.expression "UNISTR('\\+041')")) =
        .ok (.string "A") := by
  have hkind : ColumnKind.ofTypeName "NVARCHAR2(20)" = .text := by decide
  have hcontent : content "UNISTR('\\+041')".toList = .ok (.text ['A']) := rfl
  have hsigned : HasSignedUnit "\\+041".toList := ⟨[], [], _, .nil, rfl⟩
  refine ⟨?_, by decide, ?_⟩
  · rintro ⟨units, hsource, _⟩
    exact (escaped_writesUnit_iff.mp hsource).2 hsigned
  · simp only [Value.normalize, hkind, hcontent]
    rfl

end ChangeCapture.Expression
