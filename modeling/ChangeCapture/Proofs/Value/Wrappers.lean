import ChangeCapture.Proofs.Value.Escapes
import ChangeCapture.Proofs.Value.Parentheses

/-! # What a call leaves out

A call is known by its two ends. Its first argument is its value, whatever stands between that argument
and the last parenthesis. -/

namespace ChangeCapture

namespace Expression

open DefaultExpression (closesAtEnd closesAtEnd_plain closesAtEnd_escape closesAtEnd_iff_balanced)

/-- A literal at the front is balanced, so that all depends on what stands behind it. -/
theorem Opens.balanced_iff {inner argument tail : List Char} (h : Opens inner argument tail) :
    Balanced inner ↔ Balanced tail := by
  obtain ⟨blanks, hblanks, _, rfl⟩ := h
  rw [← closesAtEnd_iff_balanced, ← closesAtEnd_iff_balanced]
  have hfront : closesAtEnd 1 false (blanks ++ '\'' :: (Literal.escape argument ++ '\'' :: (tail ++ [')']))) =
      closesAtEnd 1 false (tail ++ [')']) := by
    induction blanks with
    | nil => exact closesAtEnd_escape argument _
    | cons b blanks ih =>
        have hne (c : Char) (hc : Text.isBlank c = false) : b ≠ c :=
          Text.ne_of_isBlank (hblanks b List.mem_cons_self) hc
        rw [List.cons_append,
          closesAtEnd_plain false (hne _ (by decide)) (hne _ (by decide)) (hne _ (by decide))]
        exact ih fun c hc => hblanks c (List.mem_cons_of_mem b hc)
  simp only [List.append_assoc, List.cons_append]
  exact iff_of_eq (congrArg (· = true) hfront)

/-- No call stands for its own text, which is longer than all that its argument can hold. -/
theorem Wrapper.decode_ne_text {wrapper : Wrapper} {expr inner argument tail : List Char}
    (hcall : IsCall wrapper.name expr inner) (hopens : Opens inner argument tail) :
    wrapper.decode argument expr ≠ .ok (.text expr) := by
  obtain ⟨word, _, hexpr⟩ := hcall
  obtain ⟨blanks, _, _, hinner⟩ := hopens
  have hlength : argument.length < expr.length := by
    have hescape := Literal.length_le_escape argument
    rw [hexpr, hinner]
    simp only [List.length_append, List.length_cons]
    omega
  intro h
  have hle : expr.length ≤ argument.length := by
    cases wrapper with
    | date | timestamp | zonedTimestamp =>
        cases h
        exact Nat.le_refl _
    | escapedText =>
        dsimp only [Wrapper.decode] at h
        split at h
        · cases h
          exact length_decodeEscaped?_le ‹_›
        · cases h
    | raw =>
        dsimp only [Wrapper.decode] at h
        split at h <;> cases h
  omega

end Expression

/-! ## Values -/

namespace Value

open Expression
open DefaultExpression (closesAtEnd closesAtEnd_iff_balanced)

/-- The column gives the expression a value that it does not give to its text. -/
def Unwraps (column : Column) (source : String) : Prop :=
  ∃ value, normalize column (some (.expression source)) = .ok value ∧
    normalize column (some (.text source)) ≠ .ok value

variable {wrapper : Wrapper} {source : String} {inner : List Char}

theorem content_of_unwraps {column : Column} (h : Unwraps column source) :
    ∃ value, content source.toList = .ok value := by
  obtain ⟨value, hvalue, _⟩ := h
  cases hcontent : content source.toList with
  | ok value => exact ⟨value, rfl⟩
  | error failure =>
      simp only [normalize, hcontent, bind, Except.bind] at hvalue
      cases hvalue

/-- A call is no truth value. -/
theorem booleanOfText?_of_call (hcall : IsCall wrapper.name source.toList inner) :
    booleanOfText? source.toList = none := by
  have hlast : (Text.lowerAscii (Text.trim source.toList)).getLast? = some ')' := by
    rw [Wrapper.trim_eq hcall]
    obtain ⟨word, _, hsource⟩ := hcall
    rw [hsource, Text.lowerAscii, List.getLast?_map, ← List.cons_append, ← List.append_assoc,
      List.getLast?_concat]
    rfl
  have hne (word : String) (hword : word.toList.getLast? ≠ some ')') :
      String.ofList (Text.lowerAscii (Text.trim source.toList)) ≠ word := by
    rintro rfl
    exact hword (by rwa [String.toList_ofList])
  simp only [booleanOfText?, hne "1" (by decide), hne "true" (by decide), hne "0" (by decide),
    hne "false" (by decide), or_self, if_false]

/-- A column of texts tells a text from the call, and a column of truth values takes bytes alone. -/
theorem exists_unwraps {argument tail : List Char} {value : Content}
    (hcall : IsCall wrapper.name source.toList inner) (hopens : Opens inner argument tail)
    (hvalue : wrapper.decode argument source.toList = .ok value) :
    ∃ column, Unwraps column source := by
  have hcontent := (Wrapper.content_eq_ok hcall).mpr ⟨argument, tail, hopens, hvalue⟩
  cases value with
  | text text =>
      have hkind : ColumnKind.ofTypeName "varchar" = .text := by decide
      refine ⟨⟨"C", 1, "varchar", true, none⟩, .string (String.ofList text), ?_, fun hsame => ?_⟩
      · simp only [normalize, hkind, hcontent, bind, Except.bind, ofText, ofChars]
      · simp only [normalize, hkind, ofText, ofChars, Except.ok.injEq, Json.string.injEq,
          String.ofList_inj] at hsame
        exact Wrapper.decode_ne_text hcall hopens (hsame ▸ hvalue)
  | bytes bytes =>
      have hkind : ColumnKind.ofTypeName "bit" = .boolean := by decide
      refine ⟨⟨"C", 1, "bit", true, none⟩, ofBytes .boolean bytes, ?_, ?_⟩
      · simp only [normalize, hkind, hcontent, bind, Except.bind]
        rfl
      · simp only [normalize, hkind, ofText, booleanOfText?_of_call hcall, Column.valueOf]
        exact fun h => by cases h
  | null => exact absurd hvalue Wrapper.decode_ne_null

/-! ## Calls -/

/-- A call has the value of its first argument, whatever comes behind that. Hence all that is unwrapped is
closed at its end exactly if what comes behind a readable argument is balanced, and of two joined texts the
first alone is left. -/
theorem unwraps_closed_iff (hcall : IsCall wrapper.name source.toList inner) :
    ((∀ column, Unwraps column source → closesAtEnd 0 false ('(' :: (inner ++ [')'])) = true) ↔
      ∀ argument tail value, Opens inner argument tail →
        wrapper.decode argument source.toList = .ok value → Balanced tail) ∧
      ∀ first second front back : String, WritesText first.toList front.toList →
        WritesText second.toList back.toList →
          source = "UNISTR('" ++ front ++ "') || UNISTR('" ++ back ++ "')" →
            ∀ column : Column, ColumnKind.ofTypeName column.typeName = .text →
              normalize column (some (.expression source)) = .ok (.string first) := by
  refine ⟨⟨?_, ?_⟩, ?_⟩
  · intro hclosed argument tail value hopens hvalue
    obtain ⟨column, hcolumn⟩ := exists_unwraps hcall hopens hvalue
    exact hopens.balanced_iff.mp (closesAtEnd_iff_balanced.mp (hclosed column hcolumn))
  · intro hbalanced column hcolumn
    obtain ⟨value, hcontent⟩ := content_of_unwraps hcolumn
    obtain ⟨argument, tail, hopens, hvalue⟩ := (Wrapper.content_eq_ok hcall).mp hcontent
    have htail := hbalanced argument tail value hopens hvalue
    exact closesAtEnd_iff_balanced.mpr (hopens.balanced_iff.mpr htail)
  · intro first second front back hfront _ hsource column hkind
    have hjoined : IsCall Wrapper.escapedText.name source.toList
        ('\'' :: (front.toList ++ '\'' :: (") || UNISTR('" ++ back ++ "'").toList)) :=
      ⟨"UNISTR".toList, by decide, by simp [hsource]⟩
    have hcontent := hfront.content_eq (by simp) hjoined
    simp only [normalize, hkind, hcontent, bind, Except.bind, ofText, ofChars, String.ofList_toList]

/-- A date with its format is closed at its end, and two joined texts are not. -/
theorem unwraps_closed_iff_of_sample :
    (∀ column, Unwraps column "to_date('2024-01-02', 'YYYY-MM-DD')" →
      closesAtEnd 0 false "('2024-01-02', 'YYYY-MM-DD')".toList = true) ∧
      normalize ⟨"NAME", 1, "NVARCHAR2(20)", true, none⟩
        (some (.expression "UNISTR('a') || UNISTR('b')")) = .ok (.string "a") := by
  have hdate : IsCall Wrapper.date.name "to_date('2024-01-02', 'YYYY-MM-DD')".toList
      "'2024-01-02', 'YYYY-MM-DD'".toList := ⟨"to_date".toList, by decide, by decide⟩
  have hjoined : IsCall Wrapper.escapedText.name "UNISTR('a') || UNISTR('b')".toList
      "'a') || UNISTR('b'".toList := ⟨"UNISTR".toList, by decide, by decide⟩
  have hformat : Balanced ", 'YYYY-MM-DD'".toList :=
    .char (by decide) (by decide) (by decide) (.char (by decide) (by decide) (by decide)
      (@Balanced.quoted "YYYY-MM-DD".toList [] (by decide) .nil))
  have hinner : Balanced "'2024-01-02', 'YYYY-MM-DD'".toList :=
    @Balanced.quoted "2024-01-02".toList _ (by decide) hformat
  have hplain {c : Char} (hquote : c ≠ '\'') (hbackslash : c ≠ '\\') : WritesText [c] [c] :=
    .cons (.plain hquote hbackslash) .nil
  constructor
  · refine (unwraps_closed_iff hdate).1.mpr fun argument tail value hopens _ => ?_
    exact hopens.balanced_iff.mp hinner
  · exact (unwraps_closed_iff hjoined).2 "a" "b" "a" "b" (hplain (by decide) (by decide))
      (hplain (by decide) (by decide)) (by decide) ⟨"NAME", 1, "NVARCHAR2(20)", true, none⟩ (by decide)

/-- The second of two joined texts is lost, though the first parenthesis is closed long before the end. -/
theorem second_text_lost :
    IsCall Wrapper.escapedText.name "UNISTR('a') || UNISTR('b')".toList "'a') || UNISTR('b'".toList ∧
      closesAtEnd 0 false "('a') || UNISTR('b')".toList = false ∧
      normalize ⟨"NAME", 1, "NVARCHAR2(20)", true, none⟩
        (some (.expression "UNISTR('a') || UNISTR('b')")) = .ok (.string "a") ∧
      Unwraps ⟨"NAME", 1, "NVARCHAR2(20)", true, none⟩ "UNISTR('a') || UNISTR('b')" := by
  have hcall : IsCall Wrapper.escapedText.name "UNISTR('a') || UNISTR('b')".toList
      "'a') || UNISTR('b'".toList := ⟨"UNISTR".toList, by decide, by decide⟩
  have hkind : ColumnKind.ofTypeName "NVARCHAR2(20)" = .text := by decide
  have hcontent : content "UNISTR('a') || UNISTR('b')".toList = .ok (.text ['a']) := rfl
  have hvalue : normalize ⟨"NAME", 1, "NVARCHAR2(20)", true, none⟩
      (some (.expression "UNISTR('a') || UNISTR('b')")) = .ok (.string "a") := by
    simp only [normalize, hkind, hcontent]
    rfl
  refine ⟨hcall, by decide, hvalue, _, hvalue, fun hsame => ?_⟩
  simp only [normalize, hkind, ofText, ofChars, Except.ok.injEq, Json.string.injEq] at hsame
  revert hsame
  decide

end Value

end ChangeCapture
