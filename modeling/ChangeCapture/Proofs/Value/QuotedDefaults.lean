import ChangeCapture.Proofs.Value.Defaults

/-! # Quoted defaults

Redo statements and defaults know a quoted literal in two ways. A redo statement has one if every quote
between the two ends is written twice. A default has one if it begins and ends with a quote, so that two
joined literals pass for one. -/

namespace ChangeCapture

namespace ValueToken

variable {text body : List Char}

theorem exists_of_bodyBeforeQuote? (h : bodyBeforeQuote? text = some body) :
    text = body ++ ['\''] ∧ ∃ content, body = Literal.escape content := by
  fun_induction bodyBeforeQuote? text generalizing body with
  | case1 => cases h
  | case2 =>
      cases h
      exact ⟨rfl, [], rfl⟩
  | case3 rest ih =>
      obtain ⟨front, hfront, rfl⟩ := Option.map_eq_some_iff.mp h
      obtain ⟨rfl, content, rfl⟩ := ih hfront
      exact ⟨rfl, '\'' :: content, rfl⟩
  | case4 => cases h
  | case5 c rest _ _ hc ih =>
      obtain ⟨front, hfront, rfl⟩ := Option.map_eq_some_iff.mp h
      obtain ⟨rfl, content, rfl⟩ := ih hfront
      exact ⟨rfl, c :: content, (Literal.escape_cons_of_ne hc content).symm⟩

/-- One quoted literal is read, with its quotes as they are written. -/
theorem literalBody?_eq_some : literalBody? text = some body ↔
    text = '\'' :: (body ++ ['\'']) ∧ ∃ content, body = Literal.escape content := by
  constructor
  · intro h
    unfold literalBody? at h
    split at h
    · obtain ⟨rfl, hcontent⟩ := exists_of_bodyBeforeQuote? h
      exact ⟨rfl, hcontent⟩
    · cases h
  · rintro ⟨rfl, content, rfl⟩
    exact bodyBeforeQuote_escape content

/-- Two joined literals are not one. -/
theorem literalBody?_joined (first last : List Char) {middle : List Char} (hne : middle ≠ [])
    (hmiddle : '\'' ∉ middle) :
    literalBody? (Literal.quote first ++ (middle ++ Literal.quote last)) = none := by
  refine Option.eq_none_iff_forall_ne_some.mpr fun body h => ?_
  obtain ⟨htext, content, rfl⟩ := literalBody?_eq_some.mp h
  have hhead : (middle ++ Literal.quote last).head? ≠ some '\'' := by
    cases middle with
    | nil => exact absurd rfl hne
    | cons c middle =>
        intro hhead
        exact hmiddle (by simpa using Or.inl (Option.some.inj hhead).symm)
  -- the first quote that stands alone ends the literal, and more stands behind it
  have hwhole := @Literal.readBody?_escape content [] (by simp)
  have hfirst := Literal.readBody?_escape first hhead
  have hsame : Literal.escape first ++ '\'' :: (middle ++ Literal.quote last) =
      Literal.escape content ++ ['\''] := by
    simpa [Literal.quote] using htext
  rw [← hsame, hfirst] at hwhole
  cases hwhole
  have hrest := List.append_cancel_left hsame
  simp [hne] at hrest

end ValueToken

namespace DefaultExpression

/-- What a default has in its parentheses, without the mark for national characters. -/
def unmarked (source : List Char) : List Char := dropNationalMark (stripParens (Text.trim source))

variable {source : List Char}

theorem rawValue?_eq_literal_iff {body : String} :
    rawValue? source = some (some (.literal body)) ↔ unmarked source = '\'' :: (body.toList ++ ['\'']) :=
  rawValue?_eq_literal.trans quotedBody?_eq_some

/-- What begins and ends with a quote is a literal of redo statements if its quotes are written twice. -/
theorem literalBody?_unmarked_iff {body : List Char} (h : unmarked source = '\'' :: (body ++ ['\''])) :
    ValueToken.literalBody? (unmarked source) = some body ↔ ∃ content, body = Literal.escape content := by
  rw [ValueToken.literalBody?_eq_some]
  exact and_iff_right h

end DefaultExpression

namespace Column

open DefaultExpression

/-- The text between the outer quotes of two joined literals. -/
theorem unescape_joined (first middle last : List Char) (hne : middle ≠ []) (hmiddle : '\'' ∉ middle) :
    Literal.unescape (Literal.escape first ++ '\'' :: (middle ++ '\'' :: Literal.escape last)) =
      first ++ '\'' :: (middle ++ '\'' :: last) := by
  have hquote : Literal.unescape ('\'' :: (middle ++ '\'' :: Literal.escape last)) =
      '\'' :: Literal.unescape (middle ++ '\'' :: Literal.escape last) := by
    cases middle with
    | nil => exact absurd rfl hne
    | cons c middle =>
        rw [List.cons_append, Literal.unescape]
        exact fun _ _ heq => hmiddle (by simp [(List.cons.inj heq).1])
  have hrest := Literal.unescape_escape_append middle ('\'' :: Literal.escape last)
  rw [Literal.escape_of_not_mem hmiddle, Literal.unescape_quote_escape] at hrest
  rw [Literal.unescape_escape_append, hquote, hrest]

/-- A default is a quoted literal exactly if it begins and ends with a quote. Each literal of redo statements
is one, with the same body. The two agree on a default exactly if all quotes between its ends are written
twice; so two joined literals are one literal for a default and none for a redo statement, and a column of
texts takes what stands between the outer quotes. -/
theorem quoted_by_ends (column : Column) (source : String) :
    (∀ body : String, rawValue? source.toList = some (some (.literal body)) ↔
      unmarked source.toList = '\'' :: (body.toList ++ ['\''])) ∧
      (∀ body : String, ValueToken.literalBody? (unmarked source.toList) = some body.toList →
        rawValue? source.toList = some (some (.literal body))) ∧
      ((∀ body : String, rawValue? source.toList = some (some (.literal body)) ↔
          ValueToken.literalBody? (unmarked source.toList) = some body.toList) ↔
        ∀ body, unmarked source.toList = '\'' :: (body ++ ['\'']) →
          ∃ content, body = Literal.escape content) ∧
      ∀ first middle last, middle ≠ [] → '\'' ∉ middle →
        unmarked source.toList = Literal.quote first ++ (middle ++ Literal.quote last) →
          ValueToken.literalBody? (unmarked source.toList) = none ∧
            (ColumnKind.ofTypeName column.typeName = .text →
              { column with defaultValue := some source }.staticDefault? =
                some (.string (String.ofList (first ++ '\'' :: (middle ++ '\'' :: last))))) := by
  have hliteral (body : String) (h : ValueToken.literalBody? (unmarked source.toList) = some body.toList) :
      rawValue? source.toList = some (some (.literal body)) :=
    rawValue?_eq_literal_iff.mpr (ValueToken.literalBody?_eq_some.mp h).1
  refine ⟨fun body => rawValue?_eq_literal_iff, hliteral, ⟨?_, ?_⟩, ?_⟩
  · intro hsame body hbody
    have hvalue : rawValue? source.toList = some (some (.literal (String.ofList body))) :=
      rawValue?_eq_literal_iff.mpr (by rw [hbody, String.toList_ofList])
    have hboth := (hsame _).mp hvalue
    rw [String.toList_ofList] at hboth
    exact (literalBody?_unmarked_iff hbody).mp hboth
  · intro hescaped body
    refine ⟨fun hvalue => ?_, hliteral body⟩
    have hbody := rawValue?_eq_literal_iff.mp hvalue
    exact (literalBody?_unmarked_iff hbody).mpr (hescaped _ hbody)
  · intro first middle last hne hmiddle hjoined
    constructor
    · rw [hjoined]
      exact ValueToken.literalBody?_joined first last hne hmiddle
    · intro hkind
      have hvalue : rawValue? source.toList = some (some (.literal (String.ofList
          (Literal.escape first ++ '\'' :: (middle ++ '\'' :: Literal.escape last))))) := by
        apply rawValue?_eq_literal_iff.mpr
        simp [hjoined, Literal.quote]
      rw [staticDefault?_of_literal hkind hvalue, unescape_joined first middle last hne hmiddle]

/-- A literal with a quote in it, and two joined literals. -/
theorem quoted_by_ends_of_sample :
    rawValue? "(N'it''s')".toList = some (some (.literal "it''s")) ∧
      ValueToken.literalBody? (unmarked "N'a' + 'b'".toList) = none ∧
      staticDefault? ⟨"NAME", 1, "varchar(20)", true, some "N'a' + 'b'"⟩ = some (.string "a' + 'b") := by
  have hkind : ColumnKind.ofTypeName "varchar(20)" = .text := by decide
  have hliteral : unmarked "(N'it''s')".toList = "'it''s'".toList := by cbv
  have hjoined : unmarked "N'a' + 'b'".toList = "'a' + 'b'".toList := by cbv
  have hvalue := (quoted_by_ends ⟨"NAME", 1, "varchar(20)", true, none⟩ "(N'it''s')").2.1 "it''s"
    (by rw [hliteral]; decide)
  have hdefault := (quoted_by_ends ⟨"NAME", 1, "varchar(20)", true, none⟩ "N'a' + 'b'").2.2.2 ['a']
    " + ".toList ['b'] (by decide) (by decide) hjoined
  exact ⟨hvalue, hdefault.1, hdefault.2 hkind⟩

/-- Two joined literals are no literal, and they have a static default. -/
theorem joined_literals_as_default :
    ValueToken.literalBody? (unmarked "'a' + 'b'".toList) = none ∧
      rawValue? "'a' + 'b'".toList = some (some (.literal "a' + 'b")) ∧
      staticDefault? ⟨"NAME", 1, "varchar(20)", true, some "'a' + 'b'"⟩ = some (.string "a' + 'b") := by
  have hkind : ColumnKind.ofTypeName "varchar(20)" = .text := by decide
  have hjoined : unmarked "'a' + 'b'".toList = "'a' + 'b'".toList := by cbv
  have hvalue : rawValue? "'a' + 'b'".toList = some (some (.literal "a' + 'b")) :=
    rawValue?_eq_literal_iff.mpr hjoined
  refine ⟨by rw [hjoined]; decide, hvalue, ?_⟩
  exact @staticDefault?_of_literal ⟨"NAME", 1, "varchar(20)", true, none⟩ _ _ hkind hvalue

end Column

end ChangeCapture
