import ChangeCapture.Proofs.Statement.Value
import ChangeCapture.Proofs.Value.Literal
import ChangeCapture.Proofs.Value.Parentheses
import ChangeCapture.Value.Default

/-! # Default values

A default stands in parentheses, any number of them. What they enclose is a quoted literal if it begins
and ends with a quote, whatever stands between the two. -/

namespace ChangeCapture

/-! ## Parentheses -/

/-- The text is the expression in parentheses, any number of them, with blanks around each. -/
inductive Encloses (expr : List Char) : List Char → Prop where
  | blanks {front back : List Char} (hfront : ∀ c ∈ front, Text.isBlank c = true)
      (hback : ∀ c ∈ back, Text.isBlank c = true) : Encloses expr (front ++ (expr ++ back))
  | parens {text front back : List Char} (htext : Encloses expr text)
      (hfront : ∀ c ∈ front, Text.isBlank c = true) (hback : ∀ c ∈ back, Text.isBlank c = true) :
      Encloses expr (front ++ (('(' :: (text ++ [')'])) ++ back))

namespace Balanced

variable {text more : List Char}

theorem append (h : Balanced text) (hmore : Balanced more) : Balanced (text ++ more) := by
  induction h with
  | nil => exact hmore
  | char hquote hopen hclose _ ih => exact .char hquote hopen hclose ih
  | quoted hbody _ ih => simpa using quoted hbody ih
  | group hinner _ _ ih => simpa using group hinner ih

theorem of_blanks (h : ∀ c ∈ text, Text.isBlank c = true) : Balanced text := by
  induction text with
  | nil => exact .nil
  | cons c text ih =>
      obtain ⟨hc, htext⟩ := List.forall_mem_cons.mp h
      have hne (other : Char) (hother : Text.isBlank other = false) : c ≠ other :=
        Text.ne_of_isBlank hc hother
      exact .char (hne _ (by decide)) (hne _ (by decide)) (hne _ (by decide)) (ih htext)

/-- Parentheses and blanks around a balanced text make a balanced text. -/
theorem encloses (h : Balanced text) {enclosing : List Char} (henclosing : Encloses text enclosing) :
    Balanced enclosing := by
  induction henclosing with
  | blanks hfront hback => exact (of_blanks hfront).append (h.append (of_blanks hback))
  | parens _ hfront hback ih => exact (of_blanks hfront).append ((group ih nil).append (of_blanks hback))

end Balanced

namespace DefaultExpression

variable {text expr body : List Char}

theorem stripParens_of_head (h : text.head? ≠ some '(') : stripParens text = text := by
  have hinner : inner? text = none := by
    unfold inner?
    split
    · simp at h
    · rfl
  rw [stripParens]
  split
  · rename_i heq
    simp [hinner] at heq
  · rfl

/-- Parentheses that belong together are left out, with the blanks inside them. -/
theorem stripParens_group (h : Balanced text) :
    stripParens ('(' :: (text ++ [')'])) = stripParens (Text.trim text) := by
  have hinner : inner? ('(' :: (text ++ [')'])) = some text := by
    rw [inner?, if_pos (closesAtEnd_iff_balanced.mpr h), List.dropLast_concat]
  rw [stripParens]
  split
  · rename_i heq
    rw [hinner] at heq
    cases heq
    rfl
  · rename_i heq
    simp [hinner] at heq

/-- A balanced expression comes back from all its parentheses. -/
theorem stripParens_encloses (h : Balanced expr) (htext : Encloses expr text) :
    stripParens (Text.trim text) = stripParens (Text.trim expr) := by
  induction htext with
  | blanks hfront hback => rw [Text.trim_of_blanks expr hfront hback]
  | @parens text _ _ htext hfront hback ih =>
      have hends : Text.trim ('(' :: (text ++ [')'])) = '(' :: (text ++ [')']) := by
        apply Text.trim_of_ends
        · simp
          decide
        · rw [← List.cons_append, List.getLast?_concat]
          simp
          decide
      rw [Text.trim_of_blanks _ hfront hback, hends, stripParens_group (h.encloses htext), ih]

/-! ## Literals -/

theorem dropNationalMark_eq (expr : List Char) :
    dropNationalMark expr = expr ∨ expr = 'N' :: dropNationalMark expr := by
  unfold dropNationalMark
  split
  · exact .inr rfl
  · exact .inl rfl

theorem quotedBody?_eq_some :
    quotedBody? expr = some body ↔ dropNationalMark expr = '\'' :: (body ++ ['\'']) := by
  unfold quotedBody?
  constructor
  · intro h
    split at h
    · rename_i rest hrest
      split at h
      · obtain ⟨front, rfl⟩ := List.getLast?_eq_some_iff.mp ‹_›
        rw [List.dropLast_concat] at h
        cases h
        exact hrest
      · cases h
    · cases h
  · intro h
    simp [h]

/-- What ends with a quote is neither empty nor the word for no value. -/
theorem rawValue?_of_quoted (h : quotedBody? (stripParens (Text.trim text)) = some body) :
    rawValue? text = some (some (.literal (String.ofList body))) := by
  have hlast : (stripParens (Text.trim text)).getLast? = some '\'' := by
    have hquoted := quotedBody?_eq_some.mp h
    rw [← List.cons_append] at hquoted
    rcases dropNationalMark_eq (stripParens (Text.trim text)) with heq | heq
    · rw [← heq, hquoted, List.getLast?_concat]
    · rw [heq, hquoted, ← List.cons_append, List.getLast?_concat]
  have hempty : (stripParens (Text.trim text)).isEmpty = false := by
    cases hexpr : stripParens (Text.trim text) with
    | nil => simp [hexpr] at hlast
    | cons => rfl
  have hnull : Text.lowerAscii (stripParens (Text.trim text)) ≠ ['n', 'u', 'l', 'l'] := by
    intro hnull
    have hlower := congrArg List.getLast? hnull
    rw [Text.lowerAscii, List.getLast?_map, hlast] at hlower
    revert hlower
    decide
  simp [rawValue?, hempty, hnull, h]

theorem rawValue?_eq_literal {body : String} :
    rawValue? text = some (some (.literal body)) ↔
      quotedBody? (stripParens (Text.trim text)) = some body.toList := by
  constructor
  · intro h
    cases hquoted : quotedBody? (stripParens (Text.trim text)) with
    | some found =>
        rw [rawValue?_of_quoted hquoted] at h
        cases h
        rw [String.toList_ofList]
    | none =>
        unfold rawValue? at h
        simp only [hquoted] at h
        split_ifs at h <;> cases h
  · intro h
    rw [rawValue?_of_quoted h, String.ofList_toList]

/-- A literal is left alone, with or without the mark for national characters. -/
theorem rawValue?_quote (content : List Char) {mark : List Char} (hmark : mark = [] ∨ mark = ['N']) :
    rawValue? (mark ++ Literal.quote content) =
      some (some (.literal (String.ofList (Literal.escape content)))) := by
  have hlast : (mark ++ Literal.quote content).getLast? = some '\'' := by
    rw [Literal.quote, ← List.cons_append, ← List.append_assoc, List.getLast?_concat]
  have hhead : ∀ c ∈ (mark ++ Literal.quote content).head?, c ≠ '(' ∧ Text.isBlank c = false := by
    rcases hmark with rfl | rfl <;> simp [Literal.quote] <;> decide
  have htrim : Text.trim (mark ++ Literal.quote content) = mark ++ Literal.quote content := by
    apply Text.trim_of_ends
    · exact fun c hc => (hhead c hc).2
    · rw [hlast]
      simp
      decide
  have hstrip : stripParens (mark ++ Literal.quote content) = mark ++ Literal.quote content :=
    stripParens_of_head fun hparen => (hhead _ hparen).1 rfl
  apply rawValue?_of_quoted
  rw [htrim, hstrip, quotedBody?_eq_some]
  rcases hmark with rfl | rfl <;> rfl

/-- A balanced expression has the same value in parentheses. -/
theorem rawValue?_encloses (h : Balanced expr) (htext : Encloses expr text) : rawValue? text = rawValue? expr := by
  unfold rawValue?
  rw [stripParens_encloses h htext]

end DefaultExpression

/-! ## Columns -/

namespace Column

open DefaultExpression

variable {column : Column}

theorem ofText_withDefault (column : Column) (source : Option String) (kind : ColumnKind) (text : List Char) :
    Value.ofText { column with defaultValue := source } kind text = Value.ofText column kind text := rfl

/-- The value of an expression does not depend on the default of its column. -/
theorem normalize_withDefault (column : Column) (source : Option String) (value : Option RawValue) :
    Value.normalize { column with defaultValue := source } value = Value.normalize column value := by
  simp only [Value.normalize, ofText_withDefault]

theorem staticDefault?_withDefault (column : Column) (source : String) :
    { column with defaultValue := some source }.staticDefault? =
      (rawValue? source.toList).bind fun value => (Value.normalize column value).toOption := by
  simp only [staticDefault?, normalize_withDefault, bind, Option.bind_some]

theorem staticDefault?_of_literal {source : String} {body : List Char}
    (hkind : ColumnKind.ofTypeName column.typeName = .text)
    (h : rawValue? source.toList = some (some (.literal (String.ofList body)))) :
    { column with defaultValue := some source }.staticDefault? =
      some (.string (String.ofList (Literal.unescape body))) := by
  rw [staticDefault?_withDefault, h, Option.bind_some]
  simp only [Value.normalize, hkind, String.toList_ofList, Value.ofText, Value.ofChars, Except.toOption]

/-- Parentheses around a default, however many, change nothing. In particular each text is the default of
a column of texts that has it as a literal in parentheses. -/
theorem default_in_parentheses (column : Column) :
    (ColumnKind.ofTypeName column.typeName = .text → ∀ (content text : String) (mark : List Char),
      mark = [] ∨ mark = ['N'] → Encloses (mark ++ Literal.quote content.toList) text.toList →
        { column with defaultValue := some text }.staticDefault? = some (.string content)) ∧
      ∀ expr text : String, Balanced expr.toList → Encloses expr.toList text.toList →
        { column with defaultValue := some text }.staticDefault? =
          { column with defaultValue := some expr }.staticDefault? := by
  constructor
  · intro hkind content text mark hmark htext
    have hbalanced : Balanced (mark ++ Literal.quote content.toList) := by
      rcases hmark with rfl | rfl
      · exact balanced_quote content.toList
      · exact .char (by decide) (by decide) (by decide) (balanced_quote content.toList)
    have hvalue := rawValue?_quote content.toList hmark
    rw [← rawValue?_encloses hbalanced htext] at hvalue
    rw [staticDefault?_of_literal hkind hvalue, Literal.unescape_escape, String.ofList_toList]
  · intro expr text hexpr htext
    rw [staticDefault?_withDefault, staticDefault?_withDefault, rawValue?_encloses hexpr htext]

/-- A literal with quotes and a parenthesis of its own, and a sum of two expressions in parentheses. -/
theorem default_in_parentheses_of_sample :
    Column.staticDefault? ⟨"NAME", 1, "nvarchar(10)", true, some " (( N'it''s (' ))"⟩ = some (.string "it's (") ∧
      Column.staticDefault? ⟨"SUM", 2, "int", true, some "((1)+(2))"⟩ =
        Column.staticDefault? ⟨"SUM", 2, "int", true, some "(1)+(2)"⟩ := by
  have hkind : ColumnKind.ofTypeName "nvarchar(10)" = .text := by decide
  have hblank : ∀ c ∈ [' '], Text.isBlank c = true := List.all_eq_true.mp (by decide)
  have hliteral : Encloses (['N'] ++ Literal.quote "it's (".toList) " (( N'it''s (' ))".toList :=
    @Encloses.parens _ "( N'it''s (' )".toList [' '] []
      (@Encloses.parens _ " N'it''s (' ".toList [] []
        (@Encloses.blanks _ [' '] [' '] hblank hblank) (by simp) (by simp)) hblank (by simp)
  have hnumber {c : Char} (hquote : c ≠ '\'') (hopen : c ≠ '(') (hclose : c ≠ ')') : Balanced [c] :=
    .char hquote hopen hclose .nil
  have hsum : Balanced "(1)+(2)".toList :=
    .group (hnumber (by decide) (by decide) (by decide)) (.char (by decide) (by decide) (by decide)
      (.group (hnumber (by decide) (by decide) (by decide)) .nil))
  have henclosed : Encloses "(1)+(2)".toList "((1)+(2))".toList :=
    @Encloses.parens _ "(1)+(2)".toList [] [] (@Encloses.blanks _ [] [] (by simp) (by simp)) (by simp) (by simp)
  exact ⟨(default_in_parentheses ⟨"NAME", 1, "nvarchar(10)", true, none⟩).1 hkind "it's (" _ ['N'] (.inr rfl)
      hliteral,
    (default_in_parentheses ⟨"SUM", 2, "int", true, none⟩).2 _ _ hsum henclosed⟩

end Column

end ChangeCapture
