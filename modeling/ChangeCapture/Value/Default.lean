import ChangeCapture.Value.Normalize

/-! # Default values of columns -/

namespace ChangeCapture.DefaultExpression

/-! ## Parentheses -/

/-- The parenthesis opened `depth` levels up is closed by the last character of the text, parentheses
in quotes not counted. -/
def closesAtEnd (depth : Nat) (quoted : Bool) : List Char → Bool
  | [] => false
  | c :: rest =>
      if c = '\'' then closesAtEnd depth (!quoted) rest
      else if c = '(' ∧ !quoted then closesAtEnd (depth + 1) quoted rest
      else if c = ')' ∧ !quoted then
        if depth - 1 = 0 then rest.isEmpty else closesAtEnd (depth - 1) quoted rest
      else closesAtEnd depth quoted rest

/-- What is left of a text in parentheses that belong together. -/
def inner? (text : List Char) : Option (List Char) :=
  match text with
  | '(' :: rest => if closesAtEnd 0 false text then some rest.dropLast else none
  | _ => none

theorem length_trim_le (text : List Char) : (Text.trim text).length ≤ text.length := by
  have h (l : List Char) : (l.dropWhile Text.isBlank).length ≤ l.length :=
    (List.dropWhile_sublist Text.isBlank).length_le
  calc (Text.trim text).length
      = ((Text.trimLeft text).reverse.dropWhile Text.isBlank).length := by
        simp [Text.trim, Text.trimRight]
    _ ≤ (Text.trimLeft text).reverse.length := h _
    _ = (text.dropWhile Text.isBlank).length := by simp [Text.trimLeft]
    _ ≤ text.length := h _

theorem length_of_inner? {text body : List Char} (h : inner? text = some body) :
    body.length < text.length := by
  cases text with
  | nil => simp [inner?] at h
  | cons c rest =>
      by_cases hc : c = '('
      · subst hc
        simp only [inner?] at h
        split at h
        · cases h
          simp only [List.length_dropLast, List.length_cons]
          omega
        · simp at h
      · simp [inner?, hc] at h

/-- The text without the parentheses that enclose it, and without the blanks inside them. -/
def stripParens (text : List Char) : List Char :=
  match _h : inner? text with
  | some body => stripParens (Text.trim body)
  | none => text
termination_by text.length
decreasing_by
  have := length_trim_le body
  have := length_of_inner? _h
  omega

/-! ## Literals -/

/-- A text without a mark for national characters before its first quote. -/
def dropNationalMark : List Char → List Char
  | 'N' :: '\'' :: rest => '\'' :: rest
  | text => text

/-- What stands between a quote at the front and a quote at the end. -/
def quotedBody? (text : List Char) : Option (List Char) :=
  match dropNationalMark text with
  | '\'' :: rest => if rest.getLast? = some '\'' then some rest.dropLast else none
  | _ => none

end ChangeCapture.DefaultExpression

namespace ChangeCapture

/-! ## Values -/

/-- The captured value that a default expression stands for. Calls and names of functions have no value
of their own. -/
def DefaultExpression.rawValue? (expr : List Char) : Option (Option RawValue) :=
  let expr := stripParens (Text.trim expr)
  if expr.isEmpty then none
  else if Text.lowerAscii expr = ['n', 'u', 'l', 'l'] then some none
  else
    match quotedBody? expr with
    | some body => some (some (.literal (String.ofList body)))
    | none =>
        if expr.contains '(' ∨ expr.head?.any Char.isAlpha then none
        else some (some (.expression (String.ofList expr)))

/-- The value of a column that is not given, if the catalog has one that does not depend on the row.
An expression that cannot be interpreted has none. -/
def Column.staticDefault? (column : Column) : Option Json := do
  let expr ← column.defaultValue
  let value ← DefaultExpression.rawValue? expr.toList
  (Value.normalize column value).toOption

end ChangeCapture
