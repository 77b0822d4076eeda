import ChangeCapture.Statement.Input

/-! # Reading values of a statement -/

namespace ChangeCapture

/-! ## Classes of values -/

namespace ValueToken

/-- What a redo statement writes for a value that has no text. -/
def unsupportedText : String := "Unsupported Type"

/-- The characters before the quote that ends the text, if no quote before it stands alone. -/
def bodyBeforeQuote? : List Char → Option (List Char)
  | [] => none
  | ['\''] => some []
  | '\'' :: '\'' :: rest => (bodyBeforeQuote? rest).map fun body => '\'' :: '\'' :: body
  | c :: rest => if c = '\'' then none else (bodyBeforeQuote? rest).map (c :: ·)

/-- The body of a text that is one quoted literal. -/
def literalBody? : List Char → Option (List Char)
  | '\'' :: rest => bodyBeforeQuote? rest
  | _ => none

def classify (token : List Char) : ValueToken :=
  if String.ofList token = "NULL" then .null
  else if String.ofList token = unsupportedText then .unsupported
  else
    match literalBody? token with
    | some body => .literal (String.ofList body)
    | none => .expression (String.ofList token)

end ValueToken

namespace Statement

/-! ## Where values end -/

/-- What surrounds a value. -/
inductive ValueContext where
  /-- A list in parentheses: a comma or the closing parenthesis ends a value. -/
  | tuple
  /-- A list of assignments: a comma or the word where ends a value. -/
  | setClause
  /-- A list of conditions: the word and ends a value. -/
  | whereClause
  deriving DecidableEq, Repr

/-- The text begins with blanks, a keyword, and a blank or nothing. -/
def beginsWithSpaced (keyword : String) (text : List Char) : Bool :=
  text.head?.any Text.isAsciiBlank &&
    match Input.afterKeyword? keyword (text.dropWhile Text.isAsciiBlank) with
    | some rest => rest.isEmpty || rest.head?.any Text.isAsciiBlank
    | none => false

/-- A value in `context` ends before the text. A semicolon ends every value. -/
def ValueContext.endsBefore (context : ValueContext) (text : List Char) : Bool :=
  text.head? == some ';' ||
    match context with
    | .tuple => text.head? == some ',' || text.head? == some ')'
    | .setClause => text.head? == some ',' || beginsWithSpaced "where" text
    | .whereClause => beginsWithSpaced "and" text

/-! ## Spans of values -/

/-- Where a value was left: how many parentheses are open, and whether a quote is. -/
structure Nesting where
  depth : Nat
  quoted : Bool
  deriving DecidableEq, Repr

def Nesting.outside : Nesting := ⟨0, false⟩

/-- The characters of a value, what follows them, and what is still open there. In quotes two quotes
stand for one and nothing else counts; in parentheses only quotes and parentheses do. -/
def spanValue (context : ValueContext) :
    Nesting → List Char → List Char × List Char × Nesting
  | nesting, [] => ([], [], nesting)
  | ⟨depth, true⟩, '\'' :: '\'' :: rest =>
      let (value, tail, final) := spanValue context ⟨depth, true⟩ rest
      ('\'' :: '\'' :: value, tail, final)
  | ⟨depth, true⟩, c :: rest =>
      let (value, tail, final) := spanValue context ⟨depth, c != '\''⟩ rest
      (c :: value, tail, final)
  | ⟨depth, false⟩, c :: rest =>
      if depth = 0 ∧ context.endsBefore (c :: rest) then ([], c :: rest, .outside)
      else
        let next : Nesting :=
          if c = '\'' then ⟨depth, true⟩
          else if c = '(' then ⟨depth + 1, false⟩
          else if c = ')' then ⟨depth - 1, false⟩
          else ⟨depth, false⟩
        let (value, tail, final) := spanValue context next rest
        (c :: value, tail, final)

theorem spanValue_append (context : ValueContext) (nesting : Nesting) (text : List Char) :
    (spanValue context nesting text).1 ++ (spanValue context nesting text).2.1 = text := by
  fun_induction spanValue context nesting text <;> simp_all

theorem length_spanValue_le (context : ValueContext) (nesting : Nesting) (text : List Char) :
    (spanValue context nesting text).2.1.length ≤ text.length := by
  have h := congrArg List.length (spanValue_append context nesting text)
  simp at h
  omega

/-! ## Values -/

/-- The value at the front, up to what ends it in its context. -/
def Input.value (input : Input) (context : ValueContext) : Except Fault (ValueToken × Input) :=
  let (written, rest, nesting) := spanValue context .outside input.rest
  let next := input.advance written rest
  if nesting.quoted then .error (next.fault .unterminatedLiteral)
  else if 0 < nesting.depth then .error (next.fault (.unclosedParentheses nesting.depth))
  else
    let token := Text.trim written
    if token.isEmpty then .error (next.fault .missingValue)
    else .ok (ValueToken.classify token, next)

theorem Input.length_value_le {input next : Input} {context : ValueContext} {token : ValueToken}
    (h : input.value context = .ok (token, next)) : next.rest.length ≤ input.rest.length := by
  have hle := length_spanValue_le context .outside input.rest
  simp only [Input.value] at h
  split at h
  · simp at h
  · split at h
    · simp at h
    · split at h
      · simp at h
      · cases h
        exact hle

end Statement

end ChangeCapture
