import ChangeCapture.Statement.Value

/-! # Reading statements -/

namespace ChangeCapture.Statement

/-! ## Parts -/

namespace Input

/-- A table by schema and name. -/
def target (input : Input) : Except Fault ((String × String) × Input) := do
  let (schema, input) ← input.skipBlanks.identifier
  let input ← input.expect '.'
  let (table, input) ← input.identifier
  return ((schema, table), input)

/-- The rest of a list of column names after its opening parenthesis. -/
def columnNames (input : Input) : Except Fault (List String × Input) :=
  match _h : input.skipBlanks.identifier with
  | .error fault => .error fault
  | .ok (name, named) =>
      match named.skipBlanks.eat? ')' with
      | some closed => .ok ([name], closed)
      | none =>
          match _hc : named.skipBlanks.expect ',' with
          | .error fault => .error fault
          | .ok next => do
              let (names, last) ← columnNames next
              return (name :: names, last)
termination_by input.rest.length
decreasing_by
  have h₁ := length_skipBlanks_le input
  have h₂ := length_identifier_lt _h
  have h₃ := length_skipBlanks_le named
  have h₄ := length_expect_lt _hc
  omega

/-- The rest of a list of values after its opening parenthesis. -/
def tupleValues (input : Input) : Except Fault (List ValueToken × Input) :=
  match _h : input.value .tuple with
  | .error fault => .error fault
  | .ok (value, read) =>
      match read.eat? ')' with
      | some closed => .ok ([value], closed)
      | none =>
          match _hc : read.expect ',' with
          | .error fault => .error fault
          | .ok next => do
              let (values, last) ← tupleValues next
              return (value :: values, last)
termination_by input.rest.length
decreasing_by
  have h₁ := length_value_le _h
  have h₂ := length_expect_lt _hc
  omega

/-- A column name, an equals sign and a value. -/
def assignment (input : Input) : Except Fault ((String × ValueToken) × Input) := do
  let (column, input) ← input.skipBlanks.identifier
  let input ← input.skipBlanks.expect '='
  let (value, input) ← input.skipBlanks.value .setClause
  return ((column, value), input)

theorem length_assignment_lt {input next : Input} {pair : String × ValueToken}
    (h : input.assignment = .ok (pair, next)) : next.rest.length < input.rest.length := by
  simp only [assignment, bind, Except.bind, pure, Except.pure] at h
  split at h
  · simp at h
  · rename_i named hnamed
    split at h
    · simp at h
    · rename_i equals hequals
      split at h
      · simp at h
      · rename_i read hread
        cases h
        have h₁ := length_skipBlanks_le input
        have h₂ := length_identifier_lt hnamed
        have h₃ := length_skipBlanks_le named.2
        have h₄ := length_expect_lt hequals
        have h₅ := length_skipBlanks_le equals
        have h₆ := length_value_le hread
        omega

/-- One or more assignments with commas between them. -/
def assignments (input : Input) : Except Fault (List (String × ValueToken) × Input) :=
  match _h : input.assignment with
  | .error fault => .error fault
  | .ok (pair, read) =>
      match _hc : read.eat? ',' with
      | none => .ok ([pair], read)
      | some next => do
          let (pairs, last) ← assignments next
          return (pair :: pairs, last)
termination_by input.rest.length
decreasing_by
  have h₁ := length_assignment_lt _h
  have h₂ := length_eat_lt _hc
  omega

/-- A column name and either the words for being null or an equals sign and a value. -/
def predicate (input : Input) : Except Fault ((String × ValueToken) × Input) := do
  let (column, input) ← input.skipBlanks.identifier
  match input.skipBlanks.eatKeyword? "is" with
  | some input => do
      let input ← input.skipBlanks.expectKeyword "null"
      return ((column, .null), input)
  | none => do
      let input ← input.skipBlanks.expect '='
      let (value, input) ← input.skipBlanks.value .whereClause
      return ((column, value), input)

theorem length_predicate_lt {input next : Input} {pair : String × ValueToken}
    (h : input.predicate = .ok (pair, next)) : next.rest.length < input.rest.length := by
  simp only [predicate, bind, Except.bind, pure, Except.pure] at h
  split at h
  · simp at h
  · rename_i named hnamed
    have h₁ := length_skipBlanks_le input
    have h₂ := length_identifier_lt hnamed
    have h₃ := length_skipBlanks_le named.2
    split at h
    · rename_i word hword
      have h₄ := length_eatKeyword_le hword
      have h₅ := length_skipBlanks_le word
      split at h
      · simp at h
      · rename_i null hnull
        cases h
        have h₆ := length_expectKeyword_le hnull
        omega
    · split at h
      · simp at h
      · rename_i equals hequals
        have h₄ := length_expect_lt hequals
        have h₅ := length_skipBlanks_le equals
        split at h
        · simp at h
        · rename_i read hread
          cases h
          have h₆ := length_value_le hread
          omega

/-- One or more predicates with the word and between them. -/
def predicates (input : Input) : Except Fault (List (String × ValueToken) × Input) :=
  match _h : input.predicate with
  | .error fault => .error fault
  | .ok (pair, read) =>
      match _hk : read.skipBlanks.eatKeyword? "and" with
      | none => .ok ([pair], read.skipBlanks)
      | some next => do
          let (pairs, last) ← predicates next
          return (pair :: pairs, last)
termination_by input.rest.length
decreasing_by
  have h₁ := length_predicate_lt _h
  have h₂ := length_skipBlanks_le read
  have h₃ := length_eatKeyword_le _hk
  omega

/-- The predicates after the word where, if it comes next. -/
def condition (input : Input) :
    Except Fault (Option (List (String × ValueToken)) × Input) :=
  match input.skipBlanks.eatKeyword? "where" with
  | none => .ok (none, input.skipBlanks)
  | some input => do
      let (pairs, input) ← input.predicates
      return (some pairs, input)

/-! ## Statements -/

/-- The column names of an insertion, if it lists them. -/
def columnList (input : Input) : Except Fault (Option (List String) × Input) :=
  match input.eat? '(' with
  | none => .ok (none, input)
  | some input => do
      let (names, input) ← input.columnNames
      return (some names, input.skipBlanks)

/-- Pairs the listed columns, if there are any, with as many values. -/
def pairValues (input : Input) (columns : Option (List String)) (values : List ValueToken) :
    Except Fault Assignments :=
  match columns with
  | none => .ok (.positional values)
  | some names =>
      if names.length = values.length then .ok (.named (names.zip values))
      else .error (input.fault (.columnCount names.length values.length))

/-- An insertion after the words that begin it. -/
def insertion (input : Input) : Except Fault (Statement × Input) := do
  let ((schema, table), input) ← input.target
  let (columns, input) ← input.skipBlanks.columnList
  let input ← input.expectKeyword "values"
  let input ← input.skipBlanks.expect '('
  let (values, input) ← input.tupleValues
  let assignments ← input.pairValues columns values
  return ({ operation := .insert, schema, table, assignments, predicates := none }, input)

/-- A change after the word that begins it. -/
def change (input : Input) : Except Fault (Statement × Input) := do
  let ((schema, table), input) ← input.target
  let input ← input.skipBlanks.expectKeyword "set"
  let (pairs, input) ← input.assignments
  let (predicates, input) ← input.condition
  return ({ operation := .update, schema, table, assignments := .named pairs, predicates }, input)

/-- A deletion after the words that begin it. -/
def deletion (input : Input) : Except Fault (Statement × Input) := do
  let ((schema, table), input) ← input.target
  let (predicates, input) ← input.condition
  return ({ operation := .delete, schema, table, assignments := .named [], predicates }, input)

/-- A statement of any of the three operations. -/
def statement (input : Input) : Except Fault (Statement × Input) :=
  match input.eatKeyword? "insert" with
  | some input => do
      let input ← input.skipBlanks.expectKeyword "into"
      input.insertion
  | none =>
      match input.eatKeyword? "update" with
      | some input => input.change
      | none =>
          match input.eatKeyword? "delete" with
          | some input => do
              let input ← input.skipBlanks.expectKeyword "from"
              input.deletion
          | none => .error (input.fault .noOperation)

/-- Only blanks may be left. -/
def finish (input : Input) : Except Fault Unit :=
  if input.skipBlanks.rest.isEmpty then .ok ()
  else .error (input.skipBlanks.fault .trailingText)

end Input

/-! ## Texts -/

/-- The largest statement in bytes, 32 MiB. -/
def maxBytes : Nat := 32 * 1024 * 1024

def tooLarge (bytes : Nat) : String := s!"Statement size {bytes} bytes exceeds maximum {maxBytes}"

/-- The body of a statement without the blanks before it and one semicolon at its end, and its place
in the text. The text had `size` bytes before its trailing blanks were cut off; if nothing is left, all
of them were blanks and the body stands after them. -/
def body (size : Nat) (text : List Char) : Input :=
  if text.isEmpty then { offset := size, rest := [] }
  else
    let rest := Text.trimLeft text
    { offset := byteLength (text.takeWhile Text.isBlank)
      rest := if rest.getLast? = some ';' then rest.dropLast else rest }

/-- The statement of a text of `size` bytes whose trailing blanks were cut off. -/
def parseBody (size : Nat) (text : List Char) : Except Fault Statement := do
  let (statement, rest) ← (body size text).statement
  rest.finish
  return statement

/-- The start of a text that is too large to be shown. -/
def preview (sql : String) : String := (sql.take 256).copy

/-- The statement that a text holds. -/
def parse (sql : String) : Except CaptureError Statement :=
  if maxBytes < sql.utf8ByteSize then
    .error (.unparsableStatement (tooLarge sql.utf8ByteSize) (preview sql) none)
  else
    match parseBody sql.utf8ByteSize (sql.dropEndWhile Text.isBlank).copy.toList with
    | .ok statement => .ok statement
    | .error fault => .error (.unparsableStatement fault.message sql none)

end ChangeCapture.Statement
