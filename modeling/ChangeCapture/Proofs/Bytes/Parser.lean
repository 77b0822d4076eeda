import ChangeCapture.Proofs.Bytes.Scanner
import ChangeCapture.Statement.Parser

/-! # Statements read from byte to byte -/

namespace ChangeCapture.Bytes

open Statement (Fault Reason)

namespace Scanner

/-! ## Parts -/

/-- A table by schema and name. -/
def target (scanner : Scanner) : Checked Fault ((String × String) × Scanner) := do
  let (schema, scanner) ← (← scanner.skipBlanks).identifier
  let scanner ← scanner.expect '.'
  let (table, scanner) ← scanner.identifier
  return ((schema, table), scanner)

/-- The rest of a list of column names after its opening parenthesis. -/
def columnNames (scanner : Scanner) : Checked Fault (List String × Scanner) := do
  let (name, named) ← (← scanner.skipBlanks).identifier
  let named ← named.skipBlanks
  match ← named.eat? ')' with
  | some closed => return ([name], closed)
  | none =>
      let next ← named.expect ','
      let ⟨_⟩ ← less? next.left scanner.left
      let (names, last) ← columnNames next
      return (name :: names, last)
termination_by scanner.left
decreasing_by assumption

/-- The rest of a list of values after its opening parenthesis. -/
def tupleValues (scanner : Scanner) : Checked Fault (List ValueToken × Scanner) := do
  let (value, read) ← scanner.value .tuple
  match ← read.eat? ')' with
  | some closed => return ([value], closed)
  | none =>
      let next ← read.expect ','
      let ⟨_⟩ ← less? next.left scanner.left
      let (values, last) ← tupleValues next
      return (value :: values, last)
termination_by scanner.left
decreasing_by assumption

/-- A column name, an equals sign and a value. -/
def assignment (scanner : Scanner) : Checked Fault ((String × ValueToken) × Scanner) := do
  let (column, scanner) ← (← scanner.skipBlanks).identifier
  let scanner ← (← scanner.skipBlanks).expect '='
  let (value, scanner) ← (← scanner.skipBlanks).value .setClause
  return ((column, value), scanner)

/-- One or more assignments with commas between them. -/
def assignments (scanner : Scanner) : Checked Fault (List (String × ValueToken) × Scanner) := do
  let (pair, read) ← scanner.assignment
  match ← read.eat? ',' with
  | none => return ([pair], read)
  | some next =>
      let ⟨_⟩ ← less? next.left scanner.left
      let (pairs, last) ← assignments next
      return (pair :: pairs, last)
termination_by scanner.left
decreasing_by assumption

/-- A column name and either the words for being null or an equals sign and a value. -/
def predicate (scanner : Scanner) : Checked Fault ((String × ValueToken) × Scanner) := do
  let (column, scanner) ← (← scanner.skipBlanks).identifier
  let scanner ← scanner.skipBlanks
  match ← scanner.eatKeyword? "is" with
  | some scanner =>
      let scanner ← (← scanner.skipBlanks).expectKeyword "null"
      return ((column, .null), scanner)
  | none =>
      let scanner ← scanner.expect '='
      let (value, scanner) ← (← scanner.skipBlanks).value .whereClause
      return ((column, value), scanner)

/-- One or more predicates with the word and between them. -/
def predicates (scanner : Scanner) : Checked Fault (List (String × ValueToken) × Scanner) := do
  let (pair, read) ← scanner.predicate
  let read ← read.skipBlanks
  match ← read.eatKeyword? "and" with
  | none => return ([pair], read)
  | some next =>
      let ⟨_⟩ ← less? next.left scanner.left
      let (pairs, last) ← predicates next
      return (pair :: pairs, last)
termination_by scanner.left
decreasing_by assumption

/-- The predicates after the word where, if it comes next. -/
def condition (scanner : Scanner) : Checked Fault (Option (List (String × ValueToken)) × Scanner) := do
  let scanner ← scanner.skipBlanks
  match ← scanner.eatKeyword? "where" with
  | none => return (none, scanner)
  | some scanner =>
      let (pairs, scanner) ← scanner.predicates
      return (some pairs, scanner)

/-! ## Statements -/

/-- The column names of an insertion, if it lists them. -/
def columnList (scanner : Scanner) : Checked Fault (Option (List String) × Scanner) := do
  match ← scanner.eat? '(' with
  | none => return (none, scanner)
  | some scanner =>
      let (names, scanner) ← scanner.columnNames
      return (some names, ← scanner.skipBlanks)

/-- Pairs the listed columns, if there are any, with as many values. -/
def pairValues (scanner : Scanner) (columns : Option (List String)) (values : List ValueToken) :
    Checked Fault Assignments :=
  match columns with
  | none => return .positional values
  | some names =>
      if names.length = values.length then return .named (names.zip values)
      else throw (scanner.fault (.columnCount names.length values.length))

/-- An insertion after the words that begin it. -/
def insertion (scanner : Scanner) : Checked Fault (Statement × Scanner) := do
  let ((schema, table), scanner) ← scanner.target
  let (columns, scanner) ← (← scanner.skipBlanks).columnList
  let scanner ← scanner.expectKeyword "values"
  let scanner ← (← scanner.skipBlanks).expect '('
  let (values, scanner) ← scanner.tupleValues
  let assignments ← scanner.pairValues columns values
  return ({ operation := .insert, schema, table, assignments, predicates := none }, scanner)

/-- A change after the word that begins it. -/
def change (scanner : Scanner) : Checked Fault (Statement × Scanner) := do
  let ((schema, table), scanner) ← scanner.target
  let scanner ← (← scanner.skipBlanks).expectKeyword "set"
  let (pairs, scanner) ← scanner.assignments
  let (predicates, scanner) ← scanner.condition
  return ({ operation := .update, schema, table, assignments := .named pairs, predicates }, scanner)

/-- A deletion after the words that begin it. -/
def deletion (scanner : Scanner) : Checked Fault (Statement × Scanner) := do
  let ((schema, table), scanner) ← scanner.target
  let (predicates, scanner) ← scanner.condition
  return ({ operation := .delete, schema, table, assignments := .named [], predicates }, scanner)

/-- A statement of any of the three operations. -/
def statement (scanner : Scanner) : Checked Fault (Statement × Scanner) := do
  match ← scanner.eatKeyword? "insert" with
  | some scanner =>
      let scanner ← (← scanner.skipBlanks).expectKeyword "into"
      scanner.insertion
  | none =>
      match ← scanner.eatKeyword? "update" with
      | some scanner => scanner.change
      | none =>
          match ← scanner.eatKeyword? "delete" with
          | some scanner =>
              let scanner ← (← scanner.skipBlanks).expectKeyword "from"
              scanner.deletion
          | none => throw (scanner.fault .noOperation)

/-- Only blanks may be left. -/
def finish (scanner : Scanner) : Checked Fault Unit := do
  let last ← scanner.skipBlanks
  if last.pos < last.stop then throw (last.fault .trailingText) else return ()

end Scanner

/-! ## Texts -/

/-- The statement of a text that is not too large. -/
def parseBody (sql : String) : Checked Fault Statement := do
  let (statement, rest) ← (← Scanner.ofText sql).statement
  rest.finish
  return statement

/-- The statement that a text holds. -/
def parse (sql : String) : Checked CaptureError Statement :=
  if Statement.maxBytes < sql.utf8ByteSize then
    throw (.unparsableStatement (Statement.tooLarge sql.utf8ByteSize) (Statement.preview sql) none)
  else (parseBody sql).adapt fun fault => .unparsableStatement fault.message sql none

end ChangeCapture.Bytes
