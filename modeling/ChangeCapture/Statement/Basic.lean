import ChangeCapture.Change
import ChangeCapture.Error
import ChangeCapture.Value.Raw

/-! # Redo statements -/

namespace ChangeCapture

/-! ## Statements -/

/-- What a statement does. -/
inductive Operation where
  | insert
  | delete
  | update
  deriving DecidableEq, Repr

namespace Operation

/-- The number of the operation in the log. -/
def code : Operation → Nat
  | .insert => 1
  | .delete => 2
  | .update => 3

def ofCode? (code : Nat) : Option Operation :=
  match code with
  | 1 => some .insert
  | 2 => some .delete
  | 3 => some .update
  | _ => none

def kind : Operation → ChangeKind
  | .insert => .insert
  | .delete => .delete
  | .update => .update

def name (operation : Operation) : String := operation.kind.eventName

end Operation

/-- A value as a statement writes it. -/
inductive ValueToken where
  | null
  /-- A value that the log cannot write as text. -/
  | unsupported
  /-- The body of a quoted literal, in which a quote is written twice. -/
  | literal (body : String)
  /-- Anything else as it is written. -/
  | expression (source : String)
  deriving DecidableEq, Repr

/-- The captured value; what is null or cannot be written is unknown. -/
def ValueToken.toRaw : ValueToken → Option RawValue
  | .null | .unsupported => none
  | .literal body => some (.literal body)
  | .expression source => some (.expression source)

/-- The values that an insertion or a change assigns. -/
inductive Assignments where
  | named (pairs : List (String × ValueToken))
  /-- One value for each column in the order of the table. -/
  | positional (values : List ValueToken)
  deriving DecidableEq, Repr

/-- A statement as it is written. A deletion assigns nothing. -/
structure Statement where
  operation : Operation
  schema : String
  table : String
  assignments : Assignments
  /-- The values of the row before, if the statement has a condition. -/
  predicates : Option (List (String × ValueToken))
  deriving DecidableEq, Repr

/-! ## Failures -/

namespace Statement

/-- Why a text is no statement. -/
inductive Reason where
  | noOperation
  | expected (what : String)
  | unterminatedIdentifier
  | emptyIdentifier
  | unterminatedLiteral
  | unclosedParentheses (depth : Nat)
  | missingValue
  | columnCount (columns values : Nat)
  | trailingText
  deriving DecidableEq, Repr

def Reason.message : Reason → String
  | .noOperation => "not an INSERT, UPDATE or DELETE"
  | .expected what => s!"expected '{what}'"
  | .unterminatedIdentifier => "unterminated identifier"
  | .emptyIdentifier => "empty identifier"
  | .unterminatedLiteral => "unterminated literal"
  | .unclosedParentheses depth => s!"{depth} unclosed parentheses"
  | .missingValue => "missing value"
  | .columnCount columns values => s!"{columns} columns but {values} values"
  | .trailingText => "unexpected trailing text"

/-- A reason and the place where it was noticed, in bytes from the start of the text. -/
structure Fault where
  reason : Reason
  offset : Nat
  deriving DecidableEq, Repr

def Fault.message (fault : Fault) : String := s!"{fault.reason.message} at offset {fault.offset}"

end Statement

end ChangeCapture
