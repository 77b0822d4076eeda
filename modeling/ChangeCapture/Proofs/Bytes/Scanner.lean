import ChangeCapture.Proofs.Bytes.Text
import ChangeCapture.Statement.Value

/-! # A scanner of statements that goes from byte to byte

It reads the words and values of a statement by index, where `Input` goes from character to character. -/

namespace ChangeCapture.Bytes

open Statement (Fault Reason ValueContext byteLength)

/-- A place in a text, and the end of the statement in it, which may stand before the end of the text. -/
structure Scanner where
  text : String
  pos : Nat
  stop : Nat
  deriving DecidableEq, Repr

namespace Scanner

variable (scanner : Scanner)

/-! ## Bytes -/

def isBlankByte (byte : UInt8) : Bool := Text.isAsciiBlank (Char.ofUInt8 byte)

def isWordByte (byte : UInt8) : Bool := Statement.Input.isWordChar (Char.ofUInt8 byte)

/-- Two bytes are equal but for the case of letters of ASCII. -/
def sameLetter (byte other : UInt8) : Bool := (Char.ofUInt8 byte).toLower == (Char.ofUInt8 other).toLower

/-- The body of a statement goes from its first character that is no blank to its last one, or to the
semicolon if that is the last one. -/
def ofText (text : String) : Option Scanner := do
  let trimmed := Text.trimRight text.toList
  let body := if trimmed.getLast? = some ';' then trimmed.dropLast else trimmed
  let start ← minus? text.utf8ByteSize (byteLength (Text.trimLeft text.toList))
  return { text, pos := start, stop := byteLength body }

/-- The bytes that are left of the body. -/
def left : Nat := scanner.stop - scanner.pos

def fault (reason : Reason) : Fault := { reason, offset := scanner.pos }

def peek : Option (Option UInt8) :=
  if scanner.pos < scanner.stop then (byte? scanner.text scanner.pos).map some else some none

/-- The scanner after a character of ASCII, if it comes next. -/
def eat? (c : Char) : Option (Option Scanner) := do
  if (← scanner.peek) = some c.toUInt8 then return some { scanner with pos := scanner.pos + 1 }
  else return none

def expect (c : Char) : Checked Fault Scanner := do
  match ← scanner.eat? c with
  | some next => return next
  | none => throw (scanner.fault (.expected c.toString))

/-- The first index from `i` on that has no blank. -/
def blanksEnd (i : Nat) : Option Nat :=
  if i < scanner.stop then do
    if isBlankByte (← byte? scanner.text i) then blanksEnd (i + 1) else return i
  else return i
termination_by scanner.stop - i

def skipBlanks : Option Scanner := do
  return { scanner with pos := ← scanner.blanksEnd scanner.pos }

/-! ## Keywords -/

/-- A keyword in any case stands at an index as a whole word. -/
def keywordAt (keyword : String) (i : Nat) : Option Bool := do
  let stop := i + keyword.utf8ByteSize
  if stop ≤ scanner.stop then
    let written ← bytes? scanner.text i stop
    return List.isEqv written keyword.toUTF8.data.toList sameLetter &&
      (byte? scanner.text stop).all (!isWordByte ·)
  else return false

/-- Blanks stand at an index, then a keyword, then a blank or the end. -/
def spacedKeywordAt (keyword : String) (i : Nat) : Option Bool := do
  if isBlankByte (← byte? scanner.text i) then
    let start ← scanner.blanksEnd i
    let stop := start + keyword.utf8ByteSize
    if ← scanner.keywordAt keyword start then
      if stop = scanner.stop then return true
      else return isBlankByte (← byte? scanner.text stop)
    else return false
  else return false

def eatKeyword? (keyword : String) : Option (Option Scanner) := do
  if ← scanner.keywordAt keyword scanner.pos then
    return some { scanner with pos := scanner.pos + keyword.utf8ByteSize }
  else return none

def expectKeyword (keyword : String) : Checked Fault Scanner := do
  match ← scanner.eatKeyword? keyword with
  | some next => return next
  | none => throw (scanner.fault (.expected keyword))

/-! ## Identifiers -/

/-- A name in double quotes. It may hold everything but a double quote. -/
def identifier : Checked Fault (String × Scanner) := do
  let opened ← scanner.expect '"'
  match find? (← slice? opened.text opened.pos opened.stop) '"' with
  | none => throw (opened.fault .unterminatedIdentifier)
  | some length =>
      if length = 0 then throw (opened.fault .emptyIdentifier)
      else
        let name ← slice? opened.text opened.pos (opened.pos + length)
        return (name, { opened with pos := opened.pos + length + 1 })

/-! ## Values -/

/-- Where the scanner is in a value. -/
inductive State where
  | normal
  | quoted
  | parens (depth : Nat)
  deriving DecidableEq, Repr

/-- A value in `context` ends at an index. A semicolon ends every value. -/
def endsValue (context : ValueContext) (i : Nat) : Option Bool := do
  let byte ← byte? scanner.text i
  if byte = ';'.toUInt8 then return true
  else
    match context with
    | .tuple => return byte = ','.toUInt8 || byte = ')'.toUInt8
    | .setClause => if byte = ','.toUInt8 then return true else scanner.spacedKeywordAt "where" i
    | .whereClause => scanner.spacedKeywordAt "and" i

/-- The end of a value, and where the scanner is there; `resume` is where it was before the last quote.
In quotes two quotes stand for one and nothing else counts; in parentheses only quotes and parentheses do. -/
def valueEnd (context : ValueContext) (state resume : State) (i : Nat) : Option (State × Nat) :=
  if i < scanner.stop then do
    let byte ← byte? scanner.text i
    match state with
    | .quoted =>
        if byte = '\''.toUInt8 then
          if byte? scanner.text (i + 1) = some '\''.toUInt8 then valueEnd context .quoted resume (i + 2)
          else valueEnd context resume resume (i + 1)
        else valueEnd context .quoted resume (i + 1)
    | .parens depth =>
        if byte = '\''.toUInt8 then valueEnd context .quoted (.parens depth) (i + 1)
        else if byte = '('.toUInt8 then valueEnd context (.parens (depth + 1)) resume (i + 1)
        else if byte = ')'.toUInt8 then
          if depth = 1 then valueEnd context .normal resume (i + 1)
          else do valueEnd context (.parens (← minus? depth 1)) resume (i + 1)
        else valueEnd context (.parens depth) resume (i + 1)
    | .normal =>
        if ← scanner.endsValue context i then return (.normal, i)
        else if byte = '\''.toUInt8 then valueEnd context .quoted .normal (i + 1)
        else if byte = '('.toUInt8 then valueEnd context (.parens 1) resume (i + 1)
        else valueEnd context .normal resume (i + 1)
  else return (state, i)
termination_by scanner.stop - i

/-- The body of a text that is one quoted literal, from index `i` of the text on. -/
def bodyUpTo? (token : String) (i : Nat) : Option (Option String) :=
  if i < token.utf8ByteSize then do
    if (← byte? token i) = '\''.toUInt8 then
      if byte? token (i + 1) = some '\''.toUInt8 then bodyUpTo? token (i + 2)
      else if i = (← minus? token.utf8ByteSize 1) then return some (← slice? token 1 i)
      else return none
    else bodyUpTo? token (i + 1)
  else return none
termination_by token.utf8ByteSize - i

def literalBody? (token : String) : Option (Option String) :=
  if byte? token 0 = some '\''.toUInt8 then bodyUpTo? token 1 else return none

def classify (token : String) : Option ValueToken :=
  if token = "NULL" then return .null
  else if token = ValueToken.unsupportedText then return .unsupported
  else do
    match ← literalBody? token with
    | some body => return .literal body
    | none => return .expression token

/-- The value at the front, up to what ends it in its context. -/
def value (context : ValueContext) : Checked Fault (ValueToken × Scanner) := do
  let (state, i) ← scanner.valueEnd context .normal .normal scanner.pos
  let next := { scanner with pos := i }
  match state with
  | .quoted => throw (next.fault .unterminatedLiteral)
  | .parens depth => throw (next.fault (.unclosedParentheses depth))
  | .normal =>
      let token := Text.trimString (← slice? scanner.text scanner.pos i)
      if token = "" then throw (next.fault .missingValue)
      else return (← classify token, next)

end Scanner

end ChangeCapture.Bytes
