import ChangeCapture.Text.Hex
import ChangeCapture.Text.Utf16

/-! # JSON text -/

namespace ChangeCapture.Json

/-! ## Syntax trees -/

/-- A number as it is written. -/
structure NumberToken where
  negative : Bool
  whole : List Char
  fraction : List Char
  /-- The digits of the exponent and whether it is negative. -/
  exponent : Option (Bool × List Char)
  deriving DecidableEq, Repr

/-- A JSON text before its numbers and strings are interpreted. A string with an unpaired surrogate has
no value. -/
inductive Tree where
  | null
  | bool (value : Bool)
  | number (token : NumberToken)
  | string (value : Option String)
  | array (items : List Tree)
  | object (members : List (Option String × Tree))

/-! ## Blanks -/

def isSpace (c : Char) : Bool := c == ' ' || c == '\t' || c == '\n' || c == '\r'

def skipSpace (text : List Char) : List Char := text.dropWhile isSpace

/-! ## Numbers -/

/-- One or more digits. -/
def readDigits? (text : List Char) : Option (List Char × List Char) :=
  match text.span Char.isDigit with
  | ([], _) => none
  | parts => some parts

/-- An integer without needless leading zeros. -/
def readWhole? : List Char → Option (List Char × List Char)
  | '0' :: rest =>
      match rest with
      | c :: _ => if c.isDigit then none else some (['0'], rest)
      | [] => some (['0'], [])
  | text => readDigits? text

def readFraction? : List Char → Option (List Char × List Char)
  | '.' :: rest => readDigits? rest
  | text => some ([], text)

def readExponent? : List Char → Option (Option (Bool × List Char) × List Char)
  | [] => some (none, [])
  | c :: rest =>
      if c = 'e' ∨ c = 'E' then
        let (negative, digits) := match rest with
          | '+' :: digits => (false, digits)
          | '-' :: digits => (true, digits)
          | digits => (false, digits)
        (readDigits? digits).map fun (digits, rest) => (some (negative, digits), rest)
      else some (none, c :: rest)

def readNumber? (text : List Char) : Option (NumberToken × List Char) := do
  let (negative, text) := match text with
    | '-' :: rest => (true, rest)
    | _ => (false, text)
  let (whole, text) ← readWhole? text
  let (fraction, text) ← readFraction? text
  let (exponent, text) ← readExponent? text
  return ({ negative, whole, fraction, exponent }, text)

/-! ## Strings -/

/-- What a character after a backslash stands for. -/
def escapedChar? : Char → Option Char
  | '"' => some '"'
  | '\\' => some '\\'
  | '/' => some '/'
  | 'b' => some '\x08'
  | 'f' => some '\x0c'
  | 'n' => some '\n'
  | 'r' => some '\r'
  | 't' => some '\t'
  | _ => none

/-- The UTF-16 code units of a string up to its closing quote. -/
def readUnits? : List Char → Option (List Nat × List Char)
  | [] => none
  | '"' :: rest => some ([], rest)
  | '\\' :: 'u' :: a :: b :: c :: d :: rest => do
      let unit ← Text.Hex.readNumber? [a, b, c, d]
      let (units, rest) ← readUnits? rest
      return (unit :: units, rest)
  | '\\' :: c :: rest => do
      let escaped ← escapedChar? c
      let (units, rest) ← readUnits? rest
      return (Text.Utf16.encodeChar escaped ++ units, rest)
  | c :: rest =>
      if c.toNat < 0x20 then none
      else do
        let (units, rest) ← readUnits? rest
        return (Text.Utf16.encodeChar c ++ units, rest)

/-- A string after its opening quote. -/
def readString? (text : List Char) : Option (Option String × List Char) :=
  (readUnits? text).map fun (units, rest) => ((Text.Utf16.decode? units).map String.ofList, rest)

/-! ## Values -/

/-- The text after a word it begins with. -/
def readWord? (word : List Char) (text : List Char) : Option (List Char) :=
  if text.take word.length = word then some (text.drop word.length) else none

mutual

/-- A value after any blanks. -/
def readTree : Nat → List Char → Option (Tree × List Char)
  | 0, _ => none
  | fuel + 1, text =>
      match skipSpace text with
      | [] => none
      | '"' :: rest => (readString? rest).map fun (s, rest) => (.string s, rest)
      | '[' :: rest =>
          match skipSpace rest with
          | ']' :: rest => some (.array [], rest)
          | _ => (readItems fuel rest).map fun (items, rest) => (.array items, rest)
      | '\x7b' :: rest =>
          match skipSpace rest with
          | '\x7d' :: rest => some (.object [], rest)
          | _ => (readMembers fuel rest).map fun (members, rest) => (.object members, rest)
      | c :: rest =>
          if c = 'n' then (readWord? ['u', 'l', 'l'] rest).map fun rest => (.null, rest)
          else if c = 't' then (readWord? ['r', 'u', 'e'] rest).map fun rest => (.bool true, rest)
          else if c = 'f' then
            (readWord? ['a', 'l', 's', 'e'] rest).map fun rest => (.bool false, rest)
          else (readNumber? (c :: rest)).map fun (token, rest) => (.number token, rest)

/-- One or more items up to the closing bracket. -/
def readItems : Nat → List Char → Option (List Tree × List Char)
  | 0, _ => none
  | fuel + 1, text => do
      let (item, rest) ← readTree fuel text
      match skipSpace rest with
      | ',' :: rest =>
          let (items, rest) ← readItems fuel rest
          return (item :: items, rest)
      | ']' :: rest => return ([item], rest)
      | _ => none

/-- One or more members up to the closing brace. -/
def readMembers : Nat → List Char → Option (List (Option String × Tree) × List Char)
  | 0, _ => none
  | fuel + 1, text => do
      match skipSpace text with
      | '"' :: rest =>
          let (name, rest) ← readString? rest
          match skipSpace rest with
          | ':' :: rest =>
              let (value, rest) ← readTree fuel rest
              match skipSpace rest with
              | ',' :: rest =>
                  let (members, rest) ← readMembers fuel rest
                  return ((name, value) :: members, rest)
              | '\x7d' :: rest => return ([(name, value)], rest)
              | _ => none
          | _ => none
      | _ => none

end

/-- The tree of a text that holds one value and nothing else but blanks. Every value takes at least
one character, so the fuel suffices. -/
def Tree.parse? (text : String) : Option Tree :=
  let chars := text.toList
  match readTree (chars.length + 1) chars with
  | some (tree, rest) => if (skipSpace rest).isEmpty then some tree else none
  | none => none

end ChangeCapture.Json
