/-! # Quoted literals -/

namespace ChangeCapture.Literal

/-- Writes each quote of a text twice. -/
def escape : List Char → List Char
  | [] => []
  | c :: rest => if c = '\'' then '\'' :: '\'' :: escape rest else c :: escape rest

/-- Replaces each two quotes by one, from left to right. A quote that stands alone stays. -/
def unescape : List Char → List Char
  | [] => []
  | '\'' :: '\'' :: rest => '\'' :: unescape rest
  | c :: rest => c :: unescape rest

def unescapeString (text : String) : String := String.ofList (unescape text.toList)

/-- The text up to the first quote that stands alone, with each two quotes before it read as one. -/
def readBody? : List Char → Option (List Char)
  | [] => none
  | '\'' :: '\'' :: rest => (readBody? rest).map ('\'' :: ·)
  | '\'' :: _ => some []
  | c :: rest => (readBody? rest).map (c :: ·)

end ChangeCapture.Literal
