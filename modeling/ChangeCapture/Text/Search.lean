/-! # Searching text -/

namespace ChangeCapture.Text

/-- The word stands somewhere in the text. -/
def occursIn (word : List Char) : List Char → Bool
  | [] => word.isEmpty
  | c :: rest => word.isPrefixOf (c :: rest) || occursIn word rest

/-- The text in lower case, as far as it is ASCII. -/
def lowerAscii (text : List Char) : List Char := text.map Char.toLower

/-- The text in upper case, as far as it is ASCII. -/
def upperAscii (text : List Char) : List Char := text.map Char.toUpper

end ChangeCapture.Text
