import ChangeCapture.Text.Integer
import ChangeCapture.Text.Printable

/-! # Escaped text -/

namespace ChangeCapture.Text

/-- Which characters are escaped besides controls, backslashes and what cannot be shown. -/
structure EscapeRule where
  singleQuote : Bool
  doubleQuote : Bool
  combining : Bool

/-- A character that is written out as such or by an escape. -/
def escapeChar (rule : EscapeRule) (c : Char) : List Char :=
  if c = '\x00' then ['\\', '0']
  else if c = '\t' then ['\\', 't']
  else if c = '\r' then ['\\', 'r']
  else if c = '\n' then ['\\', 'n']
  else if c = '\\' then ['\\', '\\']
  else if c = '"' ∧ rule.doubleQuote then ['\\', '"']
  else if c = '\'' ∧ rule.singleQuote then ['\\', '\'']
  else if rule.combining && isCombining c then codePoint c
  else if isPrintable c then [c]
  else codePoint c
where
  codePoint (c : Char) : List Char := ['\\', 'u', '\x7b'] ++ lowerHex c.toNat ++ ['\x7d']

/-- A character in single quotes; a double quote stands as it is. -/
def quotedChar (c : Char) : String :=
  String.ofList (['\''] ++ escapeChar ⟨true, false, true⟩ c ++ ['\''])

/-- A text in double quotes; a single quote stands as it is. -/
def quoted (text : String) : String :=
  String.ofList (['"'] ++ text.toList.flatMap (escapeChar ⟨false, true, true⟩) ++ ['"'])

/-- A text without quotes around it. Both kinds of quote are escaped, and a combining mark only where
the text begins with it. -/
def escaped (text : String) : String :=
  match text.toList with
  | [] => ""
  | first :: rest =>
      String.ofList (escapeChar ⟨true, true, true⟩ first ++
        rest.flatMap (escapeChar ⟨true, true, false⟩))

end ChangeCapture.Text
