import FiveStage.Text.Numeral
import FiveStage.Text.Visible

/-!
# Quoted text

A text between double quotes, in which every character that is not visible is written as an
escape.
-/

namespace FiveStage.Text

/-- A character inside double quotes. -/
def quotedChar (c : Char) : String :=
  if c = '"' then "\\\""
  else if c = '\\' then "\\\\"
  else if c = '\n' then "\\n"
  else if c = '\r' then "\\r"
  else if c = '\t' then "\\t"
  else if c = '\x00' then "\\0"
  else if isVisible c then String.singleton c
  else "\\u\x7b" ++ hexDigits c.toNat ++ "\x7d"

/-- A text between double quotes. -/
def quoted (s : List Char) : String :=
  "\"" ++ String.join (s.map quotedChar) ++ "\""

end FiveStage.Text
