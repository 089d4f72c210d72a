/-
Text in double quotes, with everything that could be misread escaped.

Messages quote the text that they complain about. A quote or a backslash is
preceded by a backslash, the usual blanks have their one-letter escapes, and a
character without a shape of its own is given by its code point.
-/
import TxRelay.Text.Printable

set_option autoImplicit false

namespace TxRelay.Text

/-- A code point in lower-case hexadecimal between braces. -/
def codePoint (c : Char) : String :=
  "\\u\x7b" ++ String.ofList (Nat.toDigits 16 c.toNat) ++ "\x7d"

/-- A character as it stands inside quotes. -/
def escape (c : Char) : String :=
  if c = '"' then "\\\""
  else if c = '\\' then "\\\\"
  else if c = '\n' then "\\n"
  else if c = '\r' then "\\r"
  else if c = '\t' then "\\t"
  else if c = '\x00' then "\\0"
  else if isPrintable c then c.toString
  else codePoint c

/-- The text in double quotes. -/
def quoted (s : String) : String :=
  "\"" ++ String.join (s.toList.map escape) ++ "\""

end TxRelay.Text
