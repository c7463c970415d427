/-
  Ferry.Text.Quoted

  A text between double quotes with everything invisible written out: quotes and backslashes behind
  a backslash, the usual control characters by letter, any other character that would not show on
  its own by its code point.
-/
import Ferry.Text.Printable

namespace Ferry.Text

/-- The code point of a character in hexadecimal between braces. -/
def codePointEscape (c : Char) : String :=
  "\\u\x7b" ++ String.ofList (Nat.toDigits 16 c.toNat) ++ "\x7d"

/-- How one character is written inside double quotes. -/
def quotedChar (c : Char) : String :=
  if c = '\x00' then "\\0"
  else if c = '\t' then "\\t"
  else if c = '\r' then "\\r"
  else if c = '\n' then "\\n"
  else if c = '"' then "\\\""
  else if c = '\\' then "\\\\"
  else if isExtender c then codePointEscape c
  else if isPrintable c then c.toString
  else codePointEscape c

def quoted (text : String) : String :=
  "\"" ++ String.join (text.toList.map quotedChar) ++ "\""

end Ferry.Text
