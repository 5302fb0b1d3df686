import Briefing.Text.Digit
import Briefing.Text.Shown

/-!
# Quoted text

A text that a message quotes stands between double quotes on one line. Tab, line feed, carriage
return, NUL, backslash and the double quote have short escapes; every other character that cannot
be shown is written by its code point.
-/

namespace Briefing.Text

/-- A character as it stands in quoted text. -/
def quotedChar (c : Char) : List Char :=
  if c = '\x00' then ['\\', '0']
  else if c = '\t' then ['\\', 't']
  else if c = '\n' then ['\\', 'n']
  else if c = '\r' then ['\\', 'r']
  else if c = '\\' ∨ c = '"' then ['\\', c]
  else if isShown c then [c]
  else ['\\', 'u', '\x7b'] ++ hex c.toNat ++ ['\x7d']

/-- The text between double quotes, escaped. -/
def quoted (s : String) : String :=
  String.ofList ('"' :: s.toList.flatMap quotedChar ++ ['"'])

end Briefing.Text
