/-
# Quoted texts

How a message quotes a text: between double quotes, with backslashes in front of quotes and
backslashes, letters for the common controls, and the number of every other character that has no
form of its own.
-/
import ApiTypings.Text.Unprintable

namespace ApiTypings.Text

/-- A number in lowercase hexadecimal digits. -/
def hexText (n : Nat) : String := .ofList (Nat.toDigits 16 n)

/-- A character inside a quoted text. -/
def quotedChar (c : Char) : String :=
  if c = '"' then "\\\""
  else if c = '\\' then "\\\\"
  else if c = '\n' then "\\n"
  else if c = '\r' then "\\r"
  else if c = '\t' then "\\t"
  else if c.toNat = 0 then "\\0"
  else if isUnprintable c then "\\u\x7b" ++ hexText c.toNat ++ "\x7d"
  else c.toString

/-- A text between double quotes. -/
def quoted (s : String) : String := "\"" ++ String.join (s.toList.map quotedChar) ++ "\""

/-- Texts, quoted, as a list in square brackets. -/
def quotedList (ss : List String) : String := "[" ++ ", ".intercalate (ss.map quoted) ++ "]"

end ApiTypings.Text
