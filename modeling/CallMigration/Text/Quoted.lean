import CallMigration.Text.Printable

/-!
# Quoted text

A string between double quotes, as messages show it.

## Main Definitions

* `Text.quotedChar` — how a quoted text shows one character
* `Text.quoted` — a string between double quotes
-/

namespace CallMigration

namespace Text

/-- A number in lower-case hexadecimal digits. -/
def hexadecimal (n : Nat) : String := String.ofList (Nat.toDigits 16 n)

/-- Quotes and backslashes are escaped, the usual controls have a letter, and any other character
that is not printable is shown by its number. -/
def quotedChar (c : Char) : String :=
  if c = '"' then "\\\""
  else if c = '\\' then "\\\\"
  else if c = '\n' then "\\n"
  else if c = '\r' then "\\r"
  else if c = '\t' then "\\t"
  else if c = '\x00' then "\\0"
  else if isPrintable c then c.toString
  else "\\u\x7b" ++ hexadecimal c.toNat ++ "\x7d"

/-- A string between double quotes, its characters shown by `quotedChar`. -/
def quoted (s : String) : String := "\"" ++ String.join (s.toList.map quotedChar) ++ "\""

end Text

end CallMigration
