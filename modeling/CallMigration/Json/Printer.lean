import CallMigration.Json.Basic

/-!
# Printing JSON

The form for reading: each item and member on a line of its own, two spaces for each level,
nothing between the brackets of an empty array or object.

## Main Definitions

* `Json.escapedChar` — how a string shows one character
* `Json.quotedChars` — a string between double quotes
* `Json.prettyChars` — a value from a given level on
* `Json.pretty` — a whole value
-/

namespace CallMigration

namespace Json

/-- Four lower-case hexadecimal digits. -/
def fourHex (n : Nat) : List Char :=
  [n / 4096, n / 256, n / 16, n].map fun k => Nat.digitChar (k % 16)

/-- Quotes, backslashes and characters below the space are escaped. Five of the latter have a
letter, the others are shown by their number. -/
def escapedChar (c : Char) : List Char :=
  if c = '"' then ['\\', '"']
  else if c = '\\' then ['\\', '\\']
  else if c = '\x08' then ['\\', 'b']
  else if c = '\t' then ['\\', 't']
  else if c = '\n' then ['\\', 'n']
  else if c = '\x0c' then ['\\', 'f']
  else if c = '\r' then ['\\', 'r']
  else if c.toNat < 0x20 then '\\' :: 'u' :: fourHex c.toNat
  else [c]

/-- A string between double quotes. -/
def quotedChars (s : String) : List Char :=
  '"' :: (s.toList.flatMap escapedChar ++ ['"'])

/-- The start of a line at a level. -/
def lineStart (level : Nat) : List Char := '\n' :: List.replicate (2 * level) ' '

mutual

/-- A value whose own line is at `level`. -/
def prettyChars (level : Nat) : Json → List Char
  | null => "null".toList
  | bool true => "true".toList
  | bool false => "false".toList
  | int n => (toString n).toList
  | str s => quotedChars s
  | arr [] => ['[', ']']
  | arr (item :: rest) =>
    '[' :: (lineStart (level + 1) ++ (prettyChars (level + 1) item ++
      prettyItems (level + 1) rest)) ++ (lineStart level ++ [']'])
  | obj [] => ['{', '}']
  | obj ((key, value) :: rest) =>
    '{' :: (lineStart (level + 1) ++ (quotedChars key ++ (':' :: ' ' ::
      prettyChars (level + 1) value) ++ prettyMembers (level + 1) rest)) ++
      (lineStart level ++ ['}'])

/-- The items behind the first. -/
def prettyItems (level : Nat) : List Json → List Char
  | [] => []
  | item :: rest =>
    ',' :: (lineStart level ++ (prettyChars level item ++ prettyItems level rest))

/-- The members behind the first. -/
def prettyMembers (level : Nat) : List (String × Json) → List Char
  | [] => []
  | (key, value) :: rest =>
    ',' :: (lineStart level ++ (quotedChars key ++ (':' :: ' ' ::
      prettyChars level value) ++ prettyMembers level rest))

end

/-- A whole value, without an end of line. -/
def pretty (j : Json) : String := String.ofList (prettyChars 0 j)

end Json

end CallMigration
