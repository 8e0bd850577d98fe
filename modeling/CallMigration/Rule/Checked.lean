import CallMigration.Error
import CallMigration.Rule.Basic

/-!
# Rules as patterns

A rule is described to the user by a pattern over texts and the template of what replaces a match.
Whoever makes a rule from names of his own has it refused if its pattern is too large.

## Main Definitions

* `Rule.pattern`, `Rule.template` — the rule as it is described to the user
* `Rule.make` — the rule for three names, or the error of a method without room

## Design Notes

A matcher turns a pattern into a program and has room for programs of a limited size. Of the names
only the method is part of the pattern.
-/

namespace CallMigration

namespace Rule

/-! ### Descriptions -/

/-- The characters that have a meaning of their own in a pattern. -/
def isPatternSign (c : Char) : Bool := c ∈ "\\.+*?()|[]\x7b\x7d^$#&-~".toList

/-- A name as a pattern of itself: a backslash stands before each sign. -/
def escaped (name : String) : String :=
  String.ofList (name.toList.flatMap fun c => if isPatternSign c then ['\\', c] else [c])

/-- The calls that the rule replaces, as a pattern. -/
def pattern (r : Rule) : String := "\\." ++ escaped r.method ++ "\\((.*?)\\)"

/-- The replaced call, with `$1` for the argument. -/
def template (r : Rule) : String := "." ++ r.replacement ++ "(" ++ r.label ++ ": $1)"

/-! ### The size of a pattern -/

/-- The largest pattern program, in bytes. -/
def programLimit : Nat := 10485760

/-- The size of the program that matches a call of `method` from its end to its start, which is
larger than the one from start to end: a state of 32 bytes for each byte of the method and for each
of 38 steps around it, most of them for a character of the argument byte by byte, and 64 bytes for
the branches between them. -/
def programSize (method : String) : Nat := 32 * (method.utf8ByteSize + 38) + 64

/-- The rule for three names. A method is refused when its pattern has no room. -/
def make (method replacement label : String) : Except Error Rule :=
  if programSize method ≤ programLimit then .ok ⟨method, replacement, label⟩
  else
    .error (.unexpected ("invalid trigger pattern: Compiled regex exceeds size limit of " ++
      toString programLimit ++ " bytes."))

end Rule

end CallMigration
