import CallMigration.Bytes

/-!
# Substitution rules

A rule turns calls `.method(ARG)` into `.replacement(label: ARG)`.

## Main Definitions

* `Rule` — a method to look for, and the method and label that replace it
* `Rule.trigger` — the bytes that open a call
* `Rule.head` — the bytes that open its replacement
* `Rule.render` — a whole replaced call

## Design Notes

The names may be any texts. The trigger starts with a dot and ends with a parenthesis, so it is
never empty.
-/

namespace CallMigration

/-- A substitution rule. -/
structure Rule where
  /-- The method whose calls are replaced. -/
  method : String
  /-- The method called instead. -/
  replacement : String
  /-- The name that the argument gets. -/
  label : String
  deriving DecidableEq, Repr

namespace Rule

/-- The built-in rule: `.withOpacity(x)` becomes `.withValues(alpha: x)`. -/
def withOpacity : Rule := ⟨"withOpacity", "withValues", "alpha"⟩

/-- The bytes that open a call: `.method(`. -/
def trigger (r : Rule) : Bytes := Bytes.dot :: (Bytes.ofString r.method ++ [Bytes.openParen])

/-- The trigger without its dot. -/
def triggerTail (r : Rule) : Bytes := Bytes.ofString r.method ++ [Bytes.openParen]

/-- The bytes that open a replaced call: `.replacement(label: `. -/
def head (r : Rule) : Bytes := Bytes.ofString ("." ++ r.replacement ++ "(" ++ r.label ++ ": ")

/-- A replaced call: `.replacement(label: ARG)`. -/
def render (r : Rule) (argument : Bytes) : Bytes := r.head ++ (argument ++ [Bytes.closeParen])

theorem trigger_eq (r : Rule) : r.trigger = Bytes.dot :: r.triggerTail := rfl

theorem length_trigger_pos (r : Rule) : 0 < r.trigger.length := by simp [trigger]

end Rule

end CallMigration
