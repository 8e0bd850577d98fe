import CallMigration.Paren
import CallMigration.Rule.Edit

/-!
# Applying a rule

The calls of a text are found from left to right and replaced in one of two modes.

In shallow mode a call ends at the first `)` on its line. Calls do not overlap, so the search goes
on behind this `)`, and one byte later where no `)` follows on the line.

In balanced mode a call ends at the `)` that matches its opening parenthesis, on the same line, and
the argument of a replaced call is edited as well. A call that is not closed on its line stays as it
is, and the search goes on behind its opening parenthesis.

## Main Definitions

* `Mode` — how the end of a call is found
* `Rule.shallow` — the shallow edit of a text
* `Rule.balanced` — the balanced edit of a text
* `Rule.apply` — the edit of a text in a mode
-/

namespace CallMigration

/-- How the end of a call is found. -/
inductive Mode
  /-- At the first `)` on the line. -/
  | shallow
  /-- At the matching `)` on the line. -/
  | balanced
  deriving DecidableEq, Repr

/-- The name of a mode in configurations and reports. -/
def Mode.name : Mode → String
  | shallow => "shallow"
  | balanced => "balanced"

namespace Rule

/-- Replaces each call up to the first `)` on its line. -/
def shallow (r : Rule) (t : Bytes) : Edit :=
  match _hcut : Bytes.cut? r.trigger t with
  | none => .kept t
  | some (before, rest) =>
    match _hclose : Paren.first? rest with
    | some i =>
      .kept before ++ (.call r (.kept (rest.take i)) ++ shallow r (rest.drop (i + 1)))
    | none => .kept (before ++ [Bytes.dot]) ++ shallow r (r.triggerTail ++ rest)
  termination_by t.length
  decreasing_by
    · have := Bytes.length_add_le_of_cut? _hcut
      have := r.length_trigger_pos
      simp only [List.length_drop]
      omega
    · have := Bytes.length_add_le_of_cut? _hcut
      simp only [trigger_eq, List.length_cons, List.length_append] at this ⊢
      omega

/-- Replaces each call that is closed on its line, and the calls in its argument. -/
def balanced (r : Rule) (t : Bytes) : Edit :=
  match _hcut : Bytes.cut? r.trigger t with
  | none => .kept t
  | some (before, rest) =>
    match _hclose : Paren.matching? rest with
    | some i =>
      .kept before ++ (.call r (balanced r (rest.take i)) ++ balanced r (rest.drop (i + 1)))
    | none => .kept (before ++ r.trigger) ++ balanced r rest
  termination_by t.length
  decreasing_by
    all_goals
      have := Bytes.length_add_le_of_cut? _hcut
      have := r.length_trigger_pos
      grind [List.length_drop, List.length_take]

/-- The edit of a text in a mode. -/
def apply (r : Rule) : Mode → Bytes → Edit
  | .shallow, t => r.shallow t
  | .balanced, t => r.balanced t

end Rule

end CallMigration
