import CallMigration.Rule.Basic

/-!
# Edits

The outcome of editing a text: what it became, and how many calls were replaced. Edits of
consecutive pieces are joined with `++`.

## Main Definitions

* `Edit` — a text and a count of replacements
* `Edit.kept` — a piece that stays as it is
* `Edit.call` — a piece that is a replaced call, around the edit of its argument
-/

namespace CallMigration

/-- A text after editing, and the number of replacements in it. -/
structure Edit where
  text : Bytes
  replacements : Nat
  deriving DecidableEq, Repr

namespace Edit

/-- A piece that stays as it is. -/
def kept (t : Bytes) : Edit := ⟨t, 0⟩

/-- A replaced call around an edited argument. -/
def call (r : Rule) (argument : Edit) : Edit :=
  ⟨r.render argument.text, argument.replacements + 1⟩

instance : Append Edit := ⟨fun a b => ⟨a.text ++ b.text, a.replacements + b.replacements⟩⟩

@[simp] theorem text_kept (t : Bytes) : (kept t).text = t := rfl

@[simp] theorem replacements_kept (t : Bytes) : (kept t).replacements = 0 := rfl

@[simp] theorem text_call (r : Rule) (e : Edit) : (call r e).text = r.render e.text := rfl

@[simp] theorem replacements_call (r : Rule) (e : Edit) :
    (call r e).replacements = e.replacements + 1 := rfl

@[simp] theorem text_append (a b : Edit) : (a ++ b).text = a.text ++ b.text := rfl

@[simp] theorem replacements_append (a b : Edit) :
    (a ++ b).replacements = a.replacements + b.replacements := rfl

end Edit

end CallMigration
