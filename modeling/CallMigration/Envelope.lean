import CallMigration.Error
import CallMigration.Json.Printer

/-!
# The JSON envelope

With JSON output a run ends with one object: whether it succeeded, and either its data or its
error.

## Main Definitions

* `Envelope.ofData` — the envelope of data and an exit code
* `Envelope.ofError` — the envelope of an error
* `Envelope.exitCode` — the exit code that goes with a result

## Design Notes

The members of the envelope keep their order, those of the data and of the details are sorted.
An error without hints has no member for them. A run that ended with data but another exit code
than zero counts as unsuccessful and still has its data.
-/

namespace CallMigration

namespace Envelope

/-- The envelope of data and an exit code. -/
def ofData (data : Json) (exitCode : Int) : Json :=
  .obj [("success", .bool (exitCode = 0)), ("data", data.sorted)]

/-- The hints of an error, if it has any. -/
def hintMembers : List String → List (String × Json)
  | [] => []
  | hints => [("hints", .arr (hints.map fun hint => .obj [("message", .str hint)]))]

/-- The envelope of an error. -/
def ofError (e : Error) : Json :=
  .obj [("success", .bool false),
    ("error", .obj ([("code", .str e.code.text), ("message", .str e.message),
      ("details", e.details.sorted)] ++ hintMembers e.hints))]

/-- The exit code that goes with a result. -/
def exitCode : Except Error (Json × Int) → Int
  | .ok (_, code) => code
  | .error e => e.code.exitCode

/-- The envelope of a result. -/
def ofResult : Except Error (Json × Int) → Json
  | .ok (data, code) => ofData data code
  | .error e => ofError e

/-- The line that a result is printed as. -/
def line (result : Except Error (Json × Int)) : String := (ofResult result).pretty

end Envelope

end CallMigration
