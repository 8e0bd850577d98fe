import CallMigration.Json.Basic
import CallMigration.Utf8

/-!
# Reports

What became of the files that a run visited.

## Main Definitions

* `Status`, `Outcome` — what became of one file
* `Summary` — counts over a run
* `Report` — a whole run, without the files that needed no change

## Design Notes

The counts of a summary are words of 64 bits.
-/

namespace CallMigration

/-- What became of one file. -/
inductive Status
  /-- It holds no call to replace. -/
  | unchanged
  /-- Calls were replaced, or would be. -/
  | fixed (replacements : Nat)
  /-- It could not be read or written. -/
  | failed (error : String)
  deriving DecidableEq, Repr

/-- The name of a status in reports. -/
def Status.name : Status → String
  | unchanged => "unchanged"
  | fixed _ => "fixed"
  | failed _ => "failed"

/-- What a status shows besides its name. -/
def Status.members : Status → List (String × Json)
  | unchanged => []
  | fixed n => [("replacements", .int n)]
  | failed e => [("error", .str e)]

/-- A status as a JSON object. -/
def Status.toJson (s : Status) : Json := .obj (("status", .str s.name) :: s.members)

/-- What became of the file at a path. -/
structure Outcome where
  path : Bytes
  status : Status
  deriving DecidableEq, Repr

namespace Outcome

/-- The path as it is shown. -/
def shownPath (o : Outcome) : String := Utf8.decodeLossy o.path

/-- Whether calls were replaced, or would be. -/
def isFixed (o : Outcome) : Bool :=
  match o.status with
  | .fixed _ => true
  | _ => false

/-- Whether the file could not be read or written. -/
def isFailed (o : Outcome) : Bool :=
  match o.status with
  | .failed _ => true
  | _ => false

/-- An outcome as a JSON object: the path beside the members of the status. -/
def toJson (o : Outcome) : Json :=
  .obj (("path", .str o.shownPath) :: ("status", .str o.status.name) :: o.status.members)

end Outcome

/-- Counts over a run. -/
structure Summary where
  scanned : UInt64 := 0
  changed : UInt64 := 0
  failed : UInt64 := 0
  replacements : UInt64 := 0
  deriving DecidableEq, Repr

namespace Summary

/-- Counts one more outcome. -/
def record (s : Summary) (o : Outcome) : Summary :=
  match o.status with
  | .unchanged => { s with scanned := s.scanned + 1 }
  | .fixed n =>
    { s with
      scanned := s.scanned + 1
      changed := s.changed + 1
      replacements := s.replacements + UInt64.ofNat n }
  | .failed _ => { s with scanned := s.scanned + 1, failed := s.failed + 1 }

/-- A summary as a JSON object. -/
def toJson (s : Summary) : Json :=
  .obj [("scanned", .int s.scanned.toNat), ("changed", .int s.changed.toNat),
    ("failed", .int s.failed.toNat), ("replacements", .int s.replacements.toNat)]

end Summary

/-- A whole run. -/
structure Report where
  root : Bytes
  dryRun : Bool
  /-- The files that were changed, would be, or failed. -/
  files : List Outcome := []
  summary : Summary := {}
  deriving DecidableEq, Repr

namespace Report

/-- Adds one more outcome. -/
def record (r : Report) (o : Outcome) : Report :=
  { r with
    summary := r.summary.record o
    files := if o.status = .unchanged then r.files else r.files ++ [o] }

/-- The report of outcomes in their order. -/
def ofOutcomes (root : Bytes) (dryRun : Bool) (outcomes : List Outcome) : Report :=
  outcomes.foldl record { root := root, dryRun := dryRun }

/-- The paths of the files that failed. -/
def failedPaths (r : Report) : List String :=
  (r.files.filter Outcome.isFailed).map Outcome.shownPath

/-- The members of a report as a JSON object. -/
def members (r : Report) : List (String × Json) :=
  [("root", .str (Utf8.decodeLossy r.root)), ("dry_run", .bool r.dryRun),
    ("files", .arr (r.files.map Outcome.toJson)), ("summary", r.summary.toJson)]

/-- A report as a JSON object. -/
def toJson (r : Report) : Json := .obj r.members

end Report

end CallMigration
