import CallMigration.Error
import CallMigration.Volume.Basic

/-!
# Text files

Whole texts are read and overwritten; each failure is an error that names the operation and the
path.

## Main Definitions

* `Volume.readText` — the UTF-8 text that a path leads to
* `Volume.overwriteText` — the attempt to replace it
-/

namespace CallMigration

namespace Volume

/-- The place of an error: an operation and a path. -/
def placeOf (operation : String) (path : Bytes) : Option String :=
  some (operation ++ " " ++ Utf8.decodeLossy path)

/-- The UTF-8 text that a path leads to. A text of other bytes is refused with the length of its
longest well-formed beginning. -/
def readText (disk : Disk) (v : Volume) (path : Bytes) : Except Error Bytes :=
  match v.read disk path with
  | .error cause => .error (.io cause.text (placeOf "read" path))
  | .ok t =>
    match Utf8.invalidAt? t with
    | some n => .error (.io ("not valid UTF-8 at byte " ++ toString n) (placeOf "read" path))
    | none => .ok t

/-- Replaces the text that a path leads to. -/
def overwriteText (disk : Disk) (v : Volume) (path content : Bytes) : Option Error × Volume :=
  let (cause?, v) := v.overwrite disk path content
  (cause?.map fun cause => .io cause.text (placeOf "write" path), v)

@[simp] theorem tree_overwriteText (disk : Disk) (v : Volume) (path content : Bytes) :
    (v.overwriteText disk path content).2.tree = v.tree := by
  simp [overwriteText]

end Volume

end CallMigration
