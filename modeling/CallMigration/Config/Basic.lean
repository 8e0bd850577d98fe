import CallMigration.Json.Basic
import CallMigration.Path
import CallMigration.Rule.Apply

/-!
# Configurations

What a run needs to know besides the rule.

## Main Definitions

* `FailurePolicy` — what a run does about a file that fails
* `Config` — where to look, what to leave out, and how to go about it
* `Config.toJson` — a configuration as a JSON object
-/

namespace CallMigration

/-- What a run does about a file that cannot be read or written. -/
inductive FailurePolicy
  /-- It stops there. -/
  | abort
  /-- It records the failure and goes on. -/
  | keepGoing
  deriving DecidableEq, Repr

/-- The name of a policy in configurations. -/
def FailurePolicy.name : FailurePolicy → String
  | abort => "abort"
  | keepGoing => "continue"

/-- What a run needs to know besides the rule. A configuration that names nothing scans `.dart`
files below `lib`. -/
structure Config where
  /-- The directory to scan, with `~` for the home directory. -/
  root : String := "lib"
  /-- The extension of the files to visit. -/
  extension : String := "dart"
  mode : Mode := .shallow
  onError : FailurePolicy := .abort
  /-- Whether files are left as they are. -/
  dryRun : Bool := false
  /-- Names of directories that are left out at any depth. -/
  skipDirs : List String := []
  /-- Names of directories that are left out directly below the root. -/
  rootOnlySkipDirs : List String := []
  /-- Globs of relative paths that are left out. -/
  exclude : List String := []
  deriving DecidableEq, Repr

namespace Config

/-- The directory to scan as a path. -/
def rootPath (home : Bytes) (c : Config) : Bytes := Path.expandHome home (Bytes.ofString c.root)

/-! ### Fields -/

/-- The fields of a configuration. -/
inductive Field
  | root
  | extension
  | mode
  | onError
  | dryRun
  | skipDirs
  | rootOnlySkipDirs
  | exclude
  deriving DecidableEq, Repr

namespace Field

/-- The key of a field. -/
def key : Field → String
  | root => "root"
  | extension => "extension"
  | mode => "mode"
  | onError => "on_error"
  | dryRun => "dry_run"
  | skipDirs => "skip_dirs"
  | rootOnlySkipDirs => "root_only_skip_dirs"
  | exclude => "exclude"

/-- All fields, in the order that a configuration without keys has. -/
def all : List Field :=
  [root, extension, mode, onError, dryRun, skipDirs, rootOnlySkipDirs, exclude]

/-- The field of a key. -/
def ofKey? (key : String) : Option Field := all.find? fun f => f.key == key

theorem mem_all (f : Field) : f ∈ all := by cases f <;> decide

theorem ofKey?_key (f : Field) : ofKey? f.key = some f := by cases f <;> rfl

end Field

/-- The value of a field. -/
def field (c : Config) : Field → Json
  | .root => .str c.root
  | .extension => .str c.extension
  | .mode => .str c.mode.name
  | .onError => .str c.onError.name
  | .dryRun => .bool c.dryRun
  | .skipDirs => .strings c.skipDirs
  | .rootOnlySkipDirs => .strings c.rootOnlySkipDirs
  | .exclude => .strings c.exclude

/-- A configuration as a JSON object. -/
def toJson (c : Config) : Json := .obj (Field.all.map fun f => (f.key, c.field f))

end Config

end CallMigration
