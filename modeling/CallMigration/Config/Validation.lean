import CallMigration.Config.Basic
import CallMigration.Error
import CallMigration.Text.Blank

/-!
# Valid configurations

## Main Definitions

* `Config.Problem` — why a configuration is not valid
* `Config.normalExtension` — an extension without white space and leading dots
* `Config.check` — the configuration with its extension made normal, or its first problem
* `Config.validate` — the same with the problem as an error
-/

namespace CallMigration

namespace Config

/-- Why a configuration is not valid. -/
inductive Problem
  /-- Nothing is left of the extension. -/
  | noExtension (extension : String)
  /-- The root is blank. -/
  | noRoot (root : String)
  /-- A glob to leave out is blank. -/
  | noPattern (pattern : String)
  deriving DecidableEq, Repr

/-- The problem as an error. -/
def Problem.toError : Problem → Error
  | noExtension s => .invalidValue "extension" (some s) "Extension must not be empty"
  | noRoot s => .invalidValue "root" (some s) "Root directory must not be empty"
  | noPattern s => .invalidValue "exclude" (some s) "Exclude patterns must not be empty"

/-- Whether a string has nothing but white space. -/
def isBlank (s : String) : Bool := s.toList.all Text.isBlank

/-- An extension without the white space around it and then without the dots in front. -/
def normalExtension (s : String) : String :=
  String.ofList ((Text.trimChars s.toList).dropWhile (· == '.'))

/-- The configuration with its extension made normal, or its first problem. -/
def check (c : Config) : Except Problem Config :=
  if normalExtension c.extension = "" then .error (.noExtension c.extension)
  else if isBlank c.root then .error (.noRoot c.root)
  else
    match c.exclude.find? isBlank with
    | some p => .error (.noPattern p)
    | none => .ok { c with extension := normalExtension c.extension }

/-- The configuration with its extension made normal, or the error of its first problem. -/
def validate (c : Config) : Except Error Config :=
  match c.check with
  | .ok d => .ok d
  | .error p => .error p.toError

end Config

end CallMigration
