import CallMigration.Json.Basic

/-!
# Errors

## Main Definitions

* `ErrorCode` — the kinds of error, with their text and the exit code they lead to
* `Error` — an error with the details that a report shows
* `Error.display` — the error in one line
* `Error.lines` — the lines that tell the user about it

## Design Notes

The details are a JSON object, and the one-line form reads the cause (`error`) and the place
(`context`) out of it: what a report shows and what the line says cannot differ.
-/

namespace CallMigration

/-- The kinds of error. -/
inductive ErrorCode
  /-- A configuration that is no JSON text of the right shape. -/
  | invalidJson
  /-- A configuration with a value that is not allowed. -/
  | invalidValue
  /-- A run that finished, with files that failed. -/
  | filesFailed
  /-- The system refused to read or write. -/
  | io
  /-- A value could not be shown as JSON. -/
  | json
  /-- Anything else. -/
  | unexpected
  deriving DecidableEq, Repr

namespace ErrorCode

/-- The text of a kind of error in reports. -/
def text : ErrorCode → String
  | invalidJson => "config.invalid_json"
  | invalidValue => "config.invalid_value"
  | filesFailed => "rewrite.files_failed"
  | io => "internal.io_error"
  | json => "internal.json_error"
  | unexpected => "internal.unexpected"

/-- The exit code of a program that ends with an error. -/
def exitCode : ErrorCode → Int
  | invalidJson => 2
  | invalidValue => 2
  | filesFailed => 3
  | io => 1
  | json => 1
  | unexpected => 1

end ErrorCode

/-- An error. -/
structure Error where
  code : ErrorCode
  /-- What went wrong, without cause and place. -/
  message : String
  /-- What a report shows besides. -/
  details : Json
  /-- Advice for the user. -/
  hints : List String := []
  deriving Repr

namespace Error

/-! ### The kinds of error -/

/-- A detail that is left out when there is none. -/
def optional (key : String) : Option String → List (String × Json)
  | none => []
  | some s => [(key, .str s)]

/-- The configuration at `path` cannot be read as JSON. -/
def invalidJson (path error : String) : Error :=
  ⟨.invalidJson, "Invalid JSON in configuration",
    .obj [("error", .str error), ("path", .str path)], []⟩

/-- A configuration has a value that is not allowed. -/
def invalidValue (key : String) (value : Option String) (problem : String) : Error :=
  ⟨.invalidValue, "Invalid configuration value",
    .obj (("key", .str key) :: ("problem", .str problem) :: optional "value" value), []⟩

/-- Some files could not be changed. -/
def filesFailed (files : List String) : Error :=
  ⟨.filesFailed, toString files.length ++ " file(s) could not be rewritten",
    .obj [("files", .strings files)],
    ["Check file permissions and encoding, then re-run; fixed files are skipped"]⟩

/-- The system refused to read or write. -/
def io (error : String) (context : Option String) : Error :=
  ⟨.io, "IO error", .obj (optional "context" context ++ [("error", .str error)]), []⟩

/-- A value could not be shown as JSON. -/
def json (error : String) (context : Option String) : Error :=
  ⟨.json, "JSON error", .obj (optional "context" context ++ [("error", .str error)]), []⟩

/-- Anything else. -/
def unexpected (error : String) : Error :=
  ⟨.unexpected, "Unexpected error", .obj [("error", .str error)], []⟩

/-- The error with one more hint. -/
def withHint (e : Error) (hint : String) : Error := { e with hints := e.hints ++ [hint] }

/-! ### What the user sees -/

/-- The string under a key of the details. -/
def detail? (e : Error) (key : String) : Option String := (e.details.get? key).bind Json.string?

/-- The error in one line: what went wrong, the cause, and the place. -/
def display (e : Error) : String :=
  e.message ++ ((e.detail? "error").map fun cause => ": " ++ cause).getD "" ++
    ((e.detail? "context").map fun place => " (" ++ place ++ ")").getD ""

/-- The files that the details list. -/
def files (e : Error) : List String :=
  (((e.details.get? "files").bind Json.items?).getD []).filterMap Json.string?

/-- The lines that tell the user about an error: the error, its files, its hints. -/
def lines (e : Error) : List String :=
  ("Error: " ++ e.display) :: (e.files.map ("  " ++ ·) ++ e.hints.map ("hint: " ++ ·))

end Error

end CallMigration
