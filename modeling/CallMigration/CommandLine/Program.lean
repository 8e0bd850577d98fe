import CallMigration.CommandLine.Arguments
import CallMigration.Config.Reader
import CallMigration.Config.Validation
import CallMigration.Envelope
import CallMigration.Rule.Checked
import CallMigration.Run

/-!
# The program

What the program does for given arguments, and what it prints.

## Main Definitions

* `Arguments.resolve` — the configuration that the arguments ask for
* `Course` — a run with what it was asked for
* `Arguments.perform` — the run that the arguments ask for
* `Terminal` — what becomes of each text printed on standard output, and whether standard error is
  watched
* `Output` — exit code and texts of a whole program
* `Arguments.output` — what the program prints about a course
* `Command.execute` — the whole program

## Design Notes

The course does not know the terminal: whatever becomes of the output, the files are changed alike
and the exit code is the same. Nobody reading standard output any more counts as success; any other
failure to print is told on standard error.
-/

namespace CallMigration

/-! ### The course of the program -/

/-- The configuration that flags and options ask for, on top of another one. -/
def Arguments.applyTo (a : Arguments) (c : Config) : Config :=
  { c with
    root := ((a.root <|> a.path).getD c.root)
    extension := a.extension.getD c.extension
    mode := if a.balanced then .balanced else c.mode
    onError := if a.keepGoing then .keepGoing else c.onError
    dryRun := a.dryRun || c.dryRun
    exclude := c.exclude ++ a.exclude }

/-- The configuration that the arguments ask for: that of the file, if one is named, under the flags
and options, and valid. -/
def Arguments.resolve (a : Arguments) (host : Host) (v : Volume) : Except Error Config :=
  match a.config with
  | none => (a.applyTo {}).validate
  | some path =>
    match v.loadConfig host.disk (Bytes.ofString path) with
    | .error e => .error e
    | .ok c => (a.applyTo c).validate

/-- A run with what it was asked for. -/
structure Course where
  config : Config
  root : Bytes
  /-- The paths that the walk found. -/
  paths : List Bytes
  run : Run

/-- The run that the arguments ask for, unless they cannot be resolved. -/
def Arguments.perform (a : Arguments) (host : Host) (v : Volume) : Except Error Course :=
  match a.resolve host v with
  | .error e => .error e
  | .ok c =>
    .ok { config := c
          root := c.rootPath host.home
          paths := visitedPaths host c v
          run := migrate host .withOpacity c v }

namespace Course

/-- The report of a course. -/
def report (k : Course) : Except Error Report := k.run.report k.root k.config

/-- The line about a file that was fixed. -/
def notice? (k : Course) (o : Outcome) : Option String :=
  if o.isFixed then some ((if k.config.dryRun then "Would fix " else "Fixed ") ++ o.shownPath)
  else none

/-- The lines about the files that were fixed. -/
def notices (k : Course) : List String := k.run.outcomes.filterMap k.notice?

/-- The exit code of a run that was not stopped. -/
def exitCode (r : Report) : Int := if 0 < r.summary.failed then 3 else 0

/-- The rule and the report of a run as a JSON object. -/
def data (k : Course) (r : Report) : Json :=
  let rule := Rule.withOpacity
  .obj (("rule", .obj [("pattern", .str rule.pattern), ("template", .str rule.template),
    ("mode", .str k.config.mode.name)]) :: r.members)

/-- Data and exit code of a course, or the error that stopped it. -/
def result (k : Course) : Except Error (Json × Int) :=
  match k.report with
  | .error e => .error e
  | .ok r => .ok (k.data r, exitCode r)

end Course

/-- Data and exit code of a course, or the error that kept it from starting or stopped it. -/
def resultOf : Except Error Course → Except Error (Json × Int)
  | .error e => .error e
  | .ok k => k.result

/-- The volume after a course, `v` being the one before. -/
def volumeAfter (v : Volume) : Except Error Course → Volume
  | .error _ => v
  | .ok k => k.run.volume

/-! ### Printing -/

/-- What becomes of a text printed on standard output. -/
inductive PrintFate
  /-- It arrives. -/
  | arrives
  /-- The system refuses it. -/
  | refused (cause : SystemCause)
  /-- Nobody reads standard output any more. -/
  | unread
  deriving DecidableEq, Repr

/-- Where a program prints. -/
structure Terminal where
  /-- What becomes of the texts printed on standard output, numbered from zero. -/
  stdout : Nat → PrintFate := fun _ => .arrives
  /-- Whether standard error is a terminal, where somebody watches. -/
  watched : Bool := false

namespace Terminal

/-- The texts that arrive at standard output, of those that are printed there. -/
def arriving (t : Terminal) (texts : List String) : List String :=
  (texts.zipIdx.filter fun (_, n) => t.stdout n = .arrives).map Prod.fst

/-- Why the text of a number cannot be printed. -/
def refusal? (t : Terminal) (n : Nat) : Option Error :=
  match t.stdout n with
  | .refused cause => some (.io cause.text (some "write stdout"))
  | _ => none

end Terminal

/-- What a whole program leaves behind besides the volume. -/
structure Output where
  exitCode : Nat
  stdout : String := ""
  stderr : String := ""
  deriving DecidableEq, Repr

/-- Lines as a text. -/
def unlines (lines : List String) : String := String.join (lines.map (· ++ "\n"))

/-- An exit code as the system takes it. -/
def clampExit (code : Int) : Nat := min code.toNat 255

namespace Course

/-- The line that announces a run to who watches. -/
def announcement (k : Course) : String :=
  "[rewrite] Scanning " ++ toString k.paths.length ++ " ." ++ k.config.extension ++
    " file(s) under " ++ Utf8.decodeLossy k.root

/-- The line about a failure to who watches. -/
def failureLine? (o : Outcome) : Option String :=
  match o.status with
  | .failed e => some ("[rewrite] Failed " ++ o.shownPath ++ ": " ++ e)
  | _ => none

/-- The line about a notice that could not be printed. -/
def warning (e : Error) : String := "Warning: could not print notice: " ++ e.display

/-- The line that sums a run up to who watches. -/
def closingLine (k : Course) (r : Report) : String :=
  toString r.summary.scanned ++ " file(s) scanned, " ++ toString r.summary.changed ++ " " ++
    (if k.config.dryRun then "would change" else "fixed") ++ ", " ++
    toString r.summary.failed ++ " failed"

/-- The lines on standard error about outcomes, when a number of texts has been printed before. -/
def outcomeLines (k : Course) (t : Terminal) (json : Bool) (printed : Nat) :
    List Outcome → List String
  | [] => []
  | o :: os =>
    let failure := if t.watched then (failureLine? o).toList else []
    if !json && o.isFixed then
      failure ++ ((t.refusal? printed).map warning).toList ++ k.outcomeLines t json (printed + 1) os
    else failure ++ k.outcomeLines t json printed os

/-- The lines on standard error while a run goes on. -/
def progressLines (k : Course) (t : Terminal) (json : Bool) : List String :=
  (if t.watched then [k.announcement] else []) ++
    k.outcomeLines t json 0 k.run.outcomes ++
    (match k.report with
      | .error _ => []
      | .ok r => if t.watched then [k.closingLine r] else [])

end Course

/-- The exit code that a result leads to. -/
def exitCodeOf (course : Except Error Course) : Int := Envelope.exitCode (resultOf course)

/-- The lines on standard error at the end of a program that prints no JSON. -/
def endingLines : Except Error Course → List String
  | .error e => e.lines
  | .ok k =>
    match k.report with
    | .error e => e.lines
    | .ok r => if Course.exitCode r = 0 then [] else (Error.filesFailed r.failedPaths).lines

/-- The lines on standard error while a course goes on. -/
def progressOf (t : Terminal) (json : Bool) : Except Error Course → List String
  | .error _ => []
  | .ok k => k.progressLines t json

/-- The lines about fixed files of a course. -/
def noticesOf : Except Error Course → List String
  | .error _ => []
  | .ok k => k.notices

/-- What the program prints about a course, and its exit code. -/
def Arguments.output (a : Arguments) (t : Terminal) (course : Except Error Course) : Output :=
  let progress := progressOf t a.json course
  if a.json then
    { exitCode := clampExit (exitCodeOf course)
      stdout := unlines (t.arriving [Envelope.line (resultOf course)])
      stderr := unlines (progress ++ ((t.refusal? 0).map Error.lines).getD []) }
  else
    { exitCode := clampExit (exitCodeOf course)
      stdout := unlines (t.arriving (noticesOf course))
      stderr := unlines (progress ++ endingLines course) }

/-! ### The whole program -/

/-- What the program is called with its version. -/
def versionLine : String := "fix-opacity 0.1.0"

/-- What the program says about itself. -/
def helpLines : List String :=
  ["Rewrite .withOpacity(x) calls to .withValues(alpha: x) across a Dart source tree",
    "",
    "Usage: fix-opacity [OPTIONS] [ROOT]",
    "",
    "Arguments:",
    "  [ROOT]  Directory to scan (default: lib)",
    "",
    "Options:",
    "      --root <DIR>       Directory to scan (alternative to the positional ROOT)",
    "      --extension <EXT>  " ++
      "File extension to rewrite, with or without the leading dot (default: dart)",
    "      --config <FILE>    JSON config file; flags override its values",
    "      --balanced         Match nested parentheses instead of stopping at the first `)`",
    "      --keep-going       Keep going after a file fails; exit non-zero at the end",
    "      --dry-run          Report what would change without writing",
    "      --exclude <GLOB>   Skip files whose root-relative path matches this glob (repeatable)",
    "      --json             Print a JSON report instead of per-file notices",
    "  -h, --help             Print help",
    "  -V, --version          Print version"]

/-- Prints the lines that answer a question, all at once. -/
def answer (t : Terminal) (lines : List String) : Output :=
  { exitCode := 0, stdout := String.join (t.arriving [unlines lines]) }

/-- Carries a command out. -/
def Command.execute (host : Host) (t : Terminal) (v : Volume) : Command → Output × Volume
  | .help => (answer t helpLines, v)
  | .version => (answer t [versionLine], v)
  | .run a =>
    let course := a.perform host v
    (a.output t course, volumeAfter v course)

/-- The part of a text in front of its first line break. -/
def firstLine (text : String) : String := String.ofList (text.toList.takeWhile (· ≠ '\n'))

/-- Refuses a command line with the first line of the message. An argument that the message shows
may bring a line break of its own. -/
def UsageError.output (e : UsageError) : Output := { exitCode := 2, stderr := firstLine e.message }

/-- The whole program. -/
def runProgram (host : Host) (t : Terminal) (arguments : List Bytes) (v : Volume) :
    Output × Volume :=
  match Command.parse arguments with
  | .error e => (e.output, v)
  | .ok c => c.execute host t v

end CallMigration
