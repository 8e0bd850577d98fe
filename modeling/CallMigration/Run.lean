import CallMigration.Report
import CallMigration.Tree.Walk
import CallMigration.Volume.Text

/-!
# Runs

A run visits the files that a walk finds, one after another: it reads the file, applies the rule,
and overwrites the file if that changed anything and the run is not a dry one.

## Main Definitions

* `Host` — what surrounds a run: the home directory, the disk and the matcher of globs
* `processFile` — what becomes of one file, and of the volume
* `Run` — the course of a run
* `visitFiles` — the run over given paths
* `migrate` — the run over the paths that the walk finds

## Design Notes

The walk is over before the first file is read. A run that stops at a failing file has its error
and the outcomes before it; a run that keeps going has an outcome for every path.
-/

namespace CallMigration

/-- What surrounds a run. -/
structure Host where
  /-- What a leading `~` stands for. -/
  home : Bytes
  disk : Disk := .sound
  globs : Glob.Matcher := Glob.isMatch

/-- Reads a file, applies the rule, and writes the file back if it changed and may be written. -/
def processFile (host : Host) (rule : Rule) (c : Config) (v : Volume) (path : Bytes) :
    Except Error Status × Volume :=
  match v.readText host.disk path with
  | .error e => (.error e, v)
  | .ok text =>
    let edit := rule.apply c.mode text
    if edit.text = text then (.ok .unchanged, v)
    else if c.dryRun then (.ok (.fixed edit.replacements), v)
    else
      match v.overwriteText host.disk path edit.text with
      | (some e, v) => (.error e, v)
      | (none, v) => (.ok (.fixed edit.replacements), v)

/-- The course of a run. -/
structure Run where
  /-- The volume after it. -/
  volume : Volume
  /-- What became of the files, in the order of the visits. -/
  outcomes : List Outcome := []
  /-- The error that stopped it. -/
  stopped : Option Error := none
  deriving Repr

/-- Puts an outcome in front of what follows it. -/
def Run.after (o : Outcome) (r : Run) : Run := { r with outcomes := o :: r.outcomes }

/-- Visits the files at given paths. -/
def visitFiles (host : Host) (rule : Rule) (c : Config) (v : Volume) : List Bytes → Run
  | [] => { volume := v }
  | path :: paths =>
    match processFile host rule c v path with
    | (.ok status, v) => (visitFiles host rule c v paths).after ⟨path, status⟩
    | (.error e, v) =>
      match c.onError with
      | .abort => { volume := v, stopped := some e }
      | .keepGoing => (visitFiles host rule c v paths).after ⟨path, .failed e.display⟩

/-- The paths that a run visits. -/
def visitedPaths (host : Host) (c : Config) (v : Volume) : List Bytes :=
  v.tree.walk c (c.rootPath host.home) host.globs

/-- Visits the files that the walk finds. -/
def migrate (host : Host) (rule : Rule) (c : Config) (v : Volume) : Run :=
  visitFiles host rule c v (visitedPaths host c v)

/-- The report of a run, unless an error stopped it. -/
def Run.report (r : Run) (root : Bytes) (c : Config) : Except Error Report :=
  match r.stopped with
  | some e => .error e
  | none => .ok (.ofOutcomes root c.dryRun r.outcomes)

end CallMigration
