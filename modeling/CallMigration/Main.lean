import CallMigration.CommandLine.Program
import CallMigration.Volume.Edit

/-!
# The command line

Standard input names the files to choose from, one path a line, as `find . -type f` prints them. The
files are read, the program decides what becomes of them, and the changed ones are written back.

## Main Definitions

* `Listing` — a volume with the paths whose files it holds
* `main` — the command

## Design Notes

Nothing is decided here: a listing becomes a volume, `runProgram` does the work, and the difference
between the volume before and the volume after is stored.
-/

namespace CallMigration

/-- A volume with the paths whose files it holds. -/
structure Listing where
  volume : Volume
  /-- The working directory. -/
  working : Bytes
  paths : List String := []

namespace Listing

/-- The path from the root of the tree. -/
def absolute (l : Listing) (path : String) : Bytes :=
  let p := Bytes.ofString path
  if Path.isAbsolute p then p else Path.join l.working p

/-- The listing without any files. -/
def empty (working : String) : Listing :=
  let p := Bytes.ofString working
  { volume := Volume.putDirectory { tree := { root := {}, working := [] } } p, working := p }

/-- The listing with one more file. -/
def put (l : Listing) (path : String) (f : File) : Listing :=
  let p := l.absolute path
  { l with
    volume := (l.volume.putFile p f.content).setAccess p f.access
    paths := path :: l.paths }

/-- The volume as it looks from the working directory. -/
def seen (l : Listing) : Volume :=
  { l.volume with tree := { l.volume.tree with working := Path.names l.working } }

/-- The paths whose files are different in another volume, with what these hold. -/
def changes (l : Listing) (after : Volume) : List (String × Bytes) :=
  l.paths.filterMap fun path =>
    match l.seen.read .sound (Bytes.ofString path), after.read .sound (Bytes.ofString path) with
    | .ok old, .ok new => if old = new then none else some (path, new)
    | _, _ => none

end Listing

/-- The file at a path, unless there is none. -/
def loadFile (path : String) : IO (Option File) := do
  let writable ←
    try
      let _ ← IO.FS.Handle.mk path .readWrite
      pure true
    catch _ => pure false
  try
    let content ← IO.FS.readBinFile path
    return some { content := content.toList, access := { write := writable } }
  catch
    | .noFileOrDirectory .. => return none
    | _ => return some { access := { read := false, write := writable } }

/-- The files that standard input and the arguments name. -/
def loadListing (a : Arguments) : IO Listing := do
  let mut listing := Listing.empty (toString (← IO.currentDir))
  for path in (← IO.FS.lines "/dev/stdin").toList ++ a.config.toList do
    if let some f ← loadFile path then
      listing := listing.put path f
  return listing

/-- Puts other bytes in the place of those that a file holds. -/
def storeFile (path : String) (content : Bytes) : IO Unit :=
  IO.FS.writeBinFile path ⟨content.toArray⟩

/-- Prints the output and gives the exit code. Nobody reading it any more is no failure. -/
def Output.print (o : Output) : IO UInt32 := do
  try
    IO.print o.stdout
    (← IO.getStdout).flush
  catch _ => pure ()
  IO.eprint o.stderr
  return UInt32.ofNat o.exitCode

/-- Carries a command line out on the files of the system. -/
def perform (arguments : List Bytes) : IO UInt32 := do
  let host : Host := { home := Bytes.ofString ((← IO.getEnv "HOME").getD "") }
  let terminal : Terminal := { watched := ← (← IO.getStderr).isTty }
  let listing ←
    match Command.parse arguments with
    | .ok (.run a) => loadListing a
    | _ => pure (Listing.empty "/")
  let (output, after) := runProgram host terminal arguments listing.seen
  for (path, content) in listing.changes after do
    storeFile path content
  output.print

end CallMigration

/-- The command. -/
def main (arguments : List String) : IO UInt32 :=
  CallMigration.perform (arguments.map CallMigration.Bytes.ofString)
