import CallMigration.Path

/-!
# File trees

A tree of directories, links and other entries. A regular file is an entry that names its content
by a number, so that writing to a file changes contents and never the tree.

## Main Definitions

* `Node` — what an entry of a directory is
* `Directory` — the entries of a directory, in the order in which it lists them
* `Tree` — a root directory and the place of the working directory
* `SystemCause` — why the system refuses

## Design Notes

Every file belongs to the one who runs the program, so of the permissions of a file or directory
three bits count. The order of the entries is part of the tree: what a run does in another order is
what it does to a tree with its entries in that order.
-/

namespace CallMigration

/-! ### Refusals of the system -/

/-- Why the system refuses. -/
inductive SystemCause
  | noEntry
  | permissionDenied
  | notADirectory
  | isADirectory
  | noSpace
  | nameTooLong
  | tooManyLinks
  /-- The path holds a NUL byte, which no path can. -/
  | nulInPath
  /-- Any other reason, as the system words it. -/
  | other (wording : String)
  deriving DecidableEq, Repr

/-- The wording of a refusal. -/
def SystemCause.text : SystemCause → String
  | noEntry => "No such file or directory (os error 2)"
  | permissionDenied => "Permission denied (os error 13)"
  | notADirectory => "Not a directory (os error 20)"
  | isADirectory => "Is a directory (os error 21)"
  | noSpace => "No space left on device (os error 28)"
  | nameTooLong => "File name too long (os error 36)"
  | tooManyLinks => "Too many levels of symbolic links (os error 40)"
  | nulInPath => "file name contained an unexpected NUL byte"
  | other wording => wording

/-! ### Trees -/

/-- What the owner may do with a file or directory. -/
structure Access where
  /-- Read a file, list a directory. -/
  read : Bool := true
  /-- Write a file. -/
  write : Bool := true
  /-- Go to the entries of a directory. -/
  search : Bool := true
  deriving DecidableEq, Repr

/-- The number of a regular file. -/
abbrev FileId := Nat

/-- A device. -/
inductive Device
  /-- It swallows what is written. -/
  | null
  /-- It has no room for a single byte. -/
  | full
  deriving DecidableEq, Repr

/-- What an entry of a directory is. -/
inductive Node where
  | file (id : FileId)
  | directory (access : Access) (entries : List (Name × Node))
  | link (target : Bytes)
  | pipe
  | device (device : Device)
  deriving Inhabited, Repr

/-- Named entries, in the order in which a directory lists them. -/
abbrev Entries := List (Name × Node)

/-- A directory. -/
structure Directory where
  access : Access := {}
  entries : Entries := []
  deriving Inhabited, Repr

/-- The entry of a name. -/
def Directory.get? (d : Directory) (name : Name) : Option Node := d.entries.lookup name

/-- A tree and the way from its root to the working directory. -/
structure Tree where
  root : Directory
  working : List Name
  deriving Inhabited, Repr

end CallMigration
