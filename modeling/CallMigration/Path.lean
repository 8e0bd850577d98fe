import CallMigration.Utf8

/-!
# Paths

A path is a byte text whose parts are separated by `/`. Two paths are compared by their
components, in which repeated separators and inner `.` parts have disappeared; a file system
follows a path by its steps, in which every part still asks for something.

## Main Definitions

* `Path.components` — the components that paths are compared by
* `Path.relative` — the part of a path below a root, joined by `/`
* `Path.join` — a name inside a directory
* `Path.expandHome` — a path with the home directory for a leading `~`
* `Path.steps` — what following a path asks for, part by part
-/

namespace CallMigration

/-- The name of a directory entry. -/
abbrev Name := Bytes

namespace Path

open Bytes

/-- The part that stands for the directory itself. -/
def here : Bytes := [dot]

/-- The part that stands for the directory above. -/
def parent : Bytes := [dot, dot]

/-- The parts of a path between its separators, empty ones included. -/
def parts (p : Bytes) : List Bytes := p.splitOn slash

/-! ### Components -/

/-- A component of a path. -/
inductive Component
  /-- The `/` at the start. -/
  | root
  /-- A `.` at the start. -/
  | current
  /-- A `..` anywhere. -/
  | parent
  /-- A name. -/
  | name (name : Name)
  deriving DecidableEq, Repr

/-- The component of a part behind the first, if it counts. -/
def Component.ofPart? (part : Bytes) : Option Component :=
  if part = [] ∨ part = here then none
  else if part = Path.parent then some .parent
  else some (.name part)

/-- The bytes of a component. -/
def Component.text : Component → Bytes
  | root => [slash]
  | current => here
  | parent => Path.parent
  | name n => n

/-- The components of a path: empty parts do not count, and `.` counts only at the start. -/
def components (p : Bytes) : List Component :=
  match parts p with
  | [] => []
  | first :: others =>
    let start :=
      if first = [] then (if others = [] then [] else [.root])
      else if first = here then [.current]
      else (Component.ofPart? first).toList
    start ++ others.filterMap Component.ofPart?

/-- What remains of a list behind a given beginning. -/
def behind? : (root path : List Component) → Option (List Component)
  | [], path => some path
  | _ :: _, [] => none
  | a :: root, b :: path => if a = b then behind? root path else none

/-- The components below `root`, or all of them when the path does not lie below it. -/
def below (path root : Bytes) : List Component :=
  (behind? (components root) (components path)).getD (components path)

/-- The path below `root` with `/` between its components, each shown as text. -/
def relative (path root : Bytes) : String :=
  "/".intercalate ((below path root).map fun c => Utf8.decodeLossy c.text)

/-! ### Making paths -/

/-- The path of an entry of a directory: a `/` is put between unless one is there. -/
def join (directory : Bytes) (name : Name) : Bytes :=
  match directory.getLast? with
  | none => name
  | some b => if b = slash then directory ++ name else directory ++ slash :: name

/-- The byte that stands for the home directory. -/
def tilde : UInt8 := 0x7E

/-- A path with the home directory in place of a `~` that stands alone or before a `/`. -/
def expandHome (home : Bytes) : Bytes → Bytes
  | [] => []
  | b :: rest =>
    if b = tilde ∧ (rest = [] ∨ rest.head? = some slash) then home ++ rest else b :: rest

/-! ### Following a path -/

/-- What one part of a path asks for. -/
inductive Step
  /-- An empty part: whatever stands before it has to be a directory. -/
  | directory
  /-- A `.`: stay in the directory. -/
  | stay
  /-- A `..`: go to the directory above. -/
  | up
  /-- Go to the entry of this name. -/
  | enter (name : Name)
  deriving DecidableEq, Repr

/-- What a part of a path asks for. -/
def Step.ofPart (part : Bytes) : Step :=
  if part = [] then .directory
  else if part = here then .stay
  else if part = Path.parent then .up
  else .enter part

/-- What following a path asks for. -/
def steps (p : Bytes) : List Step := (parts p).map Step.ofPart

/-- Whether a path starts at the root of the tree. -/
def isAbsolute (p : Bytes) : Bool := p.head? = some slash

end Path

end CallMigration
