import CallMigration.Tree.Basic

/-!
# Following paths

## Main Definitions

* `Place` — a directory with the directories above it
* `Place.way` — the names that lead down to it
* `Spot` — where a path leads: a place, or an entry that is no directory
* `Tree.resolve` — the spot that a path leads to, links followed

## Design Notes

A link may lead anywhere, also back to itself. As the system does, following a path gives up at the
forty-first link, and between two links the path only grows shorter. The system takes a path only
together with a byte that ends it, so a path that has as many bytes as the limit is too long.
-/

namespace CallMigration

/-- A directory with the directories above it. -/
structure Place where
  here : Directory
  /-- The directories above, the nearest first, each with the name in it that leads down. -/
  above : List (Name × Directory) := []
  deriving Inhabited, Repr

namespace Place

/-- The directory above; the root has itself above it. -/
def up (p : Place) : Place :=
  match p.above with
  | [] => p
  | (_, d) :: above => ⟨d, above⟩

/-- The directory below that has a name. -/
def enter (p : Place) (name : Name) (d : Directory) : Place := ⟨d, (name, p.here) :: p.above⟩

/-- The names that lead down to a place from the root. -/
def way (p : Place) : List Name := (p.above.map Prod.fst).reverse

end Place

/-- Where a path leads. -/
inductive Spot
  /-- To a directory. -/
  | inside (place : Place)
  /-- To an entry that is neither a directory nor a link. -/
  | leaf (node : Node)
  deriving Inhabited, Repr

namespace Tree

/-- The links that one path may lead over. -/
def linkLimit : Nat := 40

/-- The longest name, in bytes. -/
def nameLimit : Nat := 255

/-- The bytes that the system takes for a path, the one that ends it included. -/
def pathLimit : Nat := 4096

/-- Goes down through directories by name, if there are such. -/
def descend? (p : Place) : List Name → Option Place
  | [] => some p
  | name :: names =>
    match p.here.get? name with
    | some (.directory access entries) => descend? (p.enter name ⟨access, entries⟩) names
    | _ => none

/-- The place to which names lead down from the root. -/
def placeAt? (t : Tree) (way : List Name) : Option Place := descend? ⟨t.root, []⟩ way

/-- The place of the working directory. -/
def workingPlace (t : Tree) : Place := (t.placeAt? t.working).getD ⟨t.root, []⟩

/-- The place where a path starts that is followed from `p`. -/
def startOf (t : Tree) (p : Place) (path : Bytes) : Place :=
  if Path.isAbsolute path then ⟨t.root, []⟩ else p

/-- Follows steps from a spot, over at most `links` links. -/
def follow (t : Tree) (links : Nat) (spot : Spot) (steps : List Path.Step) :
    Except SystemCause Spot :=
  match spot, steps with
  | spot, [] => .ok spot
  | .leaf _, _ :: _ => .error .notADirectory
  | .inside p, .directory :: steps => t.follow links (.inside p) steps
  | .inside p, step :: steps =>
    if ¬ p.here.access.search then .error .permissionDenied
    else
      match step with
      | .directory => t.follow links (.inside p) steps
      | .stay => t.follow links (.inside p) steps
      | .up => t.follow links (.inside p.up) steps
      | .enter name =>
        if nameLimit < name.length then .error .nameTooLong
        else
          match p.here.get? name with
          | none => .error .noEntry
          | some (.directory access entries) =>
            t.follow links (.inside (p.enter name ⟨access, entries⟩)) steps
          | some (.link target) =>
            match links with
            | 0 => .error .tooManyLinks
            | links + 1 =>
              t.follow links (.inside (t.startOf p target)) (Path.steps target ++ steps)
          | some node => t.follow links (.leaf node) steps
  termination_by (links, steps.length)

/-- The spot that a path leads to from the working directory, links followed. -/
def resolve (t : Tree) (path : Bytes) : Except SystemCause Spot :=
  if 0 ∈ path then .error .nulInPath
  else if path = [] then .error .noEntry
  else if pathLimit ≤ path.length then .error .nameTooLong
  else t.follow linkLimit (.inside (t.startOf t.workingPlace path)) (Path.steps path)

/-- The regular file that a path leads to. -/
def fileAt? (t : Tree) (path : Bytes) : Option FileId :=
  match t.resolve path with
  | .ok (.leaf (.file id)) => some id
  | _ => none

theorem resolve_of_fileAt? {t : Tree} {path : Bytes} {id : FileId}
    (h : t.fileAt? path = some id) : t.resolve path = .ok (.leaf (.file id)) := by
  unfold fileAt? at h
  split at h
  · cases h
    assumption
  · cases h

end Tree

end CallMigration
