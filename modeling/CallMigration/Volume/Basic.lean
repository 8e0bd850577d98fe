import CallMigration.Tree.Resolve

/-!
# Volumes

A volume is a tree together with the contents of its files.

## Main Definitions

* `File` — the content of a file, and who may do what with it
* `Volume` — a tree and the files that its entries name
* `Disk` — what reading, opening and writing meet with
* `Volume.read` — the content that a path leads to
* `Volume.overwrite` — the attempt to replace the content that a path leads to

## Design Notes

To overwrite, the file is first opened, which empties it, and then written. A disk that fails in
between leaves what it had stored by then; `Disk.sound` never fails. Neither operation changes the
tree, and writing changes the content of one file at most.

A disk answers from the file and the bytes alone and keeps no account of the room that is left: it
can be too full for a text, but not become so by what a run has written before. Nor does it change
while a run goes on. What comes out of pipes and devices is given path by path, for one reading to
its end; one that never ends is not described.
-/

namespace CallMigration

/-- A regular file. -/
structure File where
  content : Bytes := []
  access : Access := {}
  deriving DecidableEq, Repr

/-- A tree and the files that its entries name by their place in a list. -/
structure Volume where
  tree : Tree
  files : List File := []
  deriving Inhabited, Repr

/-- What becomes of a write. -/
inductive WriteFate
  /-- All bytes are stored. -/
  | stored
  /-- The write fails after some bytes. -/
  | broken (bytes : Nat) (cause : SystemCause)
  deriving DecidableEq, Repr

/-- What reading, opening and writing meet with: file by file, and path by path for what is no
file. -/
structure Disk where
  /-- Why a file cannot be read although its owner may. -/
  reading : FileId → Option SystemCause
  /-- Why a file cannot be opened for writing although its owner may. -/
  opening : FileId → Option SystemCause
  /-- What becomes of the bytes written to a file. -/
  writing : FileId → Bytes → WriteFate
  /-- What comes out of the pipe or device that a path leads to. -/
  stream : Bytes → Except SystemCause Bytes := fun _ => .ok []

/-- A disk that never fails. -/
def Disk.sound : Disk where
  reading _ := none
  opening _ := none
  writing _ _ := .stored

namespace Volume

/-! ### Reading -/

/-- The content of a file. -/
def readFile (disk : Disk) (v : Volume) (id : FileId) : Except SystemCause Bytes :=
  match v.files[id]? with
  | none => .error .noEntry
  | some f =>
    if ¬ f.access.read then .error .permissionDenied
    else
      match disk.reading id with
      | some cause => .error cause
      | none => .ok f.content

/-- The content that a path leads to. -/
def read (disk : Disk) (v : Volume) (path : Bytes) : Except SystemCause Bytes :=
  match v.tree.resolve path with
  | .error cause => .error cause
  | .ok (.inside p) => .error (if p.here.access.read then .isADirectory else .permissionDenied)
  | .ok (.leaf (.file id)) => v.readFile disk id
  | .ok (.leaf _) => disk.stream path

/-! ### Writing -/

/-- The volume with another content of a file. -/
def setContent (v : Volume) (id : FileId) (content : Bytes) : Volume :=
  { v with files := v.files.modify id fun f => { f with content := content } }

/-- Opens a file for writing and writes. -/
def overwriteFile (disk : Disk) (v : Volume) (id : FileId) (content : Bytes) :
    Option SystemCause × Volume :=
  match v.files[id]? with
  | none => (some .noEntry, v)
  | some f =>
    if ¬ f.access.write then (some .permissionDenied, v)
    else
      match disk.opening id with
      | some cause => (some cause, v)
      | none =>
        match disk.writing id content with
        | .stored => (none, v.setContent id content)
        | .broken bytes cause => (some cause, v.setContent id (content.take bytes))

/-- Opens what a path leads to for writing and writes. -/
def overwrite (disk : Disk) (v : Volume) (path content : Bytes) : Option SystemCause × Volume :=
  match v.tree.resolve path with
  | .error cause => (some cause, v)
  | .ok (.inside _) => (some .isADirectory, v)
  | .ok (.leaf (.file id)) => v.overwriteFile disk id content
  | .ok (.leaf (.device .full)) => (if content = [] then none else some .noSpace, v)
  | .ok (.leaf _) => (none, v)

/-! ### What stays -/

@[simp] theorem tree_setContent (v : Volume) (id : FileId) (content : Bytes) :
    (v.setContent id content).tree = v.tree := rfl

@[simp] theorem tree_overwriteFile (disk : Disk) (v : Volume) (id : FileId) (content : Bytes) :
    (v.overwriteFile disk id content).2.tree = v.tree := by
  unfold overwriteFile
  grind [tree_setContent]

@[simp] theorem tree_overwrite (disk : Disk) (v : Volume) (path content : Bytes) :
    (v.overwrite disk path content).2.tree = v.tree := by
  unfold overwrite
  grind [tree_overwriteFile]

end Volume

end CallMigration
