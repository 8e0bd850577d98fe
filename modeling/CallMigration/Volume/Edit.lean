import CallMigration.Volume.Basic

/-!
# Changing a tree by hand

Entries are put, removed and given permissions at paths.

## Main Definitions

* `Tree.site?` — the names that lead down from the root to the entry of a path
* `Tree.contentSite?` — the same for the entry that holds a path's content
* `Entries.alterAt` — another entry at the end of a way through directories
* `Volume.putFile`, `Volume.putDirectory`, `Volume.putNode` — a new entry at a path
* `Volume.removeAt` — a volume without an entry
* `Volume.setAccess` — other permissions for what is at a path
* `Volume.regularFiles` — all regular files below the working directory

## Design Notes

Directories on the way are made as needed, and links on the way are followed. A link at the end of a
path is an entry of its own, which is put and removed, while content and permissions are those of
the entry that it leads to. Whoever changes a tree by hand is not kept off by permissions. The files
below the working directory are found without following links.
-/

namespace CallMigration

/-- The names that a path below the working directory goes through. -/
def Path.names (p : Bytes) : List Name :=
  (Path.parts p).filter fun part => part ≠ [] ∧ part ≠ Path.here

/-! ### Sites -/

namespace Tree

/-- The names that lead down from the root to where a step leads from the end of a way. Where no
directory is, the step's own name is the next one. -/
def wayBy (t : Tree) (way : List Name) : Path.Step → List Name
  | .directory => way
  | .stay => way
  | .up => way.dropLast
  | .enter name =>
    match (t.placeAt? way).map fun p => t.follow linkLimit (.inside p) [.enter name] with
    | some (.ok (.inside p)) => p.way
    | _ => way ++ [name]

/-- The names that lead down from the root to where steps lead from the end of a way. -/
def wayAlong (t : Tree) (way : List Name) (steps : List Path.Step) : List Name :=
  steps.foldl t.wayBy way

/-- The way on which a path starts that is followed from the end of `way`. -/
def startWay (way : List Name) (path : Bytes) : List Name :=
  if Path.isAbsolute path then [] else way

/-- The names that lead down from the root to the directory of a path. -/
def directoryWay (t : Tree) (path : Bytes) : List Name :=
  t.wayAlong (startWay t.working path) (Path.steps path)

/-- The way to the directory of a path's last name, and this name. The path is followed from the end
of a way and has to end in a name. -/
def siteFrom? (t : Tree) (way : List Name) (path : Bytes) : Option (List Name × Name) :=
  match ((Path.steps path).filter (· ≠ .directory)).reverse with
  | .enter name :: before => some (t.wayAlong (startWay way path) before.reverse, name)
  | _ => none

/-- The names that lead down from the root to the entry of a path. -/
def site? (t : Tree) (path : Bytes) : Option (List Name) :=
  (t.siteFrom? t.working path).map fun (way, name) => way ++ [name]

/-- The names that lead down to the entry that holds the content of an entry: the entry itself
unless it is a link. -/
def contentSiteFrom? (t : Tree) (links : Nat) (way : List Name) (name : Name) :
    Option (List Name) :=
  match (t.placeAt? way).bind fun p => p.here.get? name with
  | some (.link target) =>
    match links with
    | 0 => none
    | links + 1 =>
      (t.siteFrom? way target).bind fun (way, name) => t.contentSiteFrom? links way name
  | _ => some (way ++ [name])

/-- The names that lead down from the root to the entry that holds the content of a path. -/
def contentSite? (t : Tree) (path : Bytes) : Option (List Name) :=
  (t.siteFrom? t.working path).bind fun (way, name) => t.contentSiteFrom? linkLimit way name

end Tree

/-! ### Entries -/

namespace Entries

/-- Another entry under a name, or none. A new name comes last. -/
def alter (es : Entries) (name : Name) (f : Option Node → Option Node) : Entries :=
  match es with
  | [] => ((f none).map fun node => (name, node)).toList
  | (k, node) :: rest =>
    if k = name then ((f (some node)).map fun node => (k, node)).toList ++ rest
    else (k, node) :: alter rest name f

/-- Another entry at the end of a way, with directories on the way where nothing is. -/
def alterAt (f : Option Node → Option Node) : List Name → Entries → Entries
  | [], es => es
  | [name], es => alter es name f
  | name :: names, es =>
    alter es name fun node =>
      match node with
      | some (.directory access entries) => some (.directory access (alterAt f names entries))
      | some other => some other
      | none => some (.directory {} (alterAt f names []))

/-- The regular files among entries and below them, with their paths behind `above`. -/
def regularFiles (above : Bytes) : Entries → List (Bytes × FileId)
  | [] => []
  | (name, .directory _ entries) :: rest =>
    regularFiles (Path.join above name) entries ++ regularFiles above rest
  | (name, .file id) :: rest => (Path.join above name, id) :: regularFiles above rest
  | _ :: rest => regularFiles above rest

end Entries

/-! ### Volumes -/

namespace Volume

/-- Another entry at the end of a way from the root. -/
def alterAt (v : Volume) (f : Option Node → Option Node) (way : List Name) : Volume :=
  let root := v.tree.root
  { v with tree := { v.tree with
      root := { root with entries := Entries.alterAt f way root.entries } } }

/-- The entry at the end of a way from the root. -/
def nodeAt? (v : Volume) (way : List Name) : Option Node :=
  way.getLast?.bind fun name =>
    (v.tree.placeAt? way.dropLast).bind fun p => p.here.get? name

/-- Puts an entry at a path. -/
def putNode (v : Volume) (path : Bytes) (node : Node) : Volume :=
  ((v.tree.site? path).map (v.alterAt fun _ => some node)).getD v

/-- Puts a content at a path: in the file that is there, or in a new one where nothing is. -/
def putFile (v : Volume) (path content : Bytes) : Volume :=
  match v.tree.contentSite? path with
  | none => v
  | some way =>
    match v.nodeAt? way with
    | some (.file id) => v.setContent id content
    | some _ => v
    | none =>
      let v := v.alterAt (fun _ => some (.file v.files.length)) way
      { v with files := v.files ++ [{ content := content }] }

/-- Makes a directory at a path, unless there is something already. -/
def putDirectory (v : Volume) (path : Bytes) : Volume :=
  v.alterAt (fun node => some (node.getD (.directory {} []))) (v.tree.directoryWay path)

/-- Removes the entry at a path, with everything below it. -/
def removeAt (v : Volume) (path : Bytes) : Volume :=
  ((v.tree.site? path).map (v.alterAt fun _ => none)).getD v

/-- Gives other permissions to the file or directory that a path leads to. -/
def setAccess (v : Volume) (path : Bytes) (access : Access) : Volume :=
  let way := (v.tree.contentSite? path).getD (v.tree.directoryWay path)
  match v.nodeAt? way with
  | some (.file id) =>
    { v with files := v.files.modify id fun f => { f with access := access } }
  | some (.directory _ entries) => v.alterAt (fun _ => some (.directory access entries)) way
  | _ => v

/-- The regular files below the working directory, with their contents. -/
def regularFiles (v : Volume) : List (Bytes × Bytes) :=
  (Entries.regularFiles [] v.tree.workingPlace.here.entries).map fun (path, id) =>
    (path, (v.files[id]?.map File.content).getD [])

end Volume

end CallMigration
