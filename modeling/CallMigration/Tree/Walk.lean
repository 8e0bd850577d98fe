import CallMigration.Config.Basic
import CallMigration.Glob
import CallMigration.Tree.Resolve

/-!
# Walking a tree

A walk finds the files that a run visits, in the order in which the directories list their entries.

## Main Definitions

* `Walk.hasExtension` — whether a name ends with a dot and the extension
* `Walk.isSkipped` — whether a directory is left out
* `Walk.isListed` — whether a directory below the root can be listed
* `Walk.isVisited` — whether an entry that is no directory is visited
* `Walk.isExcluded` — whether a found path is left out
* `Tree.walk` — the paths that a run visits

## Design Notes

A directory below the root is entered only as a directory, never through a link, so a walk follows
the tree and ends. Names are compared as they are shown; that a directory is the root is told by the
components of its path, since a root can be spelled in many ways. To list a directory its own
permission is needed, to use anything in it the permission to search it; without the latter its
files are still found. They are also found when their own paths are too long to be followed.

What it means for a glob to match is a parameter of a walk, with `Glob.isMatch` for its default.
-/

namespace CallMigration

namespace Walk

/-- Whether a name, as it is shown, ends with a dot and the extension. Nothing has to stand in front
of the dot. -/
def hasExtension (extension : String) (name : Name) : Bool :=
  ('.' :: extension.toList).isSuffixOf (Utf8.decodeLossy name).toList

/-- Whether an entry of the directory at `path` is left out if it is a directory, by its name as it
is shown. -/
def isSkipped (c : Config) (root path : Bytes) (name : Name) : Bool :=
  let shown := Utf8.decodeLossy name
  c.skipDirs.contains shown ||
    (Path.components path == Path.components root && c.rootOnlySkipDirs.contains shown)

/-- Whether a directory can be listed, `searchable` saying that the entries of the directory above
can be used. -/
def isListed (path : Bytes) (searchable : Bool) (access : Access) : Bool :=
  searchable && access.read && path.length < Tree.pathLimit

/-- Whether an entry that is no directory is visited: a regular file, or a link that leads to one,
with the right extension. -/
def isVisited (t : Tree) (c : Config) (path : Bytes) (name : Name) : Node → Bool
  | .file _ => hasExtension c.extension name
  | .link _ => (t.fileAt? path).isSome && hasExtension c.extension name
  | _ => false

/-- The files below a directory whose path is `path` and whose entries can be used if
`searchable`, on a walk from `root`. -/
def filesBelow (t : Tree) (c : Config) (root path : Bytes) (searchable : Bool) :
    Entries → List Bytes
  | [] => []
  | (name, .directory access entries) :: rest =>
    (if isSkipped c root path name || !isListed (Path.join path name) searchable access then []
      else filesBelow t c root (Path.join path name) access.search entries) ++
      filesBelow t c root path searchable rest
  | (name, node) :: rest =>
    (if isVisited t c (Path.join path name) name node then [Path.join path name] else []) ++
      filesBelow t c root path searchable rest

/-- The files below a root. A root that is no directory or cannot be listed has none. -/
def files (t : Tree) (c : Config) (root : Bytes) : List Bytes :=
  match t.resolve root with
  | .ok (.inside p) =>
    if p.here.access.read then filesBelow t c root root p.here.access.search p.here.entries else []
  | _ => []

/-- Whether a glob to leave out matches the path below the root. -/
def isExcluded (globs : Glob.Matcher) (c : Config) (root path : Bytes) : Bool :=
  let relative := Bytes.ofString (Path.relative path root)
  c.exclude.any fun glob => globs (Bytes.ofString glob) relative

end Walk

/-- The paths that a run visits below a root. -/
def Tree.walk (t : Tree) (c : Config) (root : Bytes) (globs : Glob.Matcher := Glob.isMatch) :
    List Bytes :=
  (Walk.files t c root).filter fun path => !Walk.isExcluded globs c root path

end CallMigration
