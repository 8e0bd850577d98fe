import Mathlib.Data.List.Nodup
import CallMigration.Proofs.Trees
import CallMigration.Tree.Walk

/-!
# The files that a walk finds

A walk should find the files behind real directories that can be listed, unless the configuration
leaves them out. It finds these files, and each of them once.

## Main Definitions

* `Walk.Selects` — the configuration leaves a path below the root out nowhere
* `Walk.Eligible` — a path below the root is one that a walk should find
* `Walk.Finds` — a walk comes to a name through directories
* `Walk.linkedTree` — a tree whose default root holds a file, a link to it, and more

## Main Statements

* `Walk.finds_iff` — where a walk comes to, by what the paths on the way lead to
* `Walk.nodup_walk_and_mem_iff` — a walk finds exactly what it should find, once
* `Walk.walk_congr` — what a walk depends on in the configuration

## Design Notes

What should be found is said of the names below the root and of what their paths lead to, and never
of the recursion of the walk: whether a directory can be listed is asked of its own path. The walk
itself asks the directory above for permission and counts the bytes of the path, and
`Tree.resolve_join_directory_iff` is where the two meet. Where two entries of a directory had the
same name, a path would stand for both, so the trees are well-formed ones.
-/

namespace CallMigration

namespace Tree

/-- A path leads to a directory that can be listed. -/
def Lists (t : Tree) (path : Bytes) : Prop :=
  ∃ p, t.resolve path = .ok (.inside p) ∧ p.here.access.read = true

/-- The entry of a name in the directory to which other names lead down from where a path leads.
Only directories are passed on the way down, no links. -/
def entryBelow? (t : Tree) (root : Bytes) (directories : List Name) (name : Name) : Option Node :=
  match t.resolve root with
  | .ok (.inside p) => (descend? p directories).bind fun q => q.here.get? name
  | _ => none

/-- The path through directories that can be listed leads to the last of them. -/
theorem resolve_joinAll {t : Tree} {root : Bytes} {directories : List Name} {p q : Place}
    (ht : t.WellFormed) (hp : t.resolve root = .ok (.inside p))
    (hlists : ∀ above, above <+: directories → t.Lists (Path.joinAll root above))
    (hq : descend? p directories = some q) :
    t.resolve (Path.joinAll root directories) = .ok (.inside q) := by
  induction directories generalizing root p with
  | nil =>
    cases hq
    exact hp
  | cons d directories ih =>
    obtain ⟨access, entries, hget, hdescend⟩ := descend?_cons_eq_some_iff.1 hq
    have hd := (ht.of_resolve hp).here.isName_of_get? hget
    obtain ⟨p', hthere, -⟩ := hlists [d] (by simp)
    obtain ⟨-, -, rfl⟩ := (resolve_join_directory_iff hp hd hget).1 hthere
    refine ih hthere (fun above habove => ?_) hdescend
    exact hlists (d :: above) ((List.prefix_cons_inj d).2 habove)

end Tree

namespace Walk

/-! ### Which files a walk should find -/

/-- The path `directories/name` below the root is none that the configuration leaves out. -/
structure Selects (globs : Glob.Matcher) (c : Config) (directories : List Name) (name : Name) :
    Prop where
  /-- No directory on the way is one to leave out at any depth. -/
  skipped : ∀ d ∈ directories, Utf8.decodeLossy d ∉ c.skipDirs
  /-- The directory right below the root is none to leave out there. -/
  skippedFirst : ∀ d ∈ directories.head?, Utf8.decodeLossy d ∉ c.rootOnlySkipDirs
  /-- The name is something, a dot, and the extension. -/
  extension : ∃ stem, Utf8.decodeLossy name = stem ++ "." ++ c.extension
  /-- No glob to leave out matches the path below the root. -/
  excluded : ∀ glob ∈ c.exclude, globs (Bytes.ofString glob)
    (Bytes.ofString ("/".intercalate ((directories ++ [name]).map Utf8.decodeLossy))) = false

/-- An entry is a regular file, or a link whose path leads to one. -/
def IsFile (t : Tree) (path : Bytes) : Node → Prop
  | .file _ => True
  | .link _ => ∃ id, t.fileAt? path = some id
  | _ => False

/-- The path `root/directories/name` is one that a walk should find. -/
structure Eligible (t : Tree) (globs : Glob.Matcher) (c : Config) (root : Bytes)
    (directories : List Name) (name : Name) : Prop where
  /-- The root and every directory on the way can be listed. -/
  listed : ∀ above, above <+: directories → t.Lists (Path.joinAll root above)
  /-- Behind real directories there is a regular file, or a link to one. -/
  file : ∃ node, t.entryBelow? root directories name = some node ∧
    IsFile t (Path.joinAll root (directories ++ [name])) node
  selects : Selects globs c directories name

/-! ### Filters -/

theorem hasExtension_iff (extension : String) (name : Name) :
    hasExtension extension name = true ↔
      ∃ stem, Utf8.decodeLossy name = stem ++ "." ++ extension := by
  rw [hasExtension, List.isSuffixOf_iff_suffix]
  constructor
  · rintro ⟨stem, hstem⟩
    refine ⟨String.ofList stem, String.toList_inj.1 ?_⟩
    rw [← hstem]
    simp
  · rintro ⟨stem, hstem⟩
    refine ⟨stem.toList, ?_⟩
    rw [hstem]
    simp

theorem isVisited_iff (t : Tree) (c : Config) (path : Bytes) (name : Name) (node : Node) :
    isVisited t c path name node = true ↔
      IsFile t path node ∧ ∃ stem, Utf8.decodeLossy name = stem ++ "." ++ c.extension := by
  rw [← hasExtension_iff]
  cases node <;> simp [isVisited, IsFile, Option.isSome_iff_exists]

theorem isSkipped_eq_false_iff (c : Config) (root path : Bytes) (name : Name) :
    isSkipped c root path name = false ↔
      Utf8.decodeLossy name ∉ c.skipDirs ∧
        (Path.components path = Path.components root →
          Utf8.decodeLossy name ∉ c.rootOnlySkipDirs) := by
  simp [isSkipped]

theorem isListed_iff (path : Bytes) (searchable : Bool) (access : Access) :
    isListed path searchable access = true ↔
      searchable = true ∧ access.read = true ∧ path.length < Tree.pathLimit := by
  simp [isListed, and_assoc]

/-- Whether a path is left out depends on the names below the root only. -/
theorem isExcluded_joinAll_eq_false_iff {names : List Name}
    (h : ∀ name ∈ names, Path.IsName name) (globs : Glob.Matcher) (c : Config) (root : Bytes) :
    isExcluded globs c root (Path.joinAll root names) = false ↔
      ∀ glob ∈ c.exclude, globs (Bytes.ofString glob)
        (Bytes.ofString ("/".intercalate (names.map Utf8.decodeLossy))) = false := by
  rw [isExcluded, Path.relative_joinAll fun name hname => (h name hname).isPart]
  simp

/-! ### What is found below a directory -/

/-- Among the entries of a directory, a walk from `root` comes to `name` through `directories`. -/
inductive Finds (t : Tree) (c : Config) (root : Bytes) :
    Bytes → Bool → Entries → List Name → Name → Prop
  /-- An entry of the directory itself is visited. -/
  | visit {path searchable entries name node} (hmem : (name, node) ∈ entries)
      (hvisited : isVisited t c (Path.join path name) name node = true) :
      Finds t c root path searchable entries [] name
  /-- A directory in it is entered. -/
  | enter {path searchable entries d access inner directories name}
      (hmem : (d, .directory access inner) ∈ entries)
      (hskipped : isSkipped c root path d = false)
      (hlisted : isListed (Path.join path d) searchable access = true)
      (hinner : Finds t c root (Path.join path d) access.search inner directories name) :
      Finds t c root path searchable entries (d :: directories) name

variable {t : Tree} {globs : Glob.Matcher} {c : Config} {root path : Bytes} {searchable : Bool}
  {entries : Entries} {directories : List Name} {name : Name}

theorem Finds.mono {more : Entries} (hsub : entries ⊆ more)
    (h : Finds t c root path searchable entries directories name) :
    Finds t c root path searchable more directories name := by
  cases h with
  | visit hmem hvisited => exact .visit (hsub hmem) hvisited
  | enter hmem hskipped hlisted hinner => exact .enter (hsub hmem) hskipped hlisted hinner

/-- What a walk finds at one entry of a directory. -/
def filesAt (t : Tree) (c : Config) (root path : Bytes) (searchable : Bool) :
    Name × Node → List Bytes
  | (name, .directory access entries) =>
    if isSkipped c root path name || !isListed (Path.join path name) searchable access then []
    else filesBelow t c root (Path.join path name) access.search entries
  | (name, node) =>
    if isVisited t c (Path.join path name) name node then [Path.join path name] else []

theorem filesBelow_eq_flatMap (t : Tree) (c : Config) (root path : Bytes) (searchable : Bool)
    (entries : Entries) :
    filesBelow t c root path searchable entries =
      entries.flatMap (filesAt t c root path searchable) := by
  induction entries with
  | nil => simp [filesBelow]
  | cons e rest ih =>
    obtain ⟨name, node⟩ := e
    cases node <;> simp [filesBelow, filesAt, ih]

theorem mem_filesBelow_of_finds
    (h : Finds t c root path searchable entries directories name) :
    Path.joinAll path (directories ++ [name]) ∈
      filesBelow t c root path searchable entries := by
  induction h with
  | @visit path _ _ name node hmem hvisited =>
    rw [filesBelow_eq_flatMap, List.mem_flatMap]
    refine ⟨_, hmem, ?_⟩
    cases node with
    | directory access entries => cases hvisited
    | _ => simp [filesAt, hvisited]
  | enter hmem hskipped hlisted hinner ih =>
    rw [filesBelow_eq_flatMap, List.mem_flatMap]
    refine ⟨_, hmem, ?_⟩
    simpa [filesAt, hskipped, hlisted] using ih

theorem exists_finds_of_mem_filesBelow {found : Bytes}
    (h : found ∈ filesBelow t c root path searchable entries) :
    ∃ directories name, Finds t c root path searchable entries directories name ∧
      found = Path.joinAll path (directories ++ [name]) := by
  fun_induction filesBelow t c root path searchable entries with
  | case1 => cases h
  | case2 path searchable name access entries rest ihinner ihrest =>
    rcases List.mem_append.1 h with hinner | hrest
    · split at hinner
      next => cases hinner
      next hentered =>
        obtain ⟨directories, file, hfinds, rfl⟩ := ihinner hinner
        simp only [Bool.or_eq_true, Bool.not_eq_true', not_or, Bool.not_eq_true, Bool.not_eq_false]
          at hentered
        exact ⟨name :: directories, file,
          .enter List.mem_cons_self hentered.1 hentered.2 hfinds, rfl⟩
    · obtain ⟨directories, file, hfinds, rfl⟩ := ihrest hrest
      exact ⟨directories, file, hfinds.mono (List.subset_cons_self _ _), rfl⟩
  | case3 path searchable name node rest _ ihrest =>
    rcases List.mem_append.1 h with hhere | hrest
    · split at hhere
      next hvisited =>
        rw [List.mem_singleton] at hhere
        exact ⟨[], name, .visit List.mem_cons_self hvisited, hhere⟩
      next => cases hhere
    · obtain ⟨directories, file, hfinds, rfl⟩ := ihrest hrest
      exact ⟨directories, file, hfinds.mono (List.subset_cons_self _ _), rfl⟩

/-- What a walk finds starts with the name of an entry. -/
theorem Finds.exists_head
    (h : Finds t c root path searchable entries directories name) :
    ∃ e ∈ entries, (directories ++ [name]).head? = some e.1 := by
  cases h with
  | visit hmem hvisited => exact ⟨_, hmem, rfl⟩
  | enter hmem hskipped hlisted hinner => exact ⟨_, hmem, rfl⟩

theorem Finds.isName (h : Finds t c root path searchable entries directories name)
    {access : Access} (hentries : Directory.WellFormed ⟨access, entries⟩) :
    ∀ n ∈ directories ++ [name], Path.IsName n := by
  induction h generalizing access with
  | visit hmem hvisited =>
    simpa using hentries.named _ hmem
  | enter hmem hskipped hlisted hinner ih =>
    rw [List.cons_append, List.forall_mem_cons]
    exact ⟨hentries.named _ hmem, ih (hentries.below _ hmem).toDirectory⟩

/-- Different entries of a directory lead to different files. -/
theorem notMem_filesBelow_of_mem_filesAt {access : Access} {e : Name × Node}
    (hentries : Directory.WellFormed ⟨access, e :: entries⟩) {found : Bytes}
    (h : found ∈ filesAt t c root path searchable e) :
    found ∉ filesBelow t c root path searchable entries := by
  have halone : found ∈ filesBelow t c root path searchable [e] := by
    rw [filesBelow_eq_flatMap]
    simpa using h
  obtain ⟨directories, name, hfinds, rfl⟩ := exists_finds_of_mem_filesBelow halone
  intro hrest
  obtain ⟨others, file, hothers, heq⟩ := exists_finds_of_mem_filesBelow hrest
  have hnames := hfinds.isName hentries.singleton
  -- equal paths show the same names, and the first of them is that of an entry
  rw [Path.joinAll_inj hnames (hothers.isName hentries.of_cons.1)] at heq
  obtain ⟨e', he', hhead⟩ := hfinds.exists_head
  obtain ⟨e'', he'', hhead'⟩ := hothers.exists_head
  rw [heq, hhead', Option.some.injEq] at hhead
  rw [List.mem_singleton.1 he'] at hhead
  exact hentries.of_cons.2 (hhead ▸ List.mem_map_of_mem he'')

theorem nodup_filesBelow {access : Access} (hentries : Directory.WellFormed ⟨access, entries⟩) :
    (filesBelow t c root path searchable entries).Nodup := by
  fun_induction filesBelow t c root path searchable entries generalizing access with
  | case1 => exact List.nodup_nil
  | case2 path searchable name inner entries rest ihinner ihrest =>
    refine List.nodup_append.2 ⟨?_, ihrest hentries.of_cons.1, ?_⟩
    · split
      · exact List.nodup_nil
      · exact ihinner (hentries.below _ List.mem_cons_self).toDirectory
    · rintro found hfound _ hrest rfl
      exact notMem_filesBelow_of_mem_filesAt hentries hfound hrest
  | case3 path searchable name node rest hnode ihrest =>
    refine List.nodup_append.2 ⟨?_, ihrest hentries.of_cons.1, ?_⟩
    · split
      · exact List.nodup_singleton _
      · exact List.nodup_nil
    · rintro found hfound _ hrest rfl
      refine notMem_filesBelow_of_mem_filesAt hentries ?_ hrest
      cases node with
      | directory access entries => exact absurd rfl (hnode access entries)
      | _ => exact hfound

/-- Where every entry of the root is visited and no glob leaves anything out, a walk finds the
entries in their order. -/
theorem walk_eq_map_of_visited {p : Place} (hp : t.resolve root = .ok (.inside p))
    (hread : p.here.access.read = true) (hexclude : c.exclude = [])
    (h : ∀ e ∈ p.here.entries, isVisited t c (Path.join root e.1) e.1 e.2 = true) :
    t.walk c root globs = p.here.entries.map fun e => Path.join root e.1 := by
  have hat : ∀ e ∈ p.here.entries,
      filesAt t c root root p.here.access.search e = [Path.join root e.1] := by
    rintro ⟨name, node⟩ he
    have hvisited := h _ he
    cases node with
    | directory access entries => cases hvisited
    | _ => exact if_pos hvisited
  have hfiles : files t c root = p.here.entries.map fun e => Path.join root e.1 := by
    rw [files, hp]
    simp only [hread, if_true]
    rw [filesBelow_eq_flatMap, List.flatMap_congr hat, List.map_eq_flatMap]
  rw [Tree.walk, hfiles, List.filter_eq_self]
  exact fun _ _ => by simp [isExcluded, hexclude]

/-- So it is where the default root is the only directory of the tree. -/
theorem walk_default_root {entries : Entries} (home : Bytes) (hroot : c.root = "lib")
    (hexclude : c.exclude = [])
    (h : ∀ e ∈ entries, isVisited ⟨⟨{}, [(Bytes.ofString "lib", .directory {} entries)]⟩, []⟩ c
      (Path.join (Bytes.ofString "lib") e.1) e.1 e.2 = true) :
    Tree.walk ⟨⟨{}, [(Bytes.ofString "lib", .directory {} entries)]⟩, []⟩ c (c.rootPath home)
        globs =
      entries.map fun e => Path.join (Bytes.ofString "lib") e.1 := by
  have hpath : c.rootPath home = Bytes.ofString "lib" := by
    rw [Config.rootPath, hroot]
    rfl
  have hlib : Tree.resolve ⟨⟨{}, [(Bytes.ofString "lib", .directory {} entries)]⟩, []⟩
      (Bytes.ofString "lib") =
        .ok (.inside ⟨⟨{}, entries⟩, [(Bytes.ofString "lib", ⟨{}, [(Bytes.ofString "lib",
          .directory {} entries)]⟩)]⟩) :=
    Tree.resolve_eq_of_followWithin (n := 1) (by decide) (by decide) (by decide) rfl
  rw [hpath]
  exact walk_eq_map_of_visited hlib rfl hexclude h

/-- The tree whose default root holds the file `a.dart`, the link `l.dart` to it, and more. -/
def linkedTree (more : Entries) : Tree :=
  ⟨⟨{}, [(Bytes.ofString "lib", .directory {} ((Bytes.ofString "a.dart", .file 0) ::
    (Bytes.ofString "l.dart", .link (Bytes.ofString "a.dart")) :: more))]⟩, []⟩

theorem fileAt?_linkedTree_file (more : Entries) : (linkedTree more).fileAt?
    (Path.join (Bytes.ofString "lib") (Bytes.ofString "a.dart")) = some 0 :=
  Tree.fileAt?_eq_of_followWithin (n := 2) (by decide) (by decide) (by decide) rfl

theorem fileAt?_linkedTree_link (more : Entries) : (linkedTree more).fileAt?
    (Path.join (Bytes.ofString "lib") (Bytes.ofString "l.dart")) = some 0 :=
  Tree.fileAt?_eq_of_followWithin (n := 3) (by decide) (by decide) (by decide) rfl

/-- A walk finds both, and what else is visited. -/
theorem walk_linkedTree {more : Entries} (home : Bytes) (hroot : c.root = "lib")
    (hexclude : c.exclude = []) (hextension : c.extension = "dart")
    (hmore : ∀ e ∈ more, isVisited (linkedTree more) c (Path.join (Bytes.ofString "lib") e.1) e.1
      e.2 = true) :
    (linkedTree more).walk c (c.rootPath home) globs =
      Path.join (Bytes.ofString "lib") (Bytes.ofString "a.dart") ::
        Path.join (Bytes.ofString "lib") (Bytes.ofString "l.dart") ::
          more.map fun e => Path.join (Bytes.ofString "lib") e.1 := by
  refine walk_default_root home hroot hexclude (List.forall_mem_cons.2 ⟨?_,
    List.forall_mem_cons.2 ⟨?_, hmore⟩⟩)
  · rw [isVisited, hextension]
    decide +kernel
  · have hlink := fileAt?_linkedTree_link more
    rw [isVisited, hextension]
    show (((linkedTree more).fileAt? _).isSome && _) = true
    rw [hlink]
    decide +kernel

/-! ### What a walk depends on -/

theorem filesBelow_congr {c' : Config} (hextension : c.extension = c'.extension)
    (hskipped : c.skipDirs = c'.skipDirs) (hfirst : c.rootOnlySkipDirs = c'.rootOnlySkipDirs)
    (root path : Bytes) (searchable : Bool) (entries : Entries) :
    filesBelow t c root path searchable entries =
      filesBelow t c' root path searchable entries := by
  have hskip : isSkipped c = isSkipped c' := by
    funext root path name
    rw [isSkipped, isSkipped, hskipped, hfirst]
  have hvisit : isVisited t c = isVisited t c' := by
    funext path name node
    cases node <;> simp [isVisited, hextension]
  fun_induction filesBelow t c root path searchable entries with
  | case1 => simp [filesBelow]
  | case2 path searchable name access entries rest ihinner ihrest =>
    rw [filesBelow, ← ihrest, ← ihinner, hskip]
  | case3 path searchable name node rest hnode ihrest =>
    rw [filesBelow, ← ihrest, hvisit]
    exact hnode

/-- A walk depends on what is to be found and left out, and on nothing else of the configuration. -/
theorem walk_congr {c' : Config} (hextension : c.extension = c'.extension)
    (hskipped : c.skipDirs = c'.skipDirs) (hfirst : c.rootOnlySkipDirs = c'.rootOnlySkipDirs)
    (hexclude : c.exclude = c'.exclude) (root : Bytes) :
    t.walk c root globs = t.walk c' root globs := by
  have hexcluded : isExcluded globs c root = isExcluded globs c' root := by
    funext path
    rw [isExcluded, isExcluded, hexclude]
  have hfiles : files t c root = files t c' root := by
    unfold files
    simp only [filesBelow_congr hextension hskipped hfirst]
  rw [Tree.walk, Tree.walk, hexcluded, hfiles]

/-! ### What is found is what should be found -/

/-- At or below its root, a walk comes to a name through directories exactly when all of them can be
listed, none of them is left out, and what has the name is visited. Of the directories to leave out
right below the root it is told by the components of the path. -/
theorem finds_iff (ht : t.WellFormed) {p : Place} (hp : t.resolve path = .ok (.inside p))
    (hread : p.here.access.read = true) (hbelow : Path.components root <+: Path.components path) :
    Finds t c root path p.here.access.search p.here.entries directories name ↔
      (∀ above, above <+: directories → t.Lists (Path.joinAll path above)) ∧
      (∀ d ∈ directories, Utf8.decodeLossy d ∉ c.skipDirs) ∧
      (Path.components path = Path.components root →
        ∀ d ∈ directories.head?, Utf8.decodeLossy d ∉ c.rootOnlySkipDirs) ∧
      ∃ node, ((Tree.descend? p directories).bind fun q => q.here.get? name) = some node ∧
        isVisited t c (Path.joinAll path (directories ++ [name])) name node = true := by
  have hwell := ht.of_resolve hp
  induction directories generalizing path p with
  | nil =>
    constructor
    · rintro (⟨hmem, hvisited⟩ | _)
      refine ⟨fun above habove => ?_, by simp, by simp, _, hwell.here.get?_eq_some_iff.2 hmem,
        hvisited⟩
      rw [List.prefix_nil.1 habove]
      exact ⟨p, hp, hread⟩
    · rintro ⟨-, -, -, node, hget, hvisited⟩
      exact .visit (Directory.WellFormed.mem_of_get? hget) hvisited
  | cons d directories ih =>
    constructor
    · rintro (_ | ⟨hmem, hskipped, hlisted, hinner⟩)
      rename_i access inner
      obtain ⟨hskip, hskipFirst⟩ := (isSkipped_eq_false_iff c root path d).1 hskipped
      obtain ⟨hsearch, hreadable, hlen⟩ := (isListed_iff _ _ access).1 hlisted
      -- the walk asks for what the path of the directory needs to lead there
      have hget := hwell.here.get?_eq_some_iff.2 hmem
      have hd := hwell.here.isName_of_get? hget
      have hthere := (Tree.resolve_join_directory_iff hp hd hget).2 ⟨hsearch, hlen, rfl⟩
      have hdeeper : Path.components root <+: Path.components (Path.join path d) := by
        rw [Path.components_join hd.isPart]
        exact hbelow.trans (List.prefix_append _ _)
      obtain ⟨hlists, hskipBelow, -, node, hnode, hvisited⟩ :=
        (ih hthere hreadable hdeeper (hwell.enter hget)).1 hinner
      refine ⟨fun above habove => ?_, ?_, ?_, node, ?_, hvisited⟩
      · obtain rfl | ⟨inside, rfl, hinside⟩ := List.prefix_cons_iff.1 habove
        · exact ⟨p, hp, hread⟩
        · exact hlists inside hinside
      · exact List.forall_mem_cons.2 ⟨hskip, hskipBelow⟩
      · simpa using hskipFirst
      · rw [Tree.descend?, hget]
        exact hnode
    · rintro ⟨hlists, hskip, hskipFirst, node, hnode, hvisited⟩
      obtain ⟨q, hq, hnode⟩ := Option.bind_eq_some_iff.1 hnode
      obtain ⟨access, inner, hget, hdescend⟩ := Tree.descend?_cons_eq_some_iff.1 hq
      have hd := hwell.here.isName_of_get? hget
      obtain ⟨q', hthere, hreadable⟩ := hlists [d] (by simp)
      obtain ⟨hsearch, hlen, rfl⟩ := (Tree.resolve_join_directory_iff hp hd hget).1 hthere
      refine .enter (Directory.WellFormed.mem_of_get? hget) ?_ ?_ ?_
      · exact (isSkipped_eq_false_iff c root path d).2
          ⟨hskip d List.mem_cons_self, by simpa using hskipFirst⟩
      · exact (isListed_iff _ _ access).2 ⟨hsearch, hreadable, hlen⟩
      · have hdeeper : Path.components root <+: Path.components (Path.join path d) := by
          rw [Path.components_join hd.isPart]
          exact hbelow.trans (List.prefix_append _ _)
        refine (ih hthere hreadable hdeeper (hwell.enter hget)).2
          ⟨fun above habove => ?_, ?_, fun hroot => ?_, node, ?_, hvisited⟩
        · exact hlists (d :: above) ((List.prefix_cons_inj d).2 habove)
        · exact fun d' hd' => hskip d' (List.mem_cons_of_mem d hd')
        · exact absurd hroot (Path.components_join_ne hd.isPart hbelow)
        · rw [hdescend]
          exact hnode

/-- In a root that can be listed, what should be found is what a walk comes to and no glob leaves
out. -/
theorem eligible_iff (ht : t.WellFormed) {p : Place} (hp : t.resolve path = .ok (.inside p))
    (hread : p.here.access.read = true) :
    Eligible t globs c path directories name ↔
      Finds t c path path p.here.access.search p.here.entries directories name ∧
        isExcluded globs c path (Path.joinAll path (directories ++ [name])) = false := by
  have hwell := (ht.of_resolve hp).here
  have hentry : t.entryBelow? path directories name =
      (Tree.descend? p directories).bind fun q => q.here.get? name := by
    rw [Tree.entryBelow?, hp]
  constructor
  · rintro ⟨hlisted, ⟨node, hnode, hfile⟩, hskipped, hfirst, hextension, hexcluded⟩
    have hfinds : Finds t c path path p.here.access.search p.here.entries directories name :=
      (finds_iff ht hp hread List.prefix_rfl).2 ⟨hlisted, hskipped, fun _ => hfirst, node,
        hentry ▸ hnode, (isVisited_iff t c _ name node).2 ⟨hfile, hextension⟩⟩
    exact ⟨hfinds, (isExcluded_joinAll_eq_false_iff (hfinds.isName hwell) globs c path).2 hexcluded⟩
  · rintro ⟨hfinds, hexcluded⟩
    obtain ⟨hlisted, hskipped, hfirst, node, hnode, hvisited⟩ :=
      (finds_iff ht hp hread List.prefix_rfl).1 hfinds
    obtain ⟨hfile, hextension⟩ := (isVisited_iff t c _ name node).1 hvisited
    exact ⟨hlisted, ⟨node, hentry ▸ hnode, hfile⟩, hskipped, hfirst rfl, hextension,
      (isExcluded_joinAll_eq_false_iff (hfinds.isName hwell) globs c path).1 hexcluded⟩

theorem Eligible.isName (ht : t.WellFormed) (h : Eligible t globs c path directories name) :
    ∀ n ∈ directories ++ [name], Path.IsName n := by
  obtain ⟨p, hp, hread⟩ := h.listed [] List.nil_prefix
  exact ((eligible_iff ht hp hread).1 h).1.isName (ht.of_resolve hp).here

/-- What a path leads to that should be found is a regular file: the entry itself, or what a link
leads to. -/
theorem Eligible.exists_file_of_resolve (ht : t.WellFormed)
    (h : Eligible t globs c root directories name) {s : Spot}
    (hs : t.resolve (Path.joinAll root (directories ++ [name])) = .ok s) :
    ∃ id, s = .leaf (.file id) ∧
      (t.entryBelow? root directories name = some (.file id) ∨
        ∃ target, t.entryBelow? root directories name = some (.link target)) := by
  obtain ⟨node, hentry, hfile⟩ := h.file
  cases node with
  | link target =>
    obtain ⟨id, hid⟩ := hfile
    rw [Tree.resolve_of_fileAt? hid] at hs
    exact ⟨id, (Except.ok.inj hs).symm, .inr ⟨target, hentry⟩⟩
  | file id =>
    obtain ⟨p, hp, -⟩ := h.listed [] List.nil_prefix
    have hname := h.isName ht name (by simp)
    have hget := hentry
    rw [Tree.entryBelow?, show t.resolve root = .ok (.inside p) from hp] at hget
    obtain ⟨q, hq, hget⟩ := Option.bind_eq_some_iff.1 hget
    -- the directory is real, so its path and the name lead to the entry and nowhere else
    rw [Path.joinAll_concat] at hs
    have hdirectory := Tree.resolve_joinAll ht hp h.listed hq
    exact ⟨id, Tree.eq_of_resolve_join_file hdirectory hname hget hs, .inl hentry⟩
  | _ => exact hfile.elim

theorem mem_files_iff {found : Bytes} :
    found ∈ files t c root ↔
      ∃ p, t.resolve root = .ok (.inside p) ∧ p.here.access.read = true ∧
        found ∈ filesBelow t c root root p.here.access.search p.here.entries := by
  unfold files
  split
  next p hp =>
    by_cases hread : p.here.access.read <;> simp [hp, hread]
  next hp =>
    refine iff_of_false List.not_mem_nil ?_
    rintro ⟨p, hroot, -⟩
    exact hp p hroot

theorem mem_walk_iff (ht : t.WellFormed) {found : Bytes} :
    found ∈ t.walk c root globs ↔
      ∃ directories name, Eligible t globs c root directories name ∧
        found = Path.joinAll root (directories ++ [name]) := by
  rw [Tree.walk, List.mem_filter, mem_files_iff, Bool.not_eq_true']
  constructor
  · rintro ⟨⟨p, hp, hread, hfound⟩, hexcluded⟩
    obtain ⟨directories, name, hfinds, rfl⟩ := exists_finds_of_mem_filesBelow hfound
    exact ⟨directories, name, (eligible_iff ht hp hread).2 ⟨hfinds, hexcluded⟩, rfl⟩
  · rintro ⟨directories, name, heligible, rfl⟩
    obtain ⟨p, hp, hread⟩ := heligible.listed [] List.nil_prefix
    obtain ⟨hfinds, hexcluded⟩ := (eligible_iff ht hp hread).1 heligible
    exact ⟨⟨p, hp, hread, mem_filesBelow_of_finds hfinds⟩, hexcluded⟩

theorem nodup_walk (ht : t.WellFormed) (globs : Glob.Matcher) (c : Config) (root : Bytes) :
    (t.walk c root globs).Nodup := by
  refine List.Nodup.filter _ ?_
  unfold files
  split
  next p hp =>
    split
    · exact nodup_filesBelow (ht.of_resolve hp).here
    · exact List.nodup_nil
  · exact List.nodup_nil

/-- In every tree, from every root, under every configuration and whatever globs match, a walk finds
exactly the files that it should find, each of them once. -/
theorem nodup_walk_and_mem_iff (ht : t.WellFormed) (globs : Glob.Matcher) (c : Config)
    (root : Bytes) :
    (t.walk c root globs).Nodup ∧ ∀ found, found ∈ t.walk c root globs ↔
      ∃ directories name, Eligible t globs c root directories name ∧
        found = Path.joinAll root (directories ++ [name]) :=
  ⟨nodup_walk ht globs c root, fun _ => mem_walk_iff ht⟩

/-- A directory to leave out right below the root is left out however the root is spelled, and is
entered where it lies deeper; a link to a file in it is found. -/
theorem mem_walk_deep_directory :
    let lib := Bytes.ofString "lib"
    let src := Bytes.ofString "src"
    let build := Bytes.ofString "build"
    let file := Bytes.ofString "a.dart"
    let link := Bytes.ofString "l.dart"
    let inner : Node := .directory {} [(file, .file 0), (link, .link file)]
    let entries : Entries := [(build, inner), (src, .directory {} [(build, inner)])]
    let t : Tree := ⟨⟨{}, [(lib, .directory {} entries)]⟩, []⟩
    let c : Config := { rootOnlySkipDirs := ["build"] }
    let root := Bytes.ofString "./lib//"
    t.WellFormed ∧ Bytes.ofString "./lib//src/build/l.dart" ∈ t.walk c root ∧
      Bytes.ofString "./lib//build/l.dart" ∉ t.walk c root := by
  intro lib src build file link inner entries t c root
  have ht : t.WellFormed := by decide
  have hfound := (nodup_walk_and_mem_iff ht Glob.isMatch c root).2
  have hroot : t.resolve root = .ok (.inside ⟨⟨{}, entries⟩, [(lib, t.root)]⟩) :=
    Tree.resolve_eq_of_followWithin (n := 8) (by decide) (by decide) (by decide) rfl
  have hlisted : ∀ above, above <+: [src, build] → t.Lists (Path.joinAll root above) := by
    intro above habove
    obtain rfl | ⟨more, rfl, hmore⟩ := List.prefix_cons_iff.1 habove
    · exact ⟨_, hroot, rfl⟩
    obtain rfl | ⟨last, rfl, hlast⟩ := List.prefix_cons_iff.1 hmore
    · exact ⟨_, Tree.resolve_eq_of_followWithin (n := 8) (by decide) (by decide) (by decide) rfl,
        rfl⟩
    · rw [List.prefix_nil.1 hlast]
      exact ⟨_, Tree.resolve_eq_of_followWithin (n := 8) (by decide) (by decide) (by decide) rfl,
        rfl⟩
  have hentry : t.entryBelow? root [src, build] link = some (.link file) := by
    rw [Tree.entryBelow?, hroot]
    rfl
  have hlink : t.resolve (Path.joinAll root [src, build, link]) = .ok (.leaf (.file 0)) :=
    Tree.resolve_eq_of_followWithin (n := 8) (by decide) (by decide) (by decide) rfl
  have hfile : IsFile t (Path.joinAll root [src, build, link]) (.link file) :=
    ⟨0, by rw [Tree.fileAt?, hlink]⟩
  have hselects : Selects Glob.isMatch c [src, build] link :=
    ⟨by decide, by decide +kernel, ⟨"l", by decide +kernel⟩, by decide⟩
  refine ⟨ht, (hfound _).2 ⟨_, _, ⟨hlisted, ⟨_, hentry, hfile⟩, hselects⟩, rfl⟩, fun h => ?_⟩
  obtain ⟨directories, name, heligible, heq⟩ := (hfound _).1 h
  have hnames : [build] ++ [link] = directories ++ [name] :=
    (Path.joinAll_inj (p := root) (by decide) (heligible.isName ht)).1 heq
  obtain ⟨rfl, -⟩ := List.append_inj' hnames rfl
  exact absurd (heligible.selects.skippedFirst _ rfl) (by decide +kernel)

end Walk

end CallMigration
