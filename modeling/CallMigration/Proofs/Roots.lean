import CallMigration.Proofs.Selection

/-!
# Roots with several spellings

A directory can be the root of a walk under many paths: with separators and dots that do not count,
through other directories and back, over links. What a walk finds below it, and what globs to leave
out are compared with, does not depend on the path, as long as the system follows the paths below
it.

## Main Definitions

* `Tree.Exceeds` — the system does not follow a path for its length or for the links on it
* `Walk.ExceedsOnWay` — a walk runs into this on the way to a file

## Main Statements

* `Walk.eligible_iff_not_exceedsOnWay` — what should be found below one root should be found below
  another one, up to these limits
* `Walk.map_relative_walk_perm` — walks below two roots find the same relative paths
* `Walk.map_relative_walk_long_root` — a root so long that a walk finds less

## Design Notes

Below a root, a walk has the system follow the paths of directories and of links. The directories
on the way are real ones, so how many links the root leads over matters for links only, while the
length of the root matters for both.
-/

namespace CallMigration

namespace Tree

variable {t : Tree} {path path' : Bytes} {p q : Place} {name : Name} {directories : List Name}

/-! ### Limits -/

/-- The system does not follow a path: it is too long, or leads over too many links. -/
def Exceeds (t : Tree) (path : Bytes) : Prop :=
  t.resolve path = .error .nameTooLong ∨ t.resolve path = .error .tooManyLinks

theorem exceeds_of_pathLimit_le (hzero : 0 ∉ path) (hne : path ≠ [])
    (hlen : pathLimit ≤ path.length) : t.Exceeds path := by
  left
  rw [resolve, if_neg hzero, if_neg hne, if_pos hlen]

theorem not_exceeds_of_resolve {s : Spot} (h : t.resolve path = .ok s) : ¬ t.Exceeds path := by
  rw [Exceeds, h]
  simp

/-- What the path of an entry leads to does not depend on the path of the directory, up to the
limits of the system. -/
theorem resolve_join_of_not_exceeds (hp : t.resolve path = .ok (.inside p))
    (hp' : t.resolve path' = .ok (.inside p)) (hname : Path.IsName name) {s : Spot}
    (h : t.resolve (Path.join path name) = .ok s) (hlimits : ¬ t.Exceeds (Path.join path' name)) :
    t.resolve (Path.join path' name) = .ok s := by
  obtain ⟨hzero, hne, -⟩ := resolve_eq_ok hp'
  have hlen : (Path.join path' name).length < pathLimit := by
    by_contra hlong
    have hnotNil : Path.join path' name ≠ [] := by
      obtain ⟨q, hjoin, -⟩ := Path.join_eq_append name hne
      simp [hjoin]
    exact hlimits (exceeds_of_pathLimit_le (Path.zero_notMem_join hname hzero) hnotNil
      (Nat.le_of_not_lt hlong))
  obtain ⟨left, hleft⟩ := exists_resolve_join hp hname (resolve_eq_ok h).2.2
  obtain ⟨left', hleft'⟩ := exists_resolve_join hp' hname hlen
  -- the two paths differ in how many links are left where the directory is reached
  rw [hleft] at h
  rw [Exceeds, hleft'] at hlimits
  rw [hleft']
  exact (follow_of_links h left').resolve_right fun hlinks => hlimits (.inr hlinks)

/-- Real directories that can be listed below one path can be listed below another one that leads to
the same directory, if that path is short enough. -/
theorem lists_joinAll (ht : t.WellFormed) (hp : t.resolve path = .ok (.inside p))
    (hp' : t.resolve path' = .ok (.inside p)) (hq : descend? p directories = some q)
    (hlists : ∀ above, above <+: directories → t.Lists (Path.joinAll path above))
    (hlen : (Path.joinAll path' directories).length < pathLimit) :
    ∀ above, above <+: directories → t.Lists (Path.joinAll path' above) := by
  have hread : p.here.access.read = true := by
    obtain ⟨p', hthere, hread⟩ := hlists [] List.nil_prefix
    rw [Path.joinAll_nil, hp] at hthere
    cases hthere
    exact hread
  induction directories generalizing path path' p with
  | nil =>
    intro above habove
    rw [List.prefix_nil.1 habove]
    exact ⟨p, hp', hread⟩
  | cons d directories ih =>
    obtain ⟨access, entries, hget, hdescend⟩ := descend?_cons_eq_some_iff.1 hq
    have hd := (ht.of_resolve hp).here.isName_of_get? hget
    obtain ⟨inner, hthere, hreadable⟩ := hlists [d] (by simp)
    obtain ⟨hsearch, -, rfl⟩ := (resolve_join_directory_iff hp hd hget).1 hthere
    have hshort := Nat.lt_of_le_of_lt
      (Path.length_le_length_joinAll (Path.join path' d) directories) hlen
    have hthere' := (resolve_join_directory_iff hp' hd hget).2 ⟨hsearch, hshort, rfl⟩
    intro above habove
    obtain rfl | ⟨inside, rfl, hinside⟩ := List.prefix_cons_iff.1 habove
    · exact ⟨p, hp', hread⟩
    · refine ih hthere hthere' hdescend (fun more hmore => ?_) hlen hreadable inside hinside
      exact hlists (d :: more) ((List.prefix_cons_inj d).2 hmore)

/-! ### A directory as a path of itself -/

/-- In the working directory, a `./` in front changes only the length of a path. -/
theorem resolve_here_slash (hsearch : t.workingPlace.here.access.search = true)
    (hrelative : Path.isAbsolute path = false) (hzero : 0 ∉ path) (hne : path ≠ [])
    (hlen : path.length + 2 < pathLimit) :
    t.resolve (Bytes.dot :: Bytes.slash :: path) = t.resolve path := by
  have hsteps : Path.steps (Bytes.dot :: Bytes.slash :: path) = .stay :: Path.steps path := by
    rw [← List.singleton_append, Path.steps, Path.parts, List.splitOn_append_cons_self]
    rfl
  have hzero' : 0 ∉ Bytes.dot :: Bytes.slash :: path := by
    simpa [Bytes.dot, Bytes.slash] using hzero
  have hstart : t.startOf t.workingPlace path = t.workingPlace := by
    rw [startOf, hrelative, if_neg Bool.false_ne_true]
  have hstart' : t.startOf t.workingPlace (Bytes.dot :: Bytes.slash :: path) = t.workingPlace := rfl
  rw [resolve_eq hzero' (List.cons_ne_nil _ _) (by simpa using hlen),
    resolve_eq hzero hne (by omega), hsteps, hstart, hstart', follow_inside_cons, advance,
    if_neg (not_not_intro hsearch)]
  rfl

theorem length_heres (n : Nat) :
    (List.replicate n [Bytes.dot, Bytes.slash]).flatten.length = n * 2 := by
  rw [List.length_flatten, List.map_replicate, List.sum_replicate_nat]
  rfl

theorem resolve_heres (hsearch : t.workingPlace.here.access.search = true)
    (hrelative : Path.isAbsolute path = false) (hzero : 0 ∉ path) (hne : path ≠ []) {n : Nat}
    (hlen : n * 2 + path.length < pathLimit) :
    t.resolve ((List.replicate n [Bytes.dot, Bytes.slash]).flatten ++ path) = t.resolve path := by
  induction n with
  | zero => rfl
  | succ n ih =>
    rw [List.replicate_succ, List.flatten_cons, List.append_assoc, ← ih (by omega)]
    refine resolve_here_slash hsearch ?_ ?_ (by simp [hne]) ?_
    · cases n with
      | zero => exact hrelative
      | succ n => rfl
    · simp [hzero, Bytes.dot, Bytes.slash]
    · change (_ ++ path).length + 2 < pathLimit
      rw [List.length_append, length_heres]
      omega

end Tree

namespace Walk

variable {t : Tree} {globs : Glob.Matcher} {c : Config} {root root' : Bytes} {p : Place}
  {directories : List Name} {name : Name}

/-! ### Files below two roots -/

/-- On its way to `root/directories/name`, a walk has the system follow a path that it does not
follow: that of the directory is too long, or that of the link at the end is too long or leads over
too many links. -/
def ExceedsOnWay (t : Tree) (root : Bytes) (directories : List Name) (name : Name) : Prop :=
  Tree.pathLimit ≤ (Path.joinAll root directories).length ∨
    (∃ target, t.entryBelow? root directories name = some (.link target)) ∧
      t.Exceeds (Path.joinAll root (directories ++ [name]))

/-- What should be found is within the limits. -/
theorem Eligible.not_exceedsOnWay (h : Eligible t globs c root directories name) :
    ¬ ExceedsOnWay t root directories name := by
  rintro (hlong | ⟨⟨target, hlink⟩, hexceeds⟩)
  · obtain ⟨q, hq, -⟩ := h.listed directories List.prefix_rfl
    exact Tree.resolve_of_pathLimit_le hlong _ hq
  · obtain ⟨node, hnode, hfile⟩ := h.file
    rw [hlink] at hnode
    cases hnode
    obtain ⟨id, hid⟩ := hfile
    exact Tree.not_exceeds_of_resolve (Tree.resolve_of_fileAt? hid) hexceeds

/-- What should be found below one root should be found below another path of the same directory
exactly when it is within the limits there. -/
theorem eligible_iff_not_exceedsOnWay (ht : t.WellFormed) (hp : t.resolve root = .ok (.inside p))
    (hp' : t.resolve root' = .ok (.inside p)) (h : Eligible t globs c root directories name) :
    Eligible t globs c root' directories name ↔ ¬ ExceedsOnWay t root' directories name := by
  refine ⟨Eligible.not_exceedsOnWay, fun hlimits => ?_⟩
  obtain ⟨hlong, hlink⟩ := not_or.1 hlimits
  obtain ⟨node, hnode, hfile⟩ := h.file
  have hnode' : t.entryBelow? root' directories name = some node := by
    rw [← hnode, Tree.entryBelow?, Tree.entryBelow?, hp, hp']
  obtain ⟨q, hq, -⟩ : ∃ q, Tree.descend? p directories = some q ∧ q.here.get? name = some node := by
    rwa [Tree.entryBelow?, hp, Option.bind_eq_some_iff] at hnode
  have hlists := Tree.lists_joinAll ht hp hp' hq h.listed (Nat.lt_of_not_le hlong)
  refine ⟨hlists, ⟨node, hnode', ?_⟩, h.selects⟩
  cases node with
  | link target =>
    obtain ⟨id, hid⟩ := hfile
    have hresolve := Tree.resolve_of_fileAt? hid
    rw [Path.joinAll_concat] at hresolve
    rw [not_and, Path.joinAll_concat] at hlink
    have hresolve' := Tree.resolve_join_of_not_exceeds (Tree.resolve_joinAll ht hp h.listed hq)
      (Tree.resolve_joinAll ht hp' hlists hq) (h.isName ht name (by simp)) hresolve
      (hlink ⟨target, hnode'⟩)
    refine ⟨id, ?_⟩
    rw [Path.joinAll_concat, Tree.fileAt?, hresolve']
  | _ => exact hfile

/-! ### Walks below two roots -/

theorem Eligible.isPart (ht : t.WellFormed) (h : Eligible t globs c root directories name) :
    ∀ n ∈ directories ++ [name], Path.IsPart n := fun n hn => (h.isName ht n hn).isPart

/-- The names that lead from the root to what a walk finds. -/
theorem mem_map_below_walk_iff (ht : t.WellFormed) {components : List Path.Component} :
    components ∈ (t.walk c root globs).map (Path.below · root) ↔
      ∃ directories name, Eligible t globs c root directories name ∧
        components = (directories ++ [name]).map .name := by
  rw [List.mem_map]
  constructor
  · rintro ⟨path, hpath, rfl⟩
    obtain ⟨directories, name, heligible, rfl⟩ := (mem_walk_iff ht).1 hpath
    exact ⟨directories, name, heligible, Path.below_joinAll (heligible.isPart ht) root⟩
  · rintro ⟨directories, name, heligible, rfl⟩
    exact ⟨_, (mem_walk_iff ht).2 ⟨directories, name, heligible, rfl⟩,
      Path.below_joinAll (heligible.isPart ht) root⟩

/-- Different files are found by different names. -/
theorem nodup_map_below_walk (ht : t.WellFormed) (globs : Glob.Matcher) (c : Config)
    (root : Bytes) :
    ((t.walk c root globs).map (Path.below · root)).Nodup := by
  refine List.Nodup.map_on (fun path hpath path' hpath' heq => ?_) (nodup_walk ht globs c root)
  obtain ⟨directories, name, heligible, rfl⟩ := (mem_walk_iff ht).1 hpath
  obtain ⟨directories', name', heligible', rfl⟩ := (mem_walk_iff ht).1 hpath'
  rw [Path.below_joinAll (heligible.isPart ht), Path.below_joinAll (heligible'.isPart ht)] at heq
  rw [(List.map_inj_right fun _ _ => Path.Component.name.inj).1 heq]

/-- Walks below two paths of one directory find the same names, as long as nothing that one of them
finds is beyond the limits of the system below the other path. -/
theorem perm_map_below_walk (ht : t.WellFormed) (globs : Glob.Matcher) (c : Config)
    (hp : t.resolve root = .ok (.inside p)) (hp' : t.resolve root' = .ok (.inside p))
    (hlimits : ∀ directories name, Eligible t globs c root directories name →
      ¬ ExceedsOnWay t root' directories name)
    (hlimits' : ∀ directories name, Eligible t globs c root' directories name →
      ¬ ExceedsOnWay t root directories name) :
    ((t.walk c root globs).map (Path.below · root)).Perm
      ((t.walk c root' globs).map (Path.below · root')) := by
  rw [List.perm_ext_iff_of_nodup (nodup_map_below_walk ht globs c root)
    (nodup_map_below_walk ht globs c root')]
  intro components
  rw [mem_map_below_walk_iff ht, mem_map_below_walk_iff ht]
  refine exists₂_congr fun directories name => and_congr_left fun _ => ?_
  constructor
  · exact fun h => (eligible_iff_not_exceedsOnWay ht hp hp' h).2 (hlimits _ _ h)
  · exact fun h => (eligible_iff_not_exceedsOnWay ht hp' hp h).2 (hlimits' _ _ h)

/-- However a root is spelled, a path made of it and names is shown by the names. So walks below two
paths of one directory find the same relative paths, as long as nothing that one of them finds is
beyond the limits of the system below the other path. -/
theorem map_relative_walk_perm (t : Tree) (globs : Glob.Matcher) (c : Config) :
    (∀ (root : Bytes) (names : List Name), (∀ name ∈ names, Path.IsPart name) →
      Path.relative (Path.joinAll root names) root =
        "/".intercalate (names.map Utf8.decodeLossy)) ∧
    ∀ (root root' : Bytes) (p : Place), t.WellFormed →
      t.resolve root = .ok (.inside p) → t.resolve root' = .ok (.inside p) →
      (∀ directories name, Eligible t globs c root directories name →
        ¬ ExceedsOnWay t root' directories name) →
      (∀ directories name, Eligible t globs c root' directories name →
        ¬ ExceedsOnWay t root directories name) →
      ((t.walk c root globs).map (Path.relative · root)).Perm
        ((t.walk c root' globs).map (Path.relative · root')) := by
  refine ⟨fun root names hnames => Path.relative_joinAll hnames root, ?_⟩
  intro root root' p ht hp hp' hlimits hlimits'
  -- a path is shown by the names that lead there
  have hshown := (perm_map_below_walk ht globs c hp hp' hlimits hlimits').map
    fun components : List Path.Component =>
      "/".intercalate (components.map fun c => Utf8.decodeLossy c.text)
  rw [List.map_map, List.map_map] at hshown
  exact hshown

/-- Below two spellings of a root, a walk finds a file and a link to it. -/
theorem map_relative_walk_perm_spelled :
    let lib := Bytes.ofString "lib"
    let file := Bytes.ofString "a.dart"
    let link := Bytes.ofString "l.dart"
    let entries : Entries := [(file, .file 0), (link, .link file)]
    let t : Tree := ⟨⟨{}, [(lib, .directory {} entries)]⟩, []⟩
    let p : Place := ⟨⟨{}, entries⟩, [(lib, t.root)]⟩
    let root := Bytes.ofString "./lib//"
    t.WellFormed ∧ t.resolve lib = .ok (.inside p) ∧ t.resolve root = .ok (.inside p) ∧
      ((t.walk {} lib).map (Path.relative · lib)).Perm
        ((t.walk {} root).map (Path.relative · root)) := by
  intro lib file link entries t p root
  have hlib : t.resolve lib = .ok (.inside p) :=
    Tree.resolve_eq_of_followWithin (n := 8) (by decide) (by decide) (by decide) rfl
  have hroot : t.resolve root = .ok (.inside p) :=
    Tree.resolve_eq_of_followWithin (n := 8) (by decide) (by decide) (by decide) rfl
  -- no directory is passed, and the only link can be followed
  have hentries : ∀ r, t.resolve r = .ok (.inside p) → ∀ directories name node,
      t.entryBelow? r directories name = some node →
        directories = [] ∧ ∀ target, node = .link target → name = link := by
    intro r hr directories name node hnode
    rw [Tree.entryBelow?, hr] at hnode
    obtain ⟨q, hq, hget⟩ := Option.bind_eq_some_iff.1 hnode
    cases directories with
    | nil =>
      cases hq
      refine ⟨rfl, ?_⟩
      rintro target rfl
      have hmem : name = link ∧ target = file := by
        simpa [p, entries] using Directory.WellFormed.mem_of_get? hget
      exact hmem.1
    | cons d directories =>
      obtain ⟨access, inner, hd, -⟩ := Tree.descend?_cons_eq_some_iff.1 hq
      simpa [p, entries] using Directory.WellFormed.mem_of_get? hd
  have hwithin : ∀ r r', t.resolve r = .ok (.inside p) → t.resolve r' = .ok (.inside p) →
      t.fileAt? (Path.join r' link) = some 0 → ∀ directories name,
        Eligible t Glob.isMatch {} r directories name → ¬ ExceedsOnWay t r' directories name := by
    intro r r' hr hr' hlink directories name heligible
    obtain ⟨node, hnode, -⟩ := heligible.file
    obtain ⟨rfl, -⟩ := hentries r hr directories name node hnode
    rintro (hlong | ⟨⟨target, htarget⟩, hexceeds⟩)
    · exact Nat.not_le_of_lt (Tree.resolve_eq_ok hr').2.2 hlong
    · obtain rfl := (hentries r' hr' [] name _ htarget).2 target rfl
      exact Tree.not_exceeds_of_resolve (Tree.resolve_of_fileAt? hlink) hexceeds
  refine ⟨by decide, hlib, hroot, (map_relative_walk_perm t _ {}).2 lib root p (by decide) hlib
    hroot (hwithin lib root hlib hroot ?_) (hwithin root lib hroot hlib ?_)⟩
  · exact Tree.fileAt?_eq_of_followWithin (n := 8) (by decide) (by decide) (by decide) rfl
  · exact Tree.fileAt?_eq_of_followWithin (n := 8) (by decide) (by decide) (by decide) rfl

/-- Where the root is almost as long as a path may be, the directories below it are not listed. -/
theorem map_relative_walk_long_root :
    let lib := Bytes.ofString "lib"
    let src := Bytes.ofString "src"
    let file := Bytes.ofString "a.dart"
    let inner : Node := .directory {} [(file, .file 0)]
    let t : Tree := ⟨⟨{}, [(lib, .directory {} [(src, inner)])]⟩, []⟩
    let p : Place := ⟨⟨{}, [(src, inner)]⟩, [(lib, t.root)]⟩
    let root := (List.replicate 2045 (Bytes.ofString "./")).flatten ++ lib
    t.WellFormed ∧ t.resolve lib = .ok (.inside p) ∧ t.resolve root = .ok (.inside p) ∧
      (t.walk {} lib).map (Path.relative · lib) = ["src/a.dart"] ∧ t.walk {} root = [] := by
  intro lib src file inner t p root
  have hlib : t.resolve lib = .ok (.inside p) :=
    Tree.resolve_eq_of_followWithin (n := 8) (by decide) (by decide) (by decide) rfl
  have hroot : t.resolve root = .ok (.inside p) :=
    (Tree.resolve_heres rfl rfl (by decide) (by decide) (by decide)).trans hlib
  have hlong : isListed (Path.join root src) true {} = false := by
    rw [Bool.eq_false_iff, ne_eq, isListed_iff]
    rintro ⟨-, -, hlen⟩
    have hroot : root.length = 4093 := by
      rw [List.length_append]
      exact congrArg (· + 3) (Tree.length_heres 2045)
    have hjoin := Path.length_add_le_length_join root src
    have hsrc : src.length = 3 := by decide
    have hlimit : Tree.pathLimit = 4096 := rfl
    omega
  refine ⟨by decide, hlib, hroot, ?_, ?_⟩
  · have hfiles : filesBelow t {} lib lib true [(src, inner)] =
        [Path.join (Path.join lib src) file] := by
      have hskipped : isSkipped {} lib lib src = false := by decide +kernel
      have hlisted : isListed (Path.join lib src) true {} = true := by decide
      have hvisited : hasExtension "dart" file = true := by decide +kernel
      simp [inner, filesBelow, hskipped, hlisted, isVisited, hvisited]
    rw [Tree.walk, files, hlib]
    change ((filesBelow t {} lib lib true [(src, inner)]).filter _).map _ = _
    rw [hfiles]
    decide +kernel
  · rw [Tree.walk, files, hroot]
    change (filesBelow t {} root root true [(src, inner)]).filter _ = _
    simp [inner, filesBelow, hlong]

end Walk

end CallMigration
