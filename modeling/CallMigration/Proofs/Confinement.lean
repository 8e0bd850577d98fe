import CallMigration.Proofs.Runs
import CallMigration.Proofs.Selection

/-!
# What a run may change

A run changes no file that no selected path leads to. The selected path is that of the file itself,
or that of a link; only then the file may lie elsewhere, under another name.

## Main Statements

* `exists_path_of_changed` — a changed file is one that a visited path leads to
* `migrate_confined` — a changed file is selected, or a selected link leads to it
* `migrate_changes_target` — through a link a run changes a file that is not selected
-/

namespace CallMigration

variable {host : Host} {rule : Rule} {c : Config} {v : Volume} {id : FileId}

theorem exists_path_of_changed {paths : List Bytes}
    (h : (visitFiles host rule c v paths).volume.files[id]? ≠ v.files[id]?) :
    ∃ path ∈ paths, v.tree.fileAt? path = some id := by
  by_contra hnone
  exact h (getElem?_visitFiles fun path hpath hid => hnone ⟨path, hpath, hid⟩)

/-- A file that a run changes is what the path of a selected entry leads to, and this entry is the
file itself or a link. -/
theorem migrate_confined (ht : v.tree.WellFormed) (host : Host) (rule : Rule) (c : Config)
    (h : (migrate host rule c v).volume.files[id]? ≠ v.files[id]?) :
    ∃ directories name,
      Walk.Eligible v.tree host.globs c (c.rootPath host.home) directories name ∧
        v.tree.fileAt? (Path.joinAll (c.rootPath host.home) (directories ++ [name])) = some id ∧
        (v.tree.entryBelow? (c.rootPath host.home) directories name = some (.file id) ∨
          ∃ target,
            v.tree.entryBelow? (c.rootPath host.home) directories name = some (.link target)) := by
  obtain ⟨path, hpath, hid⟩ := exists_path_of_changed h
  obtain ⟨directories, name, heligible, rfl⟩ := (Walk.mem_walk_iff ht).1 hpath
  obtain ⟨_, hfile, hentry⟩ := heligible.exists_file_of_resolve ht (Tree.resolve_of_fileAt? hid)
  cases hfile
  exact ⟨directories, name, heligible, hid, hentry⟩

/-- A file that is selected itself is changed. -/
theorem migrate_confined_file :
    let lib := Bytes.ofString "lib"
    let file := Bytes.ofString "a.dart"
    let f : File := ⟨Bytes.ofString "c.withOpacity(x)", {}⟩
    let v : Volume := ⟨⟨⟨{}, [(lib, .directory {} [(file, .file 0)])]⟩, []⟩, [f]⟩
    let host : Host := { home := Bytes.ofString "home" }
    v.tree.WellFormed ∧
      (migrate host .withOpacity {} v).volume.files[0]? ≠ v.files[0]? ∧
      ∃ directories name, Walk.Eligible v.tree host.globs {} lib directories name ∧
        v.tree.fileAt? (Path.joinAll lib (directories ++ [name])) = some 0 := by
  intro lib file f v host
  have ht : v.tree.WellFormed := by decide
  have hroot : Config.rootPath host.home {} = lib := by decide
  have hlib : v.tree.resolve lib = .ok (.inside ⟨⟨{}, [(file, .file 0)]⟩, [(lib, v.tree.root)]⟩) :=
    Tree.resolve_eq_of_followWithin (n := 1) (by decide) (by decide) (by decide) rfl
  have hid : v.tree.fileAt? (Path.join lib file) = some 0 :=
    Tree.fileAt?_eq_of_followWithin (n := 2) (by decide) (by decide) (by decide) rfl
  have hpaths : visitedPaths host {} v = [Path.join lib file] := by
    rw [visitedPaths, hroot]
    exact Walk.walk_eq_map_of_visited hlib rfl rfl (by decide +kernel)
  have hwrites : WritesBack host .withOpacity {} 0 f :=
    ⟨rfl, rfl, by decide, by decide +kernel, rfl, rfl, rfl⟩
  have hchanged : (migrate host .withOpacity {} v).volume.files[0]? ≠ v.files[0]? := by
    rw [migrate_of_writesBack hpaths hid rfl hwrites rfl]
    decide +kernel
  obtain ⟨directories, name, heligible, hselected, -⟩ :=
    migrate_confined ht host .withOpacity {} hchanged
  rw [hroot] at heligible hselected
  exact ⟨ht, hchanged, directories, name, heligible, hselected⟩

/-- Through a link a run changes a file that is not below the root. -/
theorem migrate_changes_target :
    let lib := Bytes.ofString "lib"
    let notes := Bytes.ofString "notes.md"
    let link := Bytes.ofString "a.dart"
    let target := Bytes.ofString "../notes.md"
    let f : File := ⟨Bytes.ofString "c.withOpacity(x)", {}⟩
    let v : Volume :=
      ⟨⟨⟨{}, [(notes, .file 0), (lib, .directory {} [(link, .link target)])]⟩, []⟩, [f]⟩
    v.tree.WellFormed ∧
      (migrate { home := Bytes.ofString "home" } .withOpacity {} v).volume.files.map File.content =
        [Bytes.ofString "c.withValues(alpha: x)"] ∧
      ∀ directories name, v.tree.entryBelow? lib directories name ≠ some (.file 0) := by
  intro lib notes link target f v
  have hroot : Config.rootPath (Bytes.ofString "home") {} = lib := by decide
  have hlib : v.tree.resolve lib =
      .ok (.inside ⟨⟨{}, [(link, .link target)]⟩, [(lib, v.tree.root)]⟩) :=
    Tree.resolve_eq_of_followWithin (n := 1) (by decide) (by decide) (by decide) rfl
  have hid : v.tree.fileAt? (Path.join lib link) = some 0 :=
    Tree.fileAt?_eq_of_followWithin (n := 4) (by decide) (by decide) (by decide) rfl
  have hvisited : Walk.isVisited v.tree {} (Path.join lib link) link (.link target) = true := by
    rw [Walk.isVisited, hid]
    decide +kernel
  have hpaths : visitedPaths { home := Bytes.ofString "home" } {} v = [Path.join lib link] := by
    rw [visitedPaths, hroot]
    exact Walk.walk_eq_map_of_visited hlib rfl rfl (List.forall_mem_singleton.2 hvisited)
  have hwrites : WritesBack { home := Bytes.ofString "home" } .withOpacity {} 0 f :=
    ⟨rfl, rfl, by decide, by decide +kernel, rfl, rfl, rfl⟩
  refine ⟨by decide, ?_, fun directories name hentry => ?_⟩
  · rw [migrate_of_writesBack hpaths hid rfl hwrites rfl]
    decide +kernel
  · -- the only entry is the link
    rw [Tree.entryBelow?, hlib] at hentry
    obtain ⟨q, hq, hget⟩ := Option.bind_eq_some_iff.1 hentry
    cases directories with
    | nil =>
      cases hq
      cases List.mem_singleton.1 (Directory.WellFormed.mem_of_get? hget)
    | cons d directories =>
      obtain ⟨access, entries, hd, -⟩ := Tree.descend?_cons_eq_some_iff.1 hq
      cases List.mem_singleton.1 (Directory.WellFormed.mem_of_get? hd)

end CallMigration
