import CallMigration.Proofs.Reports
import CallMigration.Proofs.Runs
import CallMigration.Proofs.Selection

/-!
# Stopping and going on

Two runs over the same volume differ in the failure policy only. The one that goes on is the longer
one, and the one that stops has gone the same way up to the first file that fails.

## Main Definitions

* `Config.withPolicy` — the configuration with another failure policy
* `StopsAt` — one run is another one up to its first failure

## Main Statements

* `visitFiles_abort_of_quiet` — without failures the policy makes no difference
* `exists_stopsAt_visitFiles` — with failures a run that stops is cut at the first of them
* `migrate_abort_of_keepGoing` — both for whole runs, with their reports

## Design Notes

A run holds the paths that it visits in memory, so a word can count them. The trees of this theory
are of any size, and where the count of failures is read this is asked for; what became of the files
does not depend on it.
-/

namespace CallMigration

/-- The configuration with another failure policy. -/
def Config.withPolicy (c : Config) (policy : FailurePolicy) : Config := { c with onError := policy }

variable {host : Host} {rule : Rule} {c : Config} {v w : Volume} {path : Bytes} {paths : List Bytes}
  {status : Status} {e : Error}

theorem visitedPaths_withPolicy (policy : FailurePolicy) :
    visitedPaths host (c.withPolicy policy) v = visitedPaths host c v := by
  apply Walk.walk_congr <;> rfl

/-! ### One file under both policies -/

/-- What becomes of one file does not depend on the policy. -/
theorem processFile_withPolicy (policy : FailurePolicy) :
    processFile host rule (c.withPolicy policy) v path = processFile host rule c v path := rfl

theorem visitFiles_withPolicy_cons_of_ok (policy : FailurePolicy)
    (h : processFile host rule c v path = (.ok status, w)) :
    visitFiles host rule (c.withPolicy policy) v (path :: paths) =
      (visitFiles host rule (c.withPolicy policy) w paths).after ⟨path, status⟩ :=
  visitFiles_cons_of_ok (by rwa [processFile_withPolicy])

theorem visitFiles_keepGoing_cons_of_error (h : processFile host rule c v path = (.error e, w)) :
    visitFiles host rule (c.withPolicy .keepGoing) v (path :: paths) =
      (visitFiles host rule (c.withPolicy .keepGoing) w paths).after ⟨path, .failed e.display⟩ :=
  visitFiles_cons_of_keepGoing rfl (by rwa [processFile_withPolicy])

theorem visitFiles_abort_cons_of_error (h : processFile host rule c v path = (.error e, w)) :
    visitFiles host rule (c.withPolicy .abort) v (path :: paths) =
      { volume := w, stopped := some e } :=
  visitFiles_cons_of_abort rfl (by rwa [processFile_withPolicy])

/-! ### Without failures -/

/-- Where a run that goes on has no failure, the one that stops is the same. -/
theorem visitFiles_abort_of_quiet
    (h : ∀ o ∈ (visitFiles host rule (c.withPolicy .keepGoing) v paths).outcomes,
      o.isFailed = false) :
    visitFiles host rule (c.withPolicy .abort) v paths =
      visitFiles host rule (c.withPolicy .keepGoing) v paths := by
  induction paths generalizing v with
  | nil => rfl
  | cons path paths ih =>
    cases hfile : processFile host rule c v path with
    | mk result w =>
      cases result with
      | ok status =>
        rw [visitFiles_withPolicy_cons_of_ok _ hfile] at h ⊢
        rw [visitFiles_withPolicy_cons_of_ok _ hfile, ih (List.forall_mem_cons.1 h).2]
      | error e =>
        rw [visitFiles_keepGoing_cons_of_error hfile] at h
        cases (List.forall_mem_cons.1 h).1

/-! ### At the first failure -/

/-- The run `cut` over some paths is the run `whole` up to its first failure: it has the outcomes
before the failure, its error is the one that the failure shows, and `whole` goes on with the volume
that `cut` leaves. -/
structure StopsAt (host : Host) (rule : Rule) (c : Config) (v : Volume) (whole cut : Run)
    (before : List Bytes) (path : Bytes) (after : List Bytes) (e : Error) : Prop where
  /-- Nothing has failed before. -/
  quiet : ∀ o ∈ cut.outcomes, o.isFailed = false
  /-- There is an outcome for each path before. -/
  paths : cut.outcomes.map Outcome.path = before
  /-- The run that goes on has the same outcomes, then the failure, then those behind it. -/
  outcomes : whole.outcomes = cut.outcomes ++ ⟨path, .failed e.display⟩ ::
    (visitFiles host rule (c.withPolicy .keepGoing) cut.volume after).outcomes
  /-- The run that is cut ends with the error. -/
  stopped : cut.stopped = some e
  /-- Its volume is the one that the run that goes on has behind the failing file. -/
  volume : cut.volume =
    (visitFiles host rule (c.withPolicy .keepGoing) v (before ++ [path])).volume
  /-- From there the run that goes on goes on. -/
  rest : whole.volume = (visitFiles host rule (c.withPolicy .keepGoing) cut.volume after).volume
  /-- The tree is the one before, and so is a file that only later paths lead to. -/
  tree : cut.volume.tree = v.tree
  untouched : ∀ id, (∀ p ∈ before ++ [path], v.tree.fileAt? p ≠ some id) →
    cut.volume.files[id]? = v.files[id]?

/-- The first failure of a run that goes on comes behind paths without failures. -/
theorem exists_first_failure
    (h : ∃ o ∈ (visitFiles host rule (c.withPolicy .keepGoing) v paths).outcomes, o.isFailed) :
    ∃ before path after e, paths = before ++ path :: after ∧
      (∀ o ∈ (visitFiles host rule (c.withPolicy .keepGoing) v before).outcomes,
        o.isFailed = false) ∧
      (processFile host rule c (visitFiles host rule (c.withPolicy .keepGoing) v before).volume
        path).1 = .error e := by
  induction paths generalizing v with
  | nil =>
    obtain ⟨o, ho, -⟩ := h
    cases ho
  | cons path paths ih =>
    cases hfile : processFile host rule c v path with
    | mk result w =>
      cases result with
      | error e => exact ⟨[], path, paths, e, rfl, fun o ho => (List.not_mem_nil ho).elim,
          by rw [visitFiles, hfile]⟩
      | ok status =>
        obtain ⟨o, ho, hfailed⟩ := h
        rw [visitFiles_withPolicy_cons_of_ok _ hfile] at ho
        have hquiet : (⟨path, status⟩ : Outcome).isFailed = false := isFailed_of_processFile hfile
        obtain rfl | ho := List.mem_cons.1 ho
        · rw [hquiet] at hfailed
          cases hfailed
        obtain ⟨before, failing, after, e, rfl, hbefore, herror⟩ := ih ⟨o, ho, hfailed⟩
        refine ⟨path :: before, failing, after, e, rfl, ?_, ?_⟩
        · rw [visitFiles_withPolicy_cons_of_ok _ hfile]
          exact List.forall_mem_cons.2 ⟨hquiet, hbefore⟩
        · rw [visitFiles_withPolicy_cons_of_ok _ hfile]
          exact herror

/-- Where a run that goes on has a failure, the one that stops is cut at the first. -/
theorem exists_stopsAt_visitFiles
    (h : ∃ o ∈ (visitFiles host rule (c.withPolicy .keepGoing) v paths).outcomes, o.isFailed) :
    ∃ before path after e, paths = before ++ path :: after ∧
      StopsAt host rule c v (visitFiles host rule (c.withPolicy .keepGoing) v paths)
        (visitFiles host rule (c.withPolicy .abort) v paths) before path after e := by
  obtain ⟨before, path, after, e, rfl, hquiet, herror⟩ := exists_first_failure h
  -- `r` is the part that both runs have, as nothing has failed in it
  have hgone : (visitFiles host rule (c.withPolicy .keepGoing) v before).stopped = none :=
    stopped_visitFiles rfl
  have hpaths : (visitFiles host rule (c.withPolicy .keepGoing) v before).outcomes.map
      Outcome.path = before := map_path_visitFiles rfl
  have habort := visitFiles_abort_of_quiet hquiet
  generalize hr : visitFiles host rule (c.withPolicy .keepGoing) v before = r at *
  cases hfile : processFile host rule c r.volume path with
  | mk result w =>
    obtain rfl : result = .error e := by rw [← herror, hfile]
    have hcut : visitFiles host rule (c.withPolicy .abort) v (before ++ path :: after) =
        ⟨w, r.outcomes, some e⟩ := by
      rw [visitFiles_append, habort, Run.andThen_of_stopped hgone,
        visitFiles_abort_cons_of_error hfile, List.append_nil]
    have hwhole : ∀ more, visitFiles host rule (c.withPolicy .keepGoing) v
        (before ++ path :: more) =
          let s := visitFiles host rule (c.withPolicy .keepGoing) w more
          ⟨s.volume, r.outcomes ++ ⟨path, .failed e.display⟩ :: s.outcomes, s.stopped⟩ := by
      intro more
      rw [visitFiles_append, hr, Run.andThen_of_stopped hgone,
        visitFiles_keepGoing_cons_of_error hfile, Run.after]
    have hvolume : w = (visitFiles host rule (c.withPolicy .keepGoing) v
        (before ++ [path])).volume := by
      rw [hwhole, visitFiles]
    refine ⟨before, path, after, e, rfl, ?_⟩
    rw [hcut, hwhole]
    exact
      { quiet := hquiet
        paths := hpaths
        outcomes := rfl
        stopped := rfl
        volume := hvolume
        rest := rfl
        tree := by rw [hvolume, tree_visitFiles]
        untouched := fun id hid => by rw [hvolume, getElem?_visitFiles hid] }

/-! ### Whole runs -/

/-- A run that goes on always has a report, whose count of failures is zero exactly when nothing
failed, as long as a word can count the files. If nothing failed, the run that stops has the same
report, the same outcomes and the same volume behind it. If something failed, the run that stops
ends with the error of the first failure, and is the run that goes on up to there. -/
theorem migrate_abort_of_keepGoing (host : Host) (rule : Rule) (c : Config) (v : Volume)
    (root : Bytes) :
    let whole := migrate host rule (c.withPolicy .keepGoing) v
    let cut := migrate host rule (c.withPolicy .abort) v
    ∃ report, whole.report root (c.withPolicy .keepGoing) = .ok report ∧
      ((visitedPaths host c v).length < 2 ^ 64 →
        (report.summary.failed = 0 ↔ ∀ o ∈ whole.outcomes, o.isFailed = false)) ∧
      ((∀ o ∈ whole.outcomes, o.isFailed = false) →
        cut.report root (c.withPolicy .abort) = .ok report ∧ cut.outcomes = whole.outcomes ∧
          cut.volume = whole.volume) ∧
      ((∃ o ∈ whole.outcomes, o.isFailed) →
        ∃ before path after e, visitedPaths host c v = before ++ path :: after ∧
          cut.report root (c.withPolicy .abort) = .error e ∧
          StopsAt host rule c v whole cut before path after e) := by
  intro whole cut
  have hwhole : whole =
      visitFiles host rule (c.withPolicy .keepGoing) v (visitedPaths host c v) := by
    rw [← visitedPaths_withPolicy .keepGoing]
    rfl
  have hcut : cut = visitFiles host rule (c.withPolicy .abort) v (visitedPaths host c v) := by
    rw [← visitedPaths_withPolicy .abort]
    rfl
  have hgone : whole.stopped = none := by rw [hwhole, stopped_visitFiles rfl]
  have hreport : whole.report root (c.withPolicy .keepGoing) =
      .ok (.ofOutcomes root c.dryRun whole.outcomes) := by
    rw [Run.report, hgone]
    rfl
  refine ⟨_, hreport, fun hlength => ?_, fun hquiet => ?_, fun hfailed => ?_⟩
  · refine Report.failed_ofOutcomes_eq_zero_iff ?_
    rwa [← List.length_map Outcome.path, hwhole, map_path_visitFiles rfl]
  · have hsame : cut = whole := by
      rw [hwhole] at hquiet
      rw [hcut, hwhole, visitFiles_abort_of_quiet hquiet]
    rw [hsame]
    exact ⟨hreport, rfl, rfl⟩
  · rw [hwhole] at hfailed
    obtain ⟨before, path, after, e, hpaths, hstops⟩ := exists_stopsAt_visitFiles hfailed
    rw [← hwhole, ← hcut] at hstops
    refine ⟨before, path, after, e, hpaths, ?_, hstops⟩
    rw [Run.report, hstops.stopped]

/-- The second of three files is no text. A run that stops has edited the first by then, and leaves
the third to a run that goes on. -/
theorem migrate_abort_of_keepGoing_broken_text :
    let lib := Bytes.ofString "lib"
    let first := Bytes.ofString "a.dart"
    let second := Bytes.ofString "b.dart"
    let third := Bytes.ofString "c.dart"
    let call : File := ⟨Bytes.ofString "c.withOpacity(x)", {}⟩
    let entries : Entries := [(first, .file 0), (second, .file 1), (third, .file 2)]
    let v : Volume := ⟨⟨⟨{}, [(lib, .directory {} entries)]⟩, []⟩, [call, ⟨[0xFF], {}⟩, call]⟩
    let host : Host := { home := Bytes.ofString "home" }
    let whole := migrate host .withOpacity (Config.withPolicy {} .keepGoing) v
    let cut := migrate host .withOpacity (Config.withPolicy {} .abort) v
    ∃ before path after e,
      [Path.join lib first, Path.join lib second, Path.join lib third] =
        before ++ path :: after ∧
      cut.report lib (Config.withPolicy {} .abort) = .error e ∧
      StopsAt host .withOpacity {} v whole cut before path after e := by
  intro lib first second third call entries v host whole cut
  have hroot : Config.rootPath host.home {} = lib := by decide
  have hlib : v.tree.resolve lib = .ok (.inside ⟨⟨{}, entries⟩, [(lib, v.tree.root)]⟩) :=
    Tree.resolve_eq_of_followWithin (n := 1) (by decide) (by decide) (by decide) rfl
  have hpaths : visitedPaths host {} v =
      [Path.join lib first, Path.join lib second, Path.join lib third] := by
    rw [visitedPaths, hroot]
    exact Walk.walk_eq_map_of_visited hlib rfl rfl (by decide +kernel)
  have hwhole : whole = visitFiles host .withOpacity (Config.withPolicy {} .keepGoing) v
      [Path.join lib first, Path.join lib second, Path.join lib third] := by
    rw [← hpaths, ← visitedPaths_withPolicy .keepGoing]
    rfl
  have hid : v.tree.fileAt? (Path.join lib first) = some 0 :=
    Tree.fileAt?_eq_of_followWithin (n := 2) (by decide) (by decide) (by decide) rfl
  have hsecond : v.tree.resolve (Path.join lib second) = .ok (.leaf (.file 1)) :=
    Tree.resolve_eq_of_followWithin (n := 2) (by decide) (by decide) (by decide) rfl
  have hwrites : WritesBack host .withOpacity (Config.withPolicy {} .keepGoing) 0 call :=
    ⟨rfl, rfl, by decide, by decide +kernel, rfl, rfl, rfl⟩
  have hbroken : ∀ content, ∃ e, processFile host .withOpacity (Config.withPolicy {} .keepGoing)
      (v.setContent 0 content) (Path.join lib second) = (.error e, v.setContent 0 content) := by
    intro content
    have hread : ∃ e, (v.setContent 0 content).readText host.disk (Path.join lib second) =
        .error e := by
      rw [Volume.readText, Volume.read, Volume.tree_setContent, hsecond]
      exact ⟨_, rfl⟩
    obtain ⟨e, he⟩ := hread
    exact ⟨e, by rw [processFile, he]⟩
  have hfailed : ∃ o ∈ whole.outcomes, o.isFailed := by
    rw [hwhole, visitFiles_cons_of_writesBack hid rfl hwrites rfl]
    obtain ⟨e, he⟩ := hbroken
      (Rule.withOpacity.apply (Config.withPolicy {} .keepGoing).mode call.content).text
    rw [visitFiles_cons_of_keepGoing rfl he]
    exact ⟨_, .tail _ (.head _), rfl⟩
  obtain ⟨-, -, -, -, hstops⟩ := migrate_abort_of_keepGoing host .withOpacity {} v lib
  obtain ⟨before, path, after, e, hvisited, hrest⟩ := hstops hfailed
  exact ⟨before, path, after, e, hpaths ▸ hvisited, hrest⟩

end CallMigration
