import CallMigration.Proofs.Reports
import CallMigration.Proofs.Selection
import CallMigration.Proofs.Visits

/-!
# A report accounts for its run

A run that nothing stops has one outcome for each path that it visits, in the order of the visits.
Its report lists the outcomes that are not of unchanged files, and counts all of them, as long as
the counts fit into words.

## Main Definitions

* `Outcome.isUnchanged` — a file needed no change
* `Report.AccountsFor` — what a report says about the paths of a run and their outcomes

## Main Statements

* `Report.accountsFor_ofOutcomes` — a report accounts for the outcomes that it is made of
* `migrate_accounts` — the report of a run accounts for the paths that the run visits

## Design Notes

An outcome has exactly one of three kinds, so the number of outcomes is the sum of three counts,
and what is listed are those of two kinds. No count of outcomes exceeds their number; only the sum
of the replacements needs room of its own.
-/

namespace CallMigration

/-! ### Three kinds of outcomes -/

/-- Whether the file needed no change. -/
def Outcome.isUnchanged (o : Outcome) : Bool := o.status = .unchanged

/-- Every outcome is of one of three kinds. -/
theorem Outcome.length_eq_add_countP (outcomes : List Outcome) :
    outcomes.length = outcomes.countP isUnchanged + outcomes.countP isFixed +
      outcomes.countP isFailed := by
  induction outcomes with
  | nil => rfl
  | cons o outcomes ih =>
    obtain ⟨path, status⟩ := o
    rw [List.length_cons, List.countP_cons, List.countP_cons, List.countP_cons, ih]
    cases status <;> simp [isUnchanged, isFixed, isFailed] <;> omega

/-- What is listed are the outcomes of two kinds. -/
theorem Outcome.length_filter_eq_add_countP (outcomes : List Outcome) :
    (outcomes.filter fun o => o.status ≠ .unchanged).length =
      outcomes.countP isFixed + outcomes.countP isFailed := by
  have hkinds := length_eq_add_countP outcomes
  have hsplit := outcomes.length_eq_countP_add_countP isUnchanged
  have hlisted : (outcomes.filter fun o => o.status ≠ .unchanged).length =
      outcomes.countP fun o => ¬ isUnchanged o := by
    simp only [List.countP_eq_length_filter, isUnchanged, decide_eq_true_eq, ne_eq, decide_not]
  omega

namespace Report

/-- What a report says about the paths that a run visits, and about the outcomes that it announces.
The counts are right as long as they fit into words of 64 bits. -/
structure AccountsFor (report : Report) (paths : List Bytes) (outcomes : List Outcome) : Prop where
  /-- There is one outcome for each path, in the order of the visits. -/
  visits : outcomes.map Outcome.path = paths
  /-- The outcomes that are not of unchanged files are listed, in their order. -/
  files : report.files = outcomes.filter fun o => o.status ≠ .unchanged
  scanned : paths.length < 2 ^ 64 → report.summary.scanned.toNat = paths.length
  changed : outcomes.countP Outcome.isFixed < 2 ^ 64 →
    report.summary.changed.toNat = outcomes.countP Outcome.isFixed
  failed : outcomes.countP Outcome.isFailed < 2 ^ 64 →
    report.summary.failed.toNat = outcomes.countP Outcome.isFailed
  replacements : (outcomes.map Outcome.replacements).sum < 2 ^ 64 →
    report.summary.replacements.toNat = (outcomes.map Outcome.replacements).sum
  /-- The counts add up. -/
  split : paths.length < 2 ^ 64 → report.summary.scanned.toNat =
    outcomes.countP Outcome.isUnchanged + report.summary.changed.toNat +
      report.summary.failed.toNat
  /-- What is listed is what is counted as changed or failed. -/
  listed : paths.length < 2 ^ 64 →
    report.files.length = report.summary.changed.toNat + report.summary.failed.toNat
  /-- The paths of the failed files are shown, in the order of the visits. -/
  failedPaths : report.failedPaths = (outcomes.filter Outcome.isFailed).map Outcome.shownPath
  /-- As many of them as are counted. -/
  failedCount : paths.length < 2 ^ 64 →
    report.failedPaths.length = report.summary.failed.toNat

variable {root : Bytes} {dryRun : Bool} {paths : List Bytes} {outcomes : List Outcome}

/-- A report accounts for the outcomes that it is made of. -/
theorem accountsFor_ofOutcomes (hvisits : outcomes.map Outcome.path = paths) :
    (ofOutcomes root dryRun outcomes).AccountsFor paths outcomes := by
  have hlength : paths.length = outcomes.length := by rw [← hvisits, List.length_map]
  have hkinds := Outcome.length_eq_add_countP outcomes
  have hfiles : (ofOutcomes root dryRun outcomes).files =
      outcomes.filter fun o => o.status ≠ .unchanged := by rw [ofOutcomes_eq]
  have hword : ∀ n < 2 ^ 64, (UInt64.ofNat n).toNat = n := fun n => UInt64.toNat_ofNat_of_lt'
  have hscanned : paths.length < 2 ^ 64 →
      (ofOutcomes root dryRun outcomes).summary.scanned.toNat = paths.length := by
    intro hfit
    rw [hlength] at hfit ⊢
    rw [ofOutcomes_eq]
    exact hword _ hfit
  have hchanged : outcomes.countP Outcome.isFixed < 2 ^ 64 →
      (ofOutcomes root dryRun outcomes).summary.changed.toNat =
        outcomes.countP Outcome.isFixed := by
    intro hfit
    rw [ofOutcomes_eq]
    exact hword _ hfit
  have hfailed : outcomes.countP Outcome.isFailed < 2 ^ 64 →
      (ofOutcomes root dryRun outcomes).summary.failed.toNat =
        outcomes.countP Outcome.isFailed := by
    intro hfit
    rw [ofOutcomes_eq]
    exact hword _ hfit
  refine ⟨hvisits, hfiles, hscanned, hchanged, hfailed, ?_, ?_, ?_, failedPaths_ofOutcomes, ?_⟩
  · intro hfit
    rw [ofOutcomes_eq]
    exact hword _ hfit
  · intro hfit
    rw [hscanned hfit, hchanged (by omega), hfailed (by omega), hlength, hkinds]
  · intro hfit
    rw [hchanged (by omega), hfailed (by omega), hfiles, Outcome.length_filter_eq_add_countP]
  · intro hfit
    rw [failedPaths_ofOutcomes, hfailed (by omega), List.length_map, List.countP_eq_length_filter]

end Report

/-! ### Runs -/

variable {host : Host} {rule : Rule} {c : Config} {v : Volume} {report : Report}

/-- A run that has a report was not stopped, and the report is that of its outcomes. -/
theorem Run.report_eq_ok_iff {r : Run} {root : Bytes} :
    r.report root c = .ok report ↔
      r.stopped = none ∧ report = .ofOutcomes root c.dryRun r.outcomes := by
  unfold Run.report
  cases r.stopped with
  | none => simp [eq_comm]
  | some e => simp

/-- The report of a run accounts for the paths that the run visits and for the outcomes that it
announces, for all volumes, rules, configurations and disks. -/
theorem migrate_accounts
    (h : (migrate host rule c v).report (c.rootPath host.home) c = .ok report) :
    report.AccountsFor (visitedPaths host c v) (migrate host rule c v).outcomes := by
  obtain ⟨hgone, rfl⟩ := Run.report_eq_ok_iff.1 h
  exact Report.accountsFor_ofOutcomes (map_path_of_stopped_eq_none hgone)

/-- One file has a call, one is no text, and one needs no change. -/
theorem migrate_accounts_mixed :
    let lib := Bytes.ofString "lib"
    let first := Bytes.ofString "a.dart"
    let second := Bytes.ofString "b.dart"
    let third := Bytes.ofString "c.dart"
    let v : Volume :=
      ⟨⟨⟨{}, [(lib, .directory {} [(first, .file 0), (second, .file 1), (third, .file 2)])]⟩, []⟩,
        [⟨Bytes.ofString "c.withOpacity(x)", {}⟩, ⟨[0xFF], {}⟩, ⟨[], {}⟩]⟩
    let host : Host := { home := Bytes.ofString "home" }
    let c : Config := { onError := .keepGoing }
    let run := migrate host .withOpacity c v
    ∃ report, run.report (c.rootPath host.home) c = .ok report ∧
      report.AccountsFor (visitedPaths host c v) run.outcomes ∧
      report.summary = ⟨3, 1, 1, 1⟩ ∧ report.failedPaths = ["lib/b.dart"] := by
  intro lib first second third v host c run
  have hfirst : v.tree.fileAt? (Path.join lib first) = some 0 :=
    Tree.fileAt?_eq_of_followWithin (n := 2) (by decide) (by decide) (by decide) rfl
  have hsecond : v.tree.fileAt? (Path.join lib second) = some 1 :=
    Tree.fileAt?_eq_of_followWithin (n := 2) (by decide) (by decide) (by decide) rfl
  have hthird : v.tree.fileAt? (Path.join lib third) = some 2 :=
    Tree.fileAt?_eq_of_followWithin (n := 2) (by decide) (by decide) (by decide) rfl
  have hpaths : visitedPaths host c v =
      [Path.join lib first, Path.join lib second, Path.join lib third] :=
    Walk.walk_default_root host.home rfl rfl (by decide +kernel)
  have hother : (visitedPaths host c v).Pairwise fun p q => ¬ v.tree.SameFile p q := by
    simp only [hpaths, List.pairwise_cons, Tree.SameFile]
    simp [hfirst, hsecond, hthird]
  have hcall : (⟨Bytes.ofString "c.withOpacity(x)", {}⟩ : File).visit host .withOpacity c 0 =
      (.ok (.fixed 1), Bytes.ofString "c.withValues(alpha: x)") := by decide +kernel
  have hbroken : (⟨[0xFF], {}⟩ : File).visit host .withOpacity c 1 =
      (.error ⟨"read", "not valid UTF-8 at byte 0"⟩, [0xFF]) := by decide +kernel
  have hempty : (⟨[], {}⟩ : File).visit host .withOpacity c 2 = (.ok .unchanged, []) := by
    decide +kernel
  have houtcomes : run.outcomes = [⟨Path.join lib first, .fixed 1⟩,
      ⟨Path.join lib second, .failed
        (Failure.errorAt ⟨"read", "not valid UTF-8 at byte 0"⟩ (Path.join lib second)).display⟩,
      ⟨Path.join lib third, .unchanged⟩] := by
    show (visitFiles host _ _ v (visitedPaths host c v)).outcomes = _
    rw [outcomes_visitFiles_of_pairwise rfl hother, hpaths]
    simp only [List.map_cons, List.map_nil, outcomeAt, processFile_of_visit hfirst rfl hcall,
      processFile_of_visit hsecond rfl hbroken, processFile_of_visit hthird rfl hempty]
    rfl
  have hreport := report_migrate (c := c) rfl host .withOpacity v (c.rootPath host.home)
  refine ⟨_, hreport, migrate_accounts hreport, ?_, ?_⟩
  · rw [Report.ofOutcomes_eq]
    show Summary.ofOutcomes run.outcomes = _
    rw [houtcomes]
    rfl
  · have hshown : Utf8.decodeLossy (Path.join lib second) = "lib/b.dart" := by decide +kernel
    rw [Report.failedPaths_ofOutcomes, ← hshown]
    show (run.outcomes.filter _).map _ = _
    rw [houtcomes]
    rfl

end CallMigration
