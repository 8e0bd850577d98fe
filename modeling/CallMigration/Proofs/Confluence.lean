import CallMigration.Proofs.Reordering
import CallMigration.Proofs.Reports

/-!
# Visits in another order

A run that keeps going comes to the same volume and to the same counts in whatever order it visits
its paths. Visits of different files do not touch each other. Visits of one file do the same one
after another, whichever of its paths is the first.

## Main Definitions

* `Outcome.kind` — an outcome without its path and without the wording of a failure

## Main Statements

* `snd_processFile_comm` — two paths may be processed in either order
* `visitFiles_of_perm` — the paths of a run may be visited in any order
* `migrate_of_reorders` — the directories of a volume may list their entries in any order

## Design Notes

Where two paths lead to one file, the first outcome is that of the first visit, whichever path this
is: in shallow mode the path that comes second may be fixed once more. So the outcomes of a path
differ with the order, and the counts are compared by the kinds of outcomes, which name no path. A
failure names its path in its wording, and the wording is not counted.
-/

namespace CallMigration

variable {host : Host} {rule : Rule} {c : Config} {v w : Volume} {p q : Bytes}

/-! ### Kinds of outcomes -/

/-- A status without the wording of a failure. -/
def Status.kind : Status → Status
  | failed _ => .failed ""
  | s => s

/-- An outcome without its path and without the wording of a failure. -/
def Outcome.kind (o : Outcome) : Outcome := ⟨[], o.status.kind⟩

/-- What is counted of an outcome is its kind. -/
theorem Summary.ofOutcomes_map_kind (outcomes : List Outcome) :
    ofOutcomes (outcomes.map Outcome.kind) = ofOutcomes outcomes := by
  have hfixed : Outcome.isFixed ∘ Outcome.kind = Outcome.isFixed := by
    funext ⟨_, status⟩
    cases status <;> rfl
  have hfailed : Outcome.isFailed ∘ Outcome.kind = Outcome.isFailed := by
    funext ⟨_, status⟩
    cases status <;> rfl
  have hreplaced : Outcome.replacements ∘ Outcome.kind = Outcome.replacements := by
    funext ⟨_, status⟩
    cases status <;> rfl
  rw [ofOutcomes, ofOutcomes, List.length_map, List.countP_map, List.countP_map, List.map_map,
    hfixed, hfailed, hreplaced]

/-! ### Two visits -/

theorem Volume.setContent_comm {id id' : FileId} (h : id ≠ id') (a b : Bytes) :
    (v.setContent id a).setContent id' b = (v.setContent id' b).setContent id a :=
  congrArg (Volume.mk v.tree) (List.modify_modify_ne _ _ v.files h)

/-- Two paths to one file do the same to it, and are reported alike. -/
theorem processFile_of_sameFile (host : Host) (rule : Rule) (c : Config)
    (h : v.tree.SameFile p q) :
    (processFile host rule c v p).2 = (processFile host rule c v q).2 ∧
      (outcomeAt host rule c v p).kind = (outcomeAt host rule c v q).kind := by
  obtain ⟨id, hp, hq⟩ := h
  rw [outcomeAt, outcomeAt]
  cases hfile : v.files[id]? with
  | none =>
    have hnone : ∀ {path}, v.tree.fileAt? path = some id → v.file? path = none := by
      intro path hid
      rw [Volume.file?, hid, Option.bind_some, hfile, Option.map_none]
    obtain ⟨e, he⟩ := Tree.exists_visitElsewhere_eq_error (Tree.not_streams_of_fileAt? hp)
    obtain ⟨e', he'⟩ := Tree.exists_visitElsewhere_eq_error (Tree.not_streams_of_fileAt? hq)
    rw [processFile_of_file?_eq_none (hnone hp), processFile_of_file?_eq_none (hnone hq), he, he']
    exact ⟨rfl, rfl⟩
  | some f =>
    rw [processFile_of_file? (Volume.file?_eq_some_iff.2 ⟨hp, hfile⟩),
      processFile_of_file? (Volume.file?_eq_some_iff.2 ⟨hq, hfile⟩)]
    refine ⟨rfl, ?_⟩
    cases (f.visit host rule c id).1 <;> rfl

/-- Two paths may be processed in either order. -/
theorem snd_processFile_comm (host : Host) (rule : Rule) (c : Config) (v : Volume) (p q : Bytes) :
    (processFile host rule c (processFile host rule c v p).2 q).2 =
      (processFile host rule c (processFile host rule c v q).2 p).2 := by
  by_cases hsame : v.tree.SameFile p q
  · rw [(processFile_of_sameFile host rule c hsame).1]
    refine (processFile_of_sameFile host rule c ?_).1.symm
    rwa [tree_processFile]
  · have hp : (processFile host rule c v q).2.file? p = v.file? p :=
      file?_processFile fun h => hsame h.symm
    have hq : (processFile host rule c v p).2.file? q = v.file? q := file?_processFile hsame
    cases hpfile : v.file? p with
    | none =>
      rw [processFile_of_file?_eq_none hpfile, processFile_of_file?_eq_none (hp.trans hpfile)]
    | some a =>
      cases hqfile : v.file? q with
      | none =>
        rw [processFile_of_file?_eq_none hqfile, processFile_of_file?_eq_none (hq.trans hqfile)]
      | some b =>
        obtain ⟨id, f⟩ := a
        obtain ⟨id', g⟩ := b
        have hne : id ≠ id' := by
          rintro rfl
          exact hsame ⟨id, (Volume.file?_eq_some_iff.1 hpfile).1,
            (Volume.file?_eq_some_iff.1 hqfile).1⟩
        rw [processFile_of_file? (hq.trans hqfile), processFile_of_file? (hp.trans hpfile),
          processFile_of_file? hpfile, processFile_of_file? hqfile]
        exact Volume.setContent_comm hne _ _

/-- The outcomes of two paths are of the same kinds in either order. -/
theorem perm_kinds_processFile (host : Host) (rule : Rule) (c : Config) (v : Volume)
    (p q : Bytes) :
    [(outcomeAt host rule c v p).kind,
        (outcomeAt host rule c (processFile host rule c v p).2 q).kind].Perm
      [(outcomeAt host rule c v q).kind,
        (outcomeAt host rule c (processFile host rule c v q).2 p).kind] := by
  by_cases hsame : v.tree.SameFile p q
  · obtain ⟨hvolume, hkind⟩ := processFile_of_sameFile host rule c hsame
    have hagain : (processFile host rule c v q).2.tree.SameFile q p := by
      rw [tree_processFile]
      exact hsame.symm
    rw [hvolume, hkind, (processFile_of_sameFile host rule c hagain).2]
  · rw [outcomeAt_processFile hsame, outcomeAt_processFile fun h => hsame h.symm]
    exact .swap _ _ _

/-! ### Runs -/

/-- The paths of a run that keeps going may be visited in any order: the volume is the same, and the
outcomes are of the same kinds. -/
theorem visitFiles_of_perm (host : Host) (rule : Rule) (hc : c.onError = .keepGoing)
    {paths paths' : List Bytes} (h : paths.Perm paths') (v : Volume) :
    (visitFiles host rule c v paths).volume = (visitFiles host rule c v paths').volume ∧
      ((visitFiles host rule c v paths).outcomes.map Outcome.kind).Perm
        ((visitFiles host rule c v paths').outcomes.map Outcome.kind) := by
  induction h generalizing v with
  | nil => exact ⟨rfl, .nil⟩
  | cons path h ih =>
    rw [visitFiles_cons_of_goesOn hc, visitFiles_cons_of_goesOn hc]
    obtain ⟨hvolume, hkinds⟩ := ih (processFile host rule c v path).2
    exact ⟨hvolume, hkinds.cons _⟩
  | swap p q paths =>
    rw [visitFiles_cons_of_goesOn hc, visitFiles_cons_of_goesOn hc, visitFiles_cons_of_goesOn hc,
      visitFiles_cons_of_goesOn hc, snd_processFile_comm host rule c v p q]
    exact ⟨rfl, (perm_kinds_processFile host rule c v q p).append_right _⟩
  | trans h h' ih ih' =>
    obtain ⟨hvolume, hkinds⟩ := ih v
    obtain ⟨hvolume', hkinds'⟩ := ih' v
    exact ⟨hvolume.trans hvolume', hkinds.trans hkinds'⟩

/-- When no two paths lead to one file, the outcomes are the same up to their order. -/
theorem perm_outcomes_visitFiles (host : Host) (rule : Rule) (hc : c.onError = .keepGoing)
    {paths paths' : List Bytes} (h : paths.Perm paths')
    (hpaths : paths.Pairwise fun p q => ¬ v.tree.SameFile p q) :
    (visitFiles host rule c v paths).outcomes.Perm (visitFiles host rule c v paths').outcomes := by
  have hpaths' := h.pairwise hpaths fun hpq hqp => hpq hqp.symm
  rw [outcomes_visitFiles_of_pairwise hc hpaths, outcomes_visitFiles_of_pairwise hc hpaths']
  exact h.map _

/-- In whatever order the directories of a volume list their entries, a run that keeps going leaves
the same files and reports the same counts. When no two paths lead to one file, it also lists the
same files and the same failures, in some order. -/
theorem migrate_of_reorders (h : v.Reorders w) (hc : c.onError = .keepGoing) (host : Host)
    (rule : Rule) (root : Bytes) :
    let one := migrate host rule c v
    let other := migrate host rule c w
    one.volume.Reorders other.volume ∧
      ∃ report report', one.report root c = .ok report ∧ other.report root c = .ok report' ∧
        report.summary = report'.summary ∧
        ((visitedPaths host c v).Pairwise (fun p q => ¬ v.tree.SameFile p q) →
          report.files.Perm report'.files ∧ report.failedPaths.Perm report'.failedPaths) := by
  intro one other
  have hpaths : (visitedPaths host c v).Perm (visitedPaths host c w) := visitedPaths_of_reorders h
  -- first the paths in the other order, then the other volume
  obtain ⟨hvolume, hkinds⟩ := visitFiles_of_perm host rule hc hpaths v
  obtain ⟨houtcomes, hleft⟩ := visitFiles_of_reorders host rule h hc (visitedPaths host c w)
  refine ⟨?_, _, _, report_migrate hc host rule v root, report_migrate hc host rule w root, ?_,
    fun hdistinct => ?_⟩
  · show (visitFiles host rule c v (visitedPaths host c v)).volume.Reorders _
    rw [hvolume]
    exact hleft
  · have hsummary := Summary.ofOutcomes_perm hkinds
    rw [Summary.ofOutcomes_map_kind, Summary.ofOutcomes_map_kind, ← houtcomes] at hsummary
    rw [Report.ofOutcomes_eq, Report.ofOutcomes_eq]
    exact hsummary
  · have hperm := perm_outcomes_visitFiles host rule hc hpaths hdistinct
    rw [← houtcomes] at hperm
    have hfiles := hperm.filter fun o => o.status ≠ .unchanged
    rw [Report.ofOutcomes_eq, Report.ofOutcomes_eq]
    exact ⟨hfiles, (hfiles.filter _).map _⟩

/-- A directory with a file and a link to it, and one with a file and a file that is no text, each
in both orders. The link counts for a second edit whether it comes before the file or behind it. -/
theorem migrate_of_reorders_link :
    let lib := Bytes.ofString "lib"
    let file := Bytes.ofString "a.dart"
    let link := Bytes.ofString "l.dart"
    let broken := Bytes.ofString "z.dart"
    let f : File := ⟨Bytes.ofString "a.withOpacity(b.withOpacity(c))", {}⟩
    let volumeOf (entries : Entries) : Volume :=
      ⟨⟨⟨{}, [(lib, .directory {} entries)]⟩, []⟩, [f, ⟨[0xFF], {}⟩]⟩
    let host : Host := { home := Bytes.ofString "home" }
    let c : Config := { onError := .keepGoing }
    let run (entries : Entries) : Run := migrate host .withOpacity c (volumeOf entries)
    let linked : Entries := [(file, .file 0), (link, .link file)]
    let apart : Entries := [(file, .file 0), (broken, .file 1)]
    c.onError = .keepGoing ∧
      ((volumeOf linked).Reorders (volumeOf linked.reverse) ∧
        ∃ report, (run linked.reverse).report lib c = .ok report ∧
          report.summary = { scanned := 2, changed := 2, replacements := 2 }) ∧
      (volumeOf apart).Reorders (volumeOf apart.reverse) ∧
        ∃ report, (run apart.reverse).report lib c = .ok report ∧
          report.failedPaths = ["lib/z.dart"] := by
  intro lib file link broken f volumeOf host c run linked apart
  have hreorders : ∀ {entries : Entries}, Directory.WellFormed ⟨{}, entries⟩ →
      (volumeOf entries).Reorders (volumeOf entries.reverse) := by
    intro entries hentries
    obtain ⟨-, hnames, hbelow⟩ := hentries.reorders_of_perm (List.reverse_perm entries).symm
    refine ⟨⟨⟨rfl, .refl _, fun name node node' hnode hnode' => ?_⟩, rfl⟩, rfl⟩
    cases List.mem_singleton.1 hnode
    cases List.mem_singleton.1 hnode'
    exact .directory hnames hbelow
  have hlinked : (volumeOf linked).Reorders (volumeOf linked.reverse) :=
    hreorders ((Entries.areWellFormed_iff {} _).1 (by decide))
  have hapart : (volumeOf apart).Reorders (volumeOf apart.reverse) :=
    hreorders ((Entries.areWellFormed_iff {} _).1 (by decide))
  have hfile : (volumeOf linked).tree.fileAt? (Path.join lib file) = some 0 :=
    Walk.fileAt?_linkedTree_file _
  have hlink : (volumeOf linked).tree.fileAt? (Path.join lib link) = some 0 :=
    Walk.fileAt?_linkedTree_link _
  have hfile' : (volumeOf apart).tree.fileAt? (Path.join lib file) = some 0 :=
    Tree.fileAt?_eq_of_followWithin (n := 2) (by decide) (by decide) (by decide) rfl
  have hbroken : (volumeOf apart).tree.fileAt? (Path.join lib broken) = some 1 :=
    Tree.fileAt?_eq_of_followWithin (n := 2) (by decide) (by decide) (by decide) rfl
  have hpaths : visitedPaths host c (volumeOf linked) =
      [Path.join lib file, Path.join lib link] :=
    Walk.walk_linkedTree host.home rfl rfl rfl (List.forall_mem_nil _)
  have hpaths' : visitedPaths host c (volumeOf apart) =
      [Path.join lib file, Path.join lib broken] :=
    Walk.walk_default_root host.home rfl rfl (by decide +kernel)
  let once := (Rule.withOpacity.apply .shallow f.content).text
  let twice := (Rule.withOpacity.apply .shallow once).text
  have hedit : f.visit host .withOpacity c 0 = (.ok (.fixed 1), once) := by decide +kernel
  have hagain : File.visit host .withOpacity c 0 ⟨once, {}⟩ = (.ok (.fixed 1), twice) := by
    decide +kernel
  let x : Failure := ⟨"read", "not valid UTF-8 at byte 0"⟩
  have hnoText : File.visit host .withOpacity c 1 ⟨[0xFF], {}⟩ = (.error x, [0xFF]) := by
    decide +kernel
  obtain ⟨-, one, other, hone, hother, hsummary, -⟩ :=
    migrate_of_reorders (c := c) hlinked rfl host .withOpacity lib
  obtain ⟨-, one', other', hone', hother', -, hreported⟩ :=
    migrate_of_reorders (c := c) hapart rfl host .withOpacity lib
  refine ⟨rfl, ⟨hlinked, other, hother, ?_⟩, hapart, other', hother', ?_⟩
  · have houtcomes : (run linked).outcomes =
        [⟨Path.join lib file, .fixed 1⟩, ⟨Path.join lib link, .fixed 1⟩] := by
      show (visitFiles host _ c _ (visitedPaths host c (volumeOf linked))).outcomes = _
      rw [hpaths, visitFiles_cons_of_ok (processFile_of_visit hfile rfl hedit),
        visitFiles_cons_of_ok (processFile_of_visit (v := (volumeOf linked).setContent 0 once)
          hlink rfl hagain)]
      rfl
    rw [report_migrate rfl, Except.ok.injEq] at hone
    rw [← hsummary, ← hone, Report.ofOutcomes_eq]
    show Summary.ofOutcomes (run linked).outcomes = _
    rw [houtcomes]
    decide
  · have hdistinct : (visitedPaths host c (volumeOf apart)).Pairwise
        fun p q => ¬ (volumeOf apart).tree.SameFile p q := by
      rw [hpaths', List.pairwise_pair]
      rintro ⟨id, hp, hq⟩
      rw [hfile'] at hp
      rw [hbroken, ← hp] at hq
      cases hq
    have hperm := (hreported hdistinct).2
    have houtcomes : (run apart).outcomes = [⟨Path.join lib file, .fixed 1⟩,
        ⟨Path.join lib broken, .failed (x.errorAt (Path.join lib broken)).display⟩] := by
      show (visitFiles host _ c _ (visitedPaths host c (volumeOf apart))).outcomes = _
      rw [hpaths', visitFiles_cons_of_ok (processFile_of_visit hfile' rfl hedit),
        visitFiles_cons_of_keepGoing rfl (processFile_of_visit
          (v := (volumeOf apart).setContent 0 once) hbroken rfl hnoText)]
      rfl
    have hfailed : one'.failedPaths = ["lib/z.dart"] := by
      rw [report_migrate rfl, Except.ok.injEq] at hone'
      rw [← hone', Report.ofOutcomes_eq]
      show (((run apart).outcomes.filter _).filter _).map _ = _
      rw [houtcomes]
      decide +kernel
    rw [hfailed] at hperm
    exact List.perm_singleton.1 hperm.symm

end CallMigration
