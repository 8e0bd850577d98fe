import CallMigration.Proofs.Announcements
import CallMigration.Proofs.Reports
import CallMigration.Proofs.Validity
import CallMigration.Proofs.Visits

/-!
# Running twice

A balanced run that stores what it writes leaves nothing to do. A file that it has edited is a text
still, and one in which nothing is to be replaced; a file that it could not read or write is as it
was, and fails in the same way. So a second run repeats the first one without its edits.

## Main Definitions

* `Status.settled` — what is reported a second time

## Main Statements

* `File.visit_visit` — the second visit of a file
* `visitFiles_visitFiles` — the second run over the same paths
* `migrate_withOpacity_twice` — the second run of the built-in rule
* `migrate_withOpacity_twice_full_disk` — on a disk that does not store what is written, it finds
  another text

## Design Notes

Behind its first visit a file is settled, so whatever the rest of the first run does, also through
other paths to the same file, the second run finds the file as that visit has left it.
-/

namespace CallMigration

/-- What is reported a second time: what was fixed needs no change. -/
def Status.settled : Status → Status
  | fixed _ => .unchanged
  | s => s

/-- The outcome of a second visit. -/
def Outcome.settled (o : Outcome) : Outcome := { o with status := o.status.settled }

/-! ### The second visit of a file -/

variable {host : Host} {rule : Rule} {c : Config} {v : Volume} {path : Bytes} {id : FileId}
  {f : File}

namespace File

/-- A file with another text can be read when it could be read before. -/
theorem readText_withContent {disk : Disk} {text text' : Bytes}
    (h : f.readText disk id = .ok text) (hvalid : Utf8.Valid text') :
    ({ f with content := text' } : File).readText disk id = .ok text' := by
  unfold readText at h ⊢
  split at h
  · cases h
  next hread =>
    rw [if_neg hread]
    split at h
    · cases h
    next hreading =>
      have htext : Utf8.invalidAt? text' = none := hvalid
      simp only [htext]

/-- A visit leaves a file as it is and reports no edit, or it edits the text of the file. -/
theorem visit_cases (hstores : host.disk.Stores) (hwet : c.dryRun = false) (rule : Rule)
    (id : FileId) (f : File) :
    ((f.visit host rule c id).2 = f.content ∧
      (f.visit host rule c id).1.map Status.settled = (f.visit host rule c id).1) ∨
    (f.readText host.disk id = .ok f.content ∧ Utf8.Valid f.content ∧
      f.visit host rule c id =
        (.ok (.fixed (rule.apply c.mode f.content).replacements),
          (rule.apply c.mode f.content).text)) := by
  rw [visit]
  cases htext : f.readText host.disk id with
  | error x => exact .inl ⟨rfl, rfl⟩
  | ok text =>
    obtain ⟨rfl, hvalid⟩ := readText_eq_ok htext
    by_cases hchanges : (rule.apply c.mode f.content).text = f.content
    · simp only [if_pos hchanges, true_and]
      exact .inl rfl
    · simp only [if_neg hchanges, hwet, Bool.false_eq_true, if_false, true_and]
      cases f.refusal? host.disk id with
      | some cause => exact .inl ⟨rfl, rfl⟩
      | none =>
        rw [hstores]
        exact .inr ⟨hvalid, rfl⟩

/-- A second visit leaves the file as the first one did, and finds nothing to edit. -/
theorem visit_visit (hstores : host.disk.Stores) (hwet : c.dryRun = false)
    (hmode : c.mode = .balanced) (hplain : rule.Plain) (id : FileId) (f : File) :
    ({ f with content := (f.visit host rule c id).2 } : File).visit host rule c id =
      ((f.visit host rule c id).1.map Status.settled, (f.visit host rule c id).2) := by
  obtain ⟨hsame, hsettled⟩ | ⟨htext, hvalid, hedited⟩ := visit_cases hstores hwet rule id f
  · have hself : { f with content := (f.visit host rule c id).2 } = f := by rw [hsame]
    rw [hself, hsettled]
  · rw [hedited, visit, readText_withContent htext (Rule.valid_text_apply rule c.mode hvalid)]
    simp only [hmode, hplain.text_apply_balanced_twice, if_true]
    rfl

end File

/-! ### The second run -/

/-- Whatever a run does behind the first visit of a path, a second one settles it. -/
theorem processFile_visitFiles (hstores : host.disk.Stores) (hwet : c.dryRun = false)
    (hmode : c.mode = .balanced) (hplain : rule.Plain) (hstream : ¬ v.tree.Streams path)
    (paths : List Bytes) :
    let w := (visitFiles host rule c (processFile host rule c v path).2 paths).volume
    processFile host rule c w path =
      ((processFile host rule c v path).1.map Status.settled, w) := by
  intro w
  have htree : w.tree = v.tree := (tree_visitFiles ..).trans (tree_processFile ..)
  cases h : v.file? path with
  | none =>
    have hw : w = (visitFiles host rule c v paths).volume := by
      show (visitFiles host rule c (processFile host rule c v path).2 paths).volume = _
      rw [processFile_of_file?_eq_none h]
    have hnone : w.file? path = none := by
      rw [Volume.file?, Option.bind_eq_none_iff] at h ⊢
      intro id hid
      rw [htree] at hid
      have hout := h id hid
      rw [Option.map_eq_none_iff, List.getElem?_eq_none_iff] at hout ⊢
      rwa [hw, length_visitFiles]
    obtain ⟨e, he⟩ := Tree.exists_visitElsewhere_eq_error hstream
    rw [processFile_of_file?_eq_none hnone, processFile_of_file?_eq_none h, htree, he]
    rfl
  | some q =>
    obtain ⟨id, f⟩ := q
    obtain ⟨hid, hfile⟩ := Volume.file?_eq_some_iff.1 h
    have hsecond := File.visit_visit hstores hwet hmode hplain id f
    have hleft : w.files[id]? = some { f with content := (f.visit host rule c id).2 } := by
      refine getElem?_visitFiles_of_settled ?_ (by rw [hsecond]) paths
      rw [processFile_of_file? h]
      exact Volume.getElem?_setContent hfile _
    have hfound : w.file? path = some (id, { f with content := (f.visit host rule c id).2 }) :=
      Volume.file?_eq_some_iff.2 ⟨by rw [htree, hid], hleft⟩
    have hkept : w.setContent id (f.visit host rule c id).2 = w := Volume.setContent_self hleft
    rw [processFile_of_file? hfound, processFile_of_file? h, hsecond, hkept]
    cases (f.visit host rule c id).1 <;> rfl

/-- A second run over the same paths leaves everything as it is. It ends as the first one did, and
its outcomes are those of the first one, settled. -/
theorem visitFiles_visitFiles (hstores : host.disk.Stores) (hwet : c.dryRun = false)
    (hmode : c.mode = .balanced) (hplain : rule.Plain)
    (hstreams : ∀ path ∈ paths, ¬ v.tree.Streams path) :
    let r := visitFiles host rule c v paths
    visitFiles host rule c r.volume paths =
      { r with outcomes := r.outcomes.map Outcome.settled } := by
  induction paths generalizing v with
  | nil => rfl
  | cons path paths ih =>
    obtain ⟨hpath, hpaths⟩ := List.forall_mem_cons.1 hstreams
    have hstep := processFile_visitFiles hstores hwet hmode hplain hpath
    have htree := tree_processFile host rule c v path
    cases hvisit : processFile host rule c v path with
    | mk result w =>
      rw [hvisit] at hstep htree
      have hrest := ih (htree ▸ hpaths)
      cases result with
      | ok status =>
        rw [visitFiles_cons_of_ok hvisit]
        show visitFiles host rule c (visitFiles host rule c w paths).volume (path :: paths) = _
        rw [visitFiles_cons_of_ok (hstep paths), hrest]
        rfl
      | error e =>
        cases hc : c.onError with
        | abort =>
          rw [visitFiles_cons_of_abort hc hvisit]
          exact visitFiles_cons_of_abort hc (hstep [])
        | keepGoing =>
          rw [visitFiles_cons_of_keepGoing hc hvisit]
          show visitFiles host rule c (visitFiles host rule c w paths).volume (path :: paths) = _
          rw [visitFiles_cons_of_keepGoing hc (hstep paths), hrest]
          rfl

/-! ### The second report -/

@[simp] theorem Outcome.isFixed_settled (o : Outcome) : o.settled.isFixed = false := by
  obtain ⟨path, status⟩ := o
  cases status <;> rfl

@[simp] theorem Outcome.replacements_settled (o : Outcome) : o.settled.replacements = 0 := by
  obtain ⟨path, status⟩ := o
  cases status <;> rfl

/-- Of the settled outcomes, those that a report lists are the failures. -/
theorem filter_map_settled (outcomes : List Outcome) :
    ((outcomes.map Outcome.settled).filter fun o => o.status ≠ .unchanged) =
      outcomes.filter Outcome.isFailed := by
  induction outcomes with
  | nil => rfl
  | cons o outcomes ih =>
    obtain ⟨path, status⟩ := o
    cases status with
    | unchanged => exact ih
    | fixed n => exact ih
    | failed e => exact congrArg (⟨path, .failed e⟩ :: ·) ih

/-- A report of settled outcomes counts no edit and lists the failures. -/
theorem Report.ofOutcomes_map_settled (root : Bytes) (dryRun : Bool) (outcomes : List Outcome) :
    let report := ofOutcomes root dryRun (outcomes.map Outcome.settled)
    report.summary.changed = 0 ∧ report.summary.replacements = 0 ∧
      report.files = outcomes.filter Outcome.isFailed := by
  rw [ofOutcomes_eq]
  refine ⟨?_, ?_, filter_map_settled outcomes⟩
  · simp [Summary.ofOutcomes, List.countP_map, Function.comp_def]
  · simp [Summary.ofOutcomes, Function.comp_def]

/-! ### The built-in rule -/

/-- A second balanced run of the built-in rule leaves everything as the first one left it. It is
stopped by an error exactly when the first one was, and by the same one, and otherwise it reports no
edit and lists what failed in the first run. -/
theorem migrate_withOpacity_twice (hwell : v.tree.WellFormed) (hstores : host.disk.Stores)
    (hmode : c.mode = .balanced) (hwet : c.dryRun = false) (root : Bytes) :
    let first := migrate host .withOpacity c v
    let second := migrate host .withOpacity c first.volume
    second.volume = first.volume ∧
      (∀ e, second.report root c = .error e ↔ first.report root c = .error e) ∧
      ∀ report, second.report root c = .ok report →
        report.summary.changed = 0 ∧ report.summary.replacements = 0 ∧
          report.files = first.outcomes.filter Outcome.isFailed := by
  intro first second
  have htree : first.volume.tree = v.tree := tree_visitFiles ..
  have hpaths : visitedPaths host c first.volume = visitedPaths host c v := by
    rw [visitedPaths, visitedPaths, htree]
  have hsecond : second = { first with outcomes := first.outcomes.map Outcome.settled } := by
    show visitFiles host _ c first.volume (visitedPaths host c first.volume) = _
    rw [hpaths]
    exact visitFiles_visitFiles hstores hwet hmode Rule.plain_withOpacity
      fun path hpath => not_streams_of_mem_visitedPaths hwell hpath
  rw [hsecond, Run.report, Run.report]
  cases first.stopped with
  | some e =>
    refine ⟨rfl, fun _ => Iff.rfl, fun report h => ?_⟩
    cases h
  | none =>
    refine ⟨rfl, fun e => Iff.intro (fun h => ?_) (fun h => ?_), fun report h => ?_⟩
    · cases h
    · cases h
    · cases h
      exact Report.ofOutcomes_map_settled root c.dryRun first.outcomes

/-- A call within a call is edited at once, a link to the edited file leads to no further edit, and
a file that is no text fails in both runs. -/
theorem migrate_withOpacity_twice_broken_text :
    let lib := Bytes.ofString "lib"
    let file := Bytes.ofString "a.dart"
    let link := Bytes.ofString "l.dart"
    let broken := Bytes.ofString "z.dart"
    let f : File := ⟨Bytes.ofString "a.withOpacity(b.withOpacity(c))", {}⟩
    let entries : Entries := [(file, .file 0), (link, .link file), (broken, .file 1)]
    let v : Volume := ⟨⟨⟨{}, [(lib, .directory {} entries)]⟩, []⟩, [f, ⟨[0xFF], {}⟩]⟩
    let host : Host := { home := Bytes.ofString "home" }
    let c : Config := { mode := .balanced, onError := .keepGoing }
    let first := migrate host .withOpacity c v
    let second := migrate host .withOpacity c first.volume
    v.tree.WellFormed ∧ host.disk.Stores ∧
      first.volume.files.map File.content =
        [Bytes.ofString "a.withValues(alpha: b.withValues(alpha: c))", [0xFF]] ∧
      second.volume = first.volume ∧
      ∃ report, second.report lib c = .ok report ∧ report.summary.changed = 0 ∧
        report.summary.replacements = 0 ∧
        report.files = [⟨Path.join lib broken,
          .failed "IO error: not valid UTF-8 at byte 0 (read lib/z.dart)"⟩] := by
  intro lib file link broken f entries v host c first second
  have hwell : v.tree.WellFormed := by decide
  have hstores : host.disk.Stores := fun _ _ => rfl
  have hfile : v.tree.fileAt? (Path.join lib file) = some 0 := Walk.fileAt?_linkedTree_file _
  have hlink : v.tree.fileAt? (Path.join lib link) = some 0 := Walk.fileAt?_linkedTree_link _
  have hbroken : v.tree.fileAt? (Path.join lib broken) = some 1 :=
    Tree.fileAt?_eq_of_followWithin (n := 2) (by decide) (by decide) (by decide) rfl
  have hpaths : visitedPaths host c v =
      [Path.join lib file, Path.join lib link, Path.join lib broken] :=
    Walk.walk_linkedTree host.home rfl rfl rfl (by decide +kernel)
  let done := Bytes.ofString "a.withValues(alpha: b.withValues(alpha: c))"
  let w := v.setContent 0 done
  have hedited : f.visit host .withOpacity c 0 = (.ok (.fixed 2), done) := by decide +kernel
  have hedit : processFile host .withOpacity c v (Path.join lib file) = (.ok (.fixed 2), w) :=
    processFile_of_visit hfile rfl hedited
  have hsettled : File.visit host .withOpacity c 0 ⟨done, {}⟩ = (.ok .unchanged, done) := by
    decide +kernel
  have hagain : processFile host .withOpacity c w (Path.join lib link) = (.ok .unchanged, w) :=
    processFile_of_visit (v := w) hlink rfl hsettled
  let x : Failure := ⟨"read", "not valid UTF-8 at byte 0"⟩
  have hnoText : File.visit host .withOpacity c 1 ⟨[0xFF], {}⟩ = (.error x, [0xFF]) := by
    decide +kernel
  have hfails : processFile host .withOpacity c w (Path.join lib broken) =
      (.error (x.errorAt (Path.join lib broken)), w) :=
    processFile_of_visit (v := w) hbroken rfl hnoText
  have hfirst : first =
      { volume := w
        outcomes := [⟨Path.join lib file, .fixed 2⟩, ⟨Path.join lib link, .unchanged⟩,
          ⟨Path.join lib broken, .failed (x.errorAt (Path.join lib broken)).display⟩] } := by
    show visitFiles host _ c v (visitedPaths host c v) = _
    rw [hpaths, visitFiles_cons_of_ok hedit, visitFiles_cons_of_ok hagain,
      visitFiles_cons_of_keepGoing rfl hfails]
    rfl
  obtain ⟨hsame, -, hreport⟩ :=
    migrate_withOpacity_twice (v := v) (c := c) hwell hstores rfl rfl lib
  have hok := report_migrate (c := c) rfl host .withOpacity first.volume lib
  obtain ⟨hchanged, hreplaced, hfiles⟩ := hreport _ hok
  refine ⟨hwell, hstores, ?_, hsame, _, hok, hchanged, hreplaced, ?_⟩
  · rw [hfirst]
    rfl
  · rw [hfiles]
    show first.outcomes.filter _ = _
    rw [hfirst]
    decide +kernel

/-- On a disk that is full behind the second byte the write breaks, and what was stored by then has
no call. A run that keeps going lists the failure, a second one lists nothing; a run that stops is
stopped by the failure, a second one by nothing. -/
theorem migrate_withOpacity_twice_full_disk :
    let lib := Bytes.ofString "lib"
    let file := Bytes.ofString "a.dart"
    let f : File := ⟨Bytes.ofString "c.withOpacity(x)", {}⟩
    let v : Volume := ⟨⟨⟨{}, [(lib, .directory {} [(file, .file 0)])]⟩, []⟩, [f]⟩
    let full : Disk := { Disk.sound with writing := fun _ _ => .broken 2 .noSpace }
    let host : Host := { home := Bytes.ofString "home", disk := full }
    let c (policy : FailurePolicy) : Config := { mode := .balanced, onError := policy }
    let first (policy : FailurePolicy) := migrate host .withOpacity (c policy) v
    let second (policy : FailurePolicy) :=
      migrate host .withOpacity (c policy) (first policy).volume
    v.tree.WellFormed ∧
      (first .keepGoing).outcomes.filter Outcome.isFailed = [⟨Path.join lib file,
        .failed "IO error: No space left on device (os error 28) (write lib/a.dart)"⟩] ∧
      (∃ report, (second .keepGoing).report lib (c .keepGoing) = .ok report ∧
        report.files = []) ∧
      (∃ e, (first .abort).report lib (c .abort) = .error e) ∧
      ∃ report, (second .abort).report lib (c .abort) = .ok report := by
  intro lib file f v full host c first second
  have hid : v.tree.fileAt? (Path.join lib file) = some 0 :=
    Tree.fileAt?_eq_of_followWithin (n := 2) (by decide) (by decide) (by decide) rfl
  let w := v.setContent 0 (Bytes.ofString "c.")
  have hpaths : ∀ policy, visitedPaths host (c policy) v = [Path.join lib file] := by
    intro policy
    refine Walk.walk_default_root host.home rfl rfl ?_
    cases policy <;> decide +kernel
  have hpaths' : ∀ policy, visitedPaths host (c policy) w = [Path.join lib file] := hpaths
  let x : Failure := ⟨"write", SystemCause.noSpace.text⟩
  have hbreaks : ∀ policy, f.visit host .withOpacity (c policy) 0 =
      (.error x, Bytes.ofString "c.") := by
    intro policy
    cases policy <;> decide +kernel
  have hfails : ∀ policy, processFile host .withOpacity (c policy) v (Path.join lib file) =
      (.error (x.errorAt (Path.join lib file)), w) :=
    fun policy => processFile_of_visit hid rfl (hbreaks policy)
  have hsettled : ∀ policy, File.visit host .withOpacity (c policy) 0
      ⟨Bytes.ofString "c.", {}⟩ = (.ok .unchanged, Bytes.ofString "c.") := by
    intro policy
    cases policy <;> decide +kernel
  have hagain : ∀ policy, processFile host .withOpacity (c policy) w (Path.join lib file) =
      (.ok .unchanged, w) :=
    fun policy => processFile_of_visit (v := w) hid rfl (hsettled policy)
  have hkept : first .keepGoing = { volume := w, outcomes := [⟨Path.join lib file,
      .failed (x.errorAt (Path.join lib file)).display⟩] } := by
    show visitFiles host _ _ v (visitedPaths host _ v) = _
    rw [hpaths, visitFiles_cons_of_keepGoing rfl (hfails .keepGoing)]
    rfl
  have hstopped : first .abort =
      { volume := w, stopped := some (x.errorAt (Path.join lib file)) } := by
    show visitFiles host _ _ v (visitedPaths host _ v) = _
    rw [hpaths, visitFiles_cons_of_abort rfl (hfails .abort)]
  have hsecond : ∀ policy, (first policy).volume = w →
      second policy = { volume := w, outcomes := [⟨Path.join lib file, .unchanged⟩] } := by
    intro policy hw
    show migrate host .withOpacity (c policy) (first policy).volume = _
    rw [hw, migrate, hpaths', visitFiles_cons_of_ok (hagain policy)]
    rfl
  refine ⟨by decide, ?_, ?_, ?_, ?_⟩
  · rw [hkept]
    decide +kernel
  · rw [hsecond .keepGoing (by rw [hkept])]
    exact ⟨_, rfl, rfl⟩
  · rw [hstopped]
    exact ⟨_, rfl⟩
  · rw [hsecond .abort (by rw [hstopped])]
    exact ⟨_, rfl⟩

end CallMigration
