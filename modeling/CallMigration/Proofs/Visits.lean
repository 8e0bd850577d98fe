import CallMigration.Proofs.Runs
import CallMigration.Proofs.Selection

/-!
# Visits

To process a path comes down to a visit of the file that it leads to: what is reported and what the
file holds afterwards depend on the file, the configuration and the disk, and on the path only in so
far as an error names it. So an outcome is the same in all volumes that have the same tree and the
same file behind the path.

## Main Definitions

* `Failure` — why a visit of a file fails, before a path is named
* `File.visit` — what is reported about a file, and what it holds afterwards
* `Tree.visitElsewhere` — what is reported about a path that leads to no file
* `Tree.Streams` — a path leads to a pipe or a device
* `Tree.SameFile` — two paths lead to one file

## Main Statements

* `processFile_of_file?`, `processFile_of_file?_eq_none` — processing a path in these terms
* `outcomeAt_visitFiles` — the outcome for a path does not depend on what became of other files
* `getElem?_visitFiles_of_settled` — a file that a visit leaves as it is stays so in every run
-/

namespace CallMigration

/-- Why a visit of a file fails: what was tried, and what is said about it. -/
structure Failure where
  operation : String
  wording : String
  deriving DecidableEq, Repr

/-- The error about a failure at a path. -/
def Failure.errorAt (x : Failure) (path : Bytes) : Error :=
  .io x.wording (Volume.placeOf x.operation path)

/-! ### Files -/

namespace File

/-- Why a file cannot be opened for writing. -/
def refusal? (disk : Disk) (id : FileId) (f : File) : Option SystemCause :=
  if ¬ f.access.write then some .permissionDenied else disk.opening id

/-- The text that a file holds. -/
def readText (disk : Disk) (id : FileId) (f : File) : Except Failure Bytes :=
  if ¬ f.access.read then .error ⟨"read", SystemCause.permissionDenied.text⟩
  else
    match disk.reading id with
    | some cause => .error ⟨"read", cause.text⟩
    | none =>
      match Utf8.invalidAt? f.content with
      | some n => .error ⟨"read", "not valid UTF-8 at byte " ++ toString n⟩
      | none => .ok f.content

/-- What a visit of a file comes to, and the content that it leaves. -/
def visit (host : Host) (rule : Rule) (c : Config) (id : FileId) (f : File) :
    Except Failure Status × Bytes :=
  match f.readText host.disk id with
  | .error x => (.error x, f.content)
  | .ok text =>
    let edit := rule.apply c.mode text
    if edit.text = text then (.ok .unchanged, f.content)
    else if c.dryRun then (.ok (.fixed edit.replacements), f.content)
    else
      match f.refusal? host.disk id with
      | some cause => (.error ⟨"write", cause.text⟩, f.content)
      | none =>
        match host.disk.writing id edit.text with
        | .stored => (.ok (.fixed edit.replacements), edit.text)
        | .broken bytes cause => (.error ⟨"write", cause.text⟩, edit.text.take bytes)

/-- A text that is read is the whole content, and well formed. -/
theorem readText_eq_ok {disk : Disk} {id : FileId} {f : File} {text : Bytes}
    (h : f.readText disk id = .ok text) : text = f.content ∧ Utf8.Valid f.content := by
  unfold readText at h
  split at h
  · cases h
  · split at h
    · cases h
    · split at h
      · cases h
      · cases h
        exact ⟨rfl, by assumption⟩

end File

/-- What a visit of a path comes to that leads to no file. It is the same whatever files there
are. -/
def Tree.visitElsewhere (host : Host) (rule : Rule) (c : Config) (t : Tree) (path : Bytes) :
    Except Error Status :=
  (processFile host rule c ⟨t, []⟩ path).1

/-- A path leads to a pipe or a device. -/
def Tree.Streams (t : Tree) (path : Bytes) : Prop :=
  ∃ node, t.resolve path = .ok (.leaf node) ∧ ∀ id, node ≠ .file id

theorem Tree.not_streams_of_fileAt? {t : Tree} {path : Bytes} {id : FileId}
    (h : t.fileAt? path = some id) : ¬ t.Streams path := by
  rintro ⟨node, hnode, hnone⟩
  rw [resolve_of_fileAt? h] at hnode
  cases hnode
  exact hnone id rfl

/-- The file that a path leads to, with its number. -/
def Volume.file? (v : Volume) (path : Bytes) : Option (FileId × File) :=
  (v.tree.fileAt? path).bind fun id => v.files[id]?.map fun f => (id, f)

variable {host : Host} {rule : Rule} {c : Config} {v w : Volume} {path : Bytes} {id : FileId}
  {f : File}

namespace Volume

theorem file?_eq_some_iff :
    v.file? path = some (id, f) ↔ v.tree.fileAt? path = some id ∧ v.files[id]? = some f := by
  simp only [file?, Option.bind_eq_some_iff, Option.map_eq_some_iff, Prod.mk.injEq]
  constructor
  · rintro ⟨_, hid, _, hfile, rfl, rfl⟩
    exact ⟨hid, hfile⟩
  · rintro ⟨hid, hfile⟩
    exact ⟨id, hid, f, hfile, rfl, rfl⟩

theorem getElem?_of_file?_eq_none (h : v.file? path = none) (hid : v.tree.fileAt? path = some id) :
    v.files[id]? = none := by
  rwa [file?, hid, Option.bind_some, Option.map_eq_none_iff] at h

theorem file?_congr (htree : w.tree = v.tree)
    (hfiles : ∀ id, v.tree.fileAt? path = some id → w.files[id]? = v.files[id]?) :
    w.file? path = v.file? path := by
  rw [file?, file?, htree]
  cases hid : v.tree.fileAt? path with
  | none => rfl
  | some id => rw [Option.bind_some, Option.bind_some, hfiles id hid]

theorem setContent_self (hfile : v.files[id]? = some f) : v.setContent id f.content = v := by
  have hsame : v.files.modify id (fun g => { g with content := f.content }) = v.files := by
    refine List.ext_getElem? fun n => ?_
    rw [List.getElem?_modify]
    split
    next heq =>
      rw [← heq, hfile]
      rfl
    next => simp
  rw [setContent, hsame]

theorem getElem?_setContent (hfile : v.files[id]? = some f) (content : Bytes) :
    (v.setContent id content).files[id]? = some { f with content := content } := by
  rw [setContent, List.getElem?_modify_eq, hfile]
  rfl

/-! ### Reading and writing -/

/-- Reading the text behind a path does not depend on the path, but the error names it. -/
theorem readText_of_file? {disk : Disk} (h : v.file? path = some (id, f)) :
    v.readText disk path = (f.readText disk id).mapError (·.errorAt path) := by
  obtain ⟨hid, hfile⟩ := file?_eq_some_iff.1 h
  rw [Volume.readText, read, Tree.resolve_of_fileAt? hid, File.readText]
  simp only [readFile, hfile]
  cases f.access.read with
  | false => rfl
  | true =>
    simp only [not_true_eq_false, if_false]
    cases disk.reading id with
    | some cause => rfl
    | none =>
      simp only
      cases Utf8.invalidAt? f.content <;> rfl

/-- So it is with writing. -/
theorem overwriteText_of_file? {disk : Disk} (h : v.file? path = some (id, f)) (text : Bytes) :
    v.overwriteText disk path text =
      match f.refusal? disk id with
      | some cause => (some (Failure.errorAt ⟨"write", cause.text⟩ path), v)
      | none =>
        match disk.writing id text with
        | .stored => (none, v.setContent id text)
        | .broken bytes cause =>
          (some (Failure.errorAt ⟨"write", cause.text⟩ path),
            v.setContent id (text.take bytes)) := by
  obtain ⟨hid, hfile⟩ := file?_eq_some_iff.1 h
  rw [overwriteText, overwrite, Tree.resolve_of_fileAt? hid, File.refusal?]
  simp only [overwriteFile, hfile]
  cases f.access.write with
  | false => rfl
  | true =>
    simp only [not_true_eq_false, if_false]
    cases disk.opening id with
    | some cause => rfl
    | none => cases disk.writing id text <;> rfl

/-- Where no file is, what reading and writing meet with depends on no file. -/
theorem readText_of_file?_eq_none {disk : Disk} (h : v.file? path = none) :
    v.readText disk path = (Volume.mk v.tree []).readText disk path := by
  rw [readText, readText, read, read]
  cases hresolve : v.tree.resolve path with
  | error cause => rfl
  | ok spot =>
    cases spot with
    | inside p => rfl
    | leaf node =>
      cases node with
      | file id =>
        have hnone := getElem?_of_file?_eq_none h (by rw [Tree.fileAt?, hresolve])
        simp [readFile, hnone]
      | _ => rfl

theorem fst_overwriteText_of_file?_eq_none {disk : Disk} (h : v.file? path = none)
    (content : Bytes) :
    (v.overwriteText disk path content).1 =
      ((Volume.mk v.tree []).overwriteText disk path content).1 := by
  rw [overwriteText, overwriteText, overwrite, overwrite]
  cases hresolve : v.tree.resolve path with
  | error cause => rfl
  | ok spot =>
    cases spot with
    | inside p => rfl
    | leaf node =>
      cases node with
      | file id =>
        have hnone := getElem?_of_file?_eq_none h (by rw [Tree.fileAt?, hresolve])
        simp [overwriteFile, hnone]
      | device device => cases device <;> rfl
      | _ => rfl

end Volume

/-! ### One path -/

/-- Processing a path that leads to a file is to visit the file and to store what the visit
leaves. -/
theorem processFile_of_file? (h : v.file? path = some (id, f)) :
    processFile host rule c v path =
      ((f.visit host rule c id).1.mapError (·.errorAt path),
        v.setContent id (f.visit host rule c id).2) := by
  obtain ⟨-, hfile⟩ := Volume.file?_eq_some_iff.1 h
  have hself := Volume.setContent_self hfile
  rw [processFile, Volume.readText_of_file? h, File.visit]
  cases f.readText host.disk id with
  | error x => simp only [Except.mapError, hself]
  | ok text =>
    simp only [Except.mapError]
    split
    · rw [hself]
    · split
      · rw [hself]
      · rw [Volume.overwriteText_of_file? h]
        cases f.refusal? host.disk id with
        | some cause => simp only [hself]
        | none =>
          simp only
          cases host.disk.writing id (rule.apply c.mode text).text <;> rfl

theorem processFile_of_visit {result : Except Failure Status} {content : Bytes}
    (hid : v.tree.fileAt? path = some id) (hfile : v.files[id]? = some f)
    (h : f.visit host rule c id = (result, content)) :
    processFile host rule c v path =
      (result.mapError (·.errorAt path), v.setContent id content) := by
  rw [processFile_of_file? (Volume.file?_eq_some_iff.2 ⟨hid, hfile⟩), h]

/-- What processing a path comes to is a matter of what reading and writing there meet with. -/
theorem fst_processFile_of_texts
    (hread : w.readText host.disk path = v.readText host.disk path)
    (hwrite : ∀ text, (w.overwriteText host.disk path text).1 =
      (v.overwriteText host.disk path text).1) :
    (processFile host rule c w path).1 = (processFile host rule c v path).1 := by
  rw [processFile, processFile, hread]
  cases v.readText host.disk path with
  | error e => rfl
  | ok text =>
    have hrefusal := hwrite (rule.apply c.mode text).text
    simp only
    split
    · rfl
    · split
      · rfl
      · cases hw : w.overwriteText host.disk path (rule.apply c.mode text).text
        cases hv : v.overwriteText host.disk path (rule.apply c.mode text).text
        rw [hw, hv] at hrefusal
        cases hrefusal
        rename_i refusal _ _
        cases refusal <;> rfl

/-- Processing a path that leads to no file changes nothing, and what it comes to depends on no
file. -/
theorem processFile_of_file?_eq_none (h : v.file? path = none) :
    processFile host rule c v path = (v.tree.visitElsewhere host rule c path, v) := by
  have hkept : (processFile host rule c v path).2 = v := by
    refine (processFile_of_not_writesBack fun id f hid hfile => ?_).1
    rw [Volume.file?_eq_some_iff.2 ⟨hid, hfile⟩] at h
    cases h
  exact Prod.ext (fst_processFile_of_texts (Volume.readText_of_file?_eq_none h)
    (Volume.fst_overwriteText_of_file?_eq_none h)) hkept

/-- Where neither a file nor a pipe or device is, nothing can be read. -/
theorem Tree.exists_visitElsewhere_eq_error {t : Tree} (h : ¬ t.Streams path) :
    ∃ e, ∀ host rule c, t.visitElsewhere host rule c path = .error e := by
  have hread : ∃ cause : SystemCause, ∀ disk, (Volume.mk t []).read disk path = .error cause := by
    simp only [Volume.read]
    cases hresolve : t.resolve path with
    | error cause => exact ⟨cause, fun _ => rfl⟩
    | ok spot =>
      cases spot with
      | inside p => exact ⟨_, fun _ => rfl⟩
      | leaf node =>
        cases node with
        | file id => exact ⟨.noEntry, fun _ => by simp [Volume.readFile]⟩
        | _ => exact absurd ⟨_, hresolve, by simp⟩ h
  obtain ⟨cause, hread⟩ := hread
  refine ⟨.io cause.text (Volume.placeOf "read" path), fun host rule c => ?_⟩
  rw [visitElsewhere, processFile, Volume.readText, hread]

/-- A run comes to no pipe and to no device. -/
theorem not_streams_of_mem_visitedPaths (ht : v.tree.WellFormed)
    (h : path ∈ visitedPaths host c v) : ¬ v.tree.Streams path := by
  rintro ⟨node, hnode, hnone⟩
  obtain ⟨directories, name, heligible, rfl⟩ := (Walk.mem_walk_iff ht).1 h
  obtain ⟨id, hfile, -⟩ := heligible.exists_file_of_resolve ht hnode
  cases hfile
  exact hnone id rfl

/-- What is reported about a path depends on the tree and on the file behind the path. -/
theorem fst_processFile_congr (host : Host) (rule : Rule) (c : Config) (htree : w.tree = v.tree)
    (hfile : w.file? path = v.file? path) :
    (processFile host rule c w path).1 = (processFile host rule c v path).1 := by
  cases h : v.file? path with
  | none =>
    rw [processFile_of_file?_eq_none h, processFile_of_file?_eq_none (hfile.trans h), htree]
  | some q =>
    obtain ⟨id, f⟩ := q
    rw [processFile_of_file? h, processFile_of_file? (hfile.trans h)]

/-! ### The outcome for a path -/

/-- A path is reported as fixed exactly when the visit of its file comes to an edit. -/
theorem isFixed_outcomeAt_iff (hid : v.tree.fileAt? path = some id)
    (hfile : v.files[id]? = some f) :
    (outcomeAt host rule c v path).isFixed = true ↔
      ∃ n, (f.visit host rule c id).1 = .ok (.fixed n) := by
  rw [outcomeAt, processFile_of_file? (Volume.file?_eq_some_iff.2 ⟨hid, hfile⟩)]
  cases (f.visit host rule c id).1 with
  | error x => simp [Except.mapError, Status.ofResult, Outcome.isFixed]
  | ok status => cases status <;> simp [Except.mapError, Status.ofResult, Outcome.isFixed]

variable {paths before after : List Bytes}

/-- The outcome for a path stands behind those for the paths before it, and is the one in the volume
that these have left. -/
theorem getElem?_outcomes_visitFiles (hc : c.onError = .keepGoing)
    (hpaths : paths = before ++ path :: after) :
    (visitFiles host rule c v paths).outcomes[before.length]? =
      some (outcomeAt host rule c (visitFiles host rule c v before).volume path) := by
  have hlength : (visitFiles host rule c v before).outcomes.length = before.length := by
    rw [← List.length_map Outcome.path, map_path_visitFiles hc]
  rw [hpaths, visitFiles_append, Run.andThen_of_stopped (stopped_visitFiles hc), ← hlength]
  simp only [visitFiles_cons_of_goesOn hc, Run.after, List.getElem?_append_right (le_refl _),
    Nat.sub_self, List.getElem?_cons_zero]

/-- Both paths lead to one file. -/
def Tree.SameFile (t : Tree) (p q : Bytes) : Prop :=
  ∃ id, t.fileAt? p = some id ∧ t.fileAt? q = some id

theorem Tree.SameFile.symm {t : Tree} {p q : Bytes} (h : t.SameFile p q) : t.SameFile q p := by
  obtain ⟨id, hp, hq⟩ := h
  exact ⟨id, hq, hp⟩

/-- What was done to other files leaves the file behind a path as it is. -/
theorem file?_visitFiles (h : ∀ p ∈ before, ¬ v.tree.SameFile p path) :
    (visitFiles host rule c v before).volume.file? path = v.file? path := by
  refine Volume.file?_congr (tree_visitFiles ..) fun id hid => ?_
  exact getElem?_visitFiles fun p hp hpid => h p hp ⟨id, hpid, hid⟩

theorem file?_processFile {p : Bytes} (h : ¬ v.tree.SameFile p path) :
    (processFile host rule c v p).2.file? path = v.file? path := by
  refine Volume.file?_congr (tree_processFile ..) fun id hid => ?_
  exact getElem?_processFile host rule c fun hpid => h ⟨id, hpid, hid⟩

/-- The outcome for a path does not depend on what became of other files. -/
theorem outcomeAt_visitFiles (h : ∀ p ∈ before, ¬ v.tree.SameFile p path) :
    outcomeAt host rule c (visitFiles host rule c v before).volume path =
      outcomeAt host rule c v path := by
  rw [outcomeAt, fst_processFile_congr host rule c (tree_visitFiles ..) (file?_visitFiles h),
    outcomeAt]

theorem outcomeAt_processFile {p : Bytes} (h : ¬ v.tree.SameFile p path) :
    outcomeAt host rule c (processFile host rule c v p).2 path = outcomeAt host rule c v path := by
  rw [outcomeAt, fst_processFile_congr host rule c (tree_processFile ..) (file?_processFile h),
    outcomeAt]

/-- When no two paths lead to one file, the outcomes are those in the volume before the run. -/
theorem outcomes_visitFiles_of_pairwise (hc : c.onError = .keepGoing)
    (h : paths.Pairwise fun p q => ¬ v.tree.SameFile p q) :
    (visitFiles host rule c v paths).outcomes = paths.map (outcomeAt host rule c v) := by
  induction paths generalizing v with
  | nil => rfl
  | cons path paths ih =>
    obtain ⟨hpath, hrest⟩ := List.pairwise_cons.1 h
    have htree := tree_processFile host rule c v path
    have hsame : ∀ q ∈ paths, outcomeAt host rule c (processFile host rule c v path).2 q =
        outcomeAt host rule c v q :=
      fun q hq => outcomeAt_processFile (hpath q hq)
    rw [visitFiles_cons_of_goesOn hc, Run.after, ih (by rwa [htree]), List.map_congr_left hsame,
      List.map_cons]

/-- A run that keeps going is reported with all of its outcomes. -/
theorem report_migrate (hc : c.onError = .keepGoing) (host : Host) (rule : Rule) (v : Volume)
    (root : Bytes) :
    (migrate host rule c v).report root c =
      .ok (.ofOutcomes root c.dryRun (migrate host rule c v).outcomes) := by
  rw [Run.report, migrate, stopped_visitFiles hc]

/-! ### Settled files -/

/-- A file that a visit leaves as it is stays as it is in every run. -/
theorem getElem?_visitFiles_of_settled (hfile : v.files[id]? = some f)
    (hsettled : (f.visit host rule c id).2 = f.content) (paths : List Bytes) :
    (visitFiles host rule c v paths).volume.files[id]? = some f := by
  have hone : ∀ {v : Volume} (path), v.files[id]? = some f →
      (processFile host rule c v path).2.files[id]? = some f := by
    intro v path hfile
    by_cases hid : v.tree.fileAt? path = some id
    · rw [processFile_of_file? (Volume.file?_eq_some_iff.2 ⟨hid, hfile⟩), hsettled,
        Volume.setContent_self hfile, hfile]
    · rw [getElem?_processFile host rule c hid, hfile]
  induction paths generalizing v with
  | nil => exact hfile
  | cons path paths ih =>
    obtain ⟨e, hstop⟩ | ⟨status, hgo⟩ := visitFiles_cons_cases host rule c v path
    · rw [hstop]
      exact hone path hfile
    · rw [hgo]
      exact ih (hone path hfile)

end CallMigration
