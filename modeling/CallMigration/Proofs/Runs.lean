import CallMigration.Proofs.Processing

/-!
# Runs one behind the other

A run over some paths and then over more is one run, which goes on with the volume that the first
part has left and goes on at all only if that part was not stopped. Whatever the disk does and
whatever the policy is, a run changes no file but those that its paths lead to, and never the tree.

## Main Definitions

* `outcomeAt` — the outcome for a path in a run that keeps going
* `Run.andThen` — a run, and what comes behind it unless it was stopped

## Main Statements

* `processFile_volume` — processing a file changes the content of that file at most
* `visitFiles_append` — the run over paths and more paths
* `tree_visitFiles`, `getElem?_visitFiles` — what a run leaves as it is
* `stopped_visitFiles` — a run that keeps going is never stopped
* `map_path_of_stopped_eq_none` — a run that nothing stops has an outcome for every path
-/

namespace CallMigration

variable {host : Host} {rule : Rule} {c : Config} {v w : Volume} {path : Bytes} {id : FileId}

/-! ### One file -/

theorem Volume.getElem?_setContent_of_ne {other : FileId} (h : id ≠ other) (content : Bytes) :
    (v.setContent id content).files[other]? = v.files[other]? :=
  List.getElem?_modify_ne _ _ h

/-- Processing a file leaves the volume as it is, or gives another content to the file that the path
leads to. -/
theorem processFile_volume (host : Host) (rule : Rule) (c : Config) (v : Volume) (path : Bytes) :
    (processFile host rule c v path).2 = v ∨
      ∃ id content, v.tree.fileAt? path = some id ∧
        (processFile host rule c v path).2 = v.setContent id content := by
  by_cases h : ∃ id f, v.tree.fileAt? path = some id ∧ v.files[id]? = some f ∧
      WritesBack host rule c id f
  · obtain ⟨id, f, hid, hfile, hwrites⟩ := h
    refine .inr ⟨id, ?_⟩
    rw [processFile_of_writesBack hid hfile hwrites]
    cases host.disk.writing id (rule.apply c.mode f.content).text with
    | stored => exact ⟨_, hid, rfl⟩
    | broken bytes cause => exact ⟨_, hid, rfl⟩
  · have hnot : (processFile host rule c v path).2 = v ∧ _ :=
      processFile_of_not_writesBack fun id f hid hfile hw => h ⟨id, f, hid, hfile, hw⟩
    exact .inl hnot.1

theorem tree_processFile (host : Host) (rule : Rule) (c : Config) (v : Volume) (path : Bytes) :
    (processFile host rule c v path).2.tree = v.tree := by
  obtain hsame | ⟨id, content, -, hset⟩ := processFile_volume host rule c v path
  · rw [hsame]
  · rw [hset, Volume.tree_setContent]

theorem length_processFile (host : Host) (rule : Rule) (c : Config) (v : Volume) (path : Bytes) :
    (processFile host rule c v path).2.files.length = v.files.length := by
  obtain hsame | ⟨id, content, -, hset⟩ := processFile_volume host rule c v path
  · rw [hsame]
  · rw [hset, Volume.setContent, List.length_modify]

theorem getElem?_processFile (host : Host) (rule : Rule) (c : Config)
    (h : v.tree.fileAt? path ≠ some id) :
    (processFile host rule c v path).2.files[id]? = v.files[id]? := by
  obtain hsame | ⟨id', content, hid, hset⟩ := processFile_volume host rule c v path
  · rw [hsame]
  · rw [hset, Volume.getElem?_setContent_of_ne]
    rintro rfl
    exact h hid

/-- A failure is an error, never a status. -/
theorem processFile_ne_failed (host : Host) (rule : Rule) (c : Config) (v : Volume) (path : Bytes)
    (error : String) : (processFile host rule c v path).1 ≠ .ok (.failed error) := by
  intro h
  simp only [processFile] at h
  split at h
  · cases h
  · split at h
    · cases h
    · split at h
      · cases h
      · split at h <;> cases h

/-- So a file that has a status has not failed. -/
theorem isFailed_of_processFile {status : Status}
    (h : processFile host rule c v path = (.ok status, w)) :
    (⟨path, status⟩ : Outcome).isFailed = false := by
  cases status with
  | failed error =>
    exact absurd (congrArg Prod.fst h) (processFile_ne_failed host rule c v path error)
  | _ => rfl

/-! ### One file before the others -/

variable {paths : List Bytes} {status : Status} {e : Error}

theorem visitFiles_cons_of_ok (h : processFile host rule c v path = (.ok status, w)) :
    visitFiles host rule c v (path :: paths) =
      (visitFiles host rule c w paths).after ⟨path, status⟩ := by
  rw [visitFiles, h]

theorem visitFiles_cons_of_abort (hc : c.onError = .abort)
    (h : processFile host rule c v path = (.error e, w)) :
    visitFiles host rule c v (path :: paths) = { volume := w, stopped := some e } := by
  rw [visitFiles, h]
  simp only [hc]

theorem visitFiles_cons_of_keepGoing (hc : c.onError = .keepGoing)
    (h : processFile host rule c v path = (.error e, w)) :
    visitFiles host rule c v (path :: paths) =
      (visitFiles host rule c w paths).after ⟨path, .failed e.display⟩ := by
  rw [visitFiles, h]
  simp only [hc]

/-- The status that is reported for a path in a run that keeps going. -/
def Status.ofResult : Except Error Status → Status
  | .ok status => status
  | .error e => .failed e.display

/-- The outcome for a path in a run that keeps going. -/
def outcomeAt (host : Host) (rule : Rule) (c : Config) (v : Volume) (path : Bytes) : Outcome :=
  ⟨path, .ofResult (processFile host rule c v path).1⟩

/-- A run that keeps going goes on behind every file, with the outcome for it. -/
theorem visitFiles_cons_of_goesOn (hc : c.onError = .keepGoing) :
    visitFiles host rule c v (path :: paths) =
      (visitFiles host rule c (processFile host rule c v path).2 paths).after
        (outcomeAt host rule c v path) := by
  rw [outcomeAt]
  cases h : processFile host rule c v path with
  | mk result w =>
    cases result with
    | ok status => exact visitFiles_cons_of_ok h
    | error e => exact visitFiles_cons_of_keepGoing hc h

/-- A run goes on behind a file that is written, with the new content of this file. -/
theorem visitFiles_cons_of_writesBack {f : File} (hid : v.tree.fileAt? path = some id)
    (hfile : v.files[id]? = some f) (h : WritesBack host rule c id f)
    (hstored : host.disk.writing id (rule.apply c.mode f.content).text = .stored) :
    visitFiles host rule c v (path :: paths) =
      (visitFiles host rule c (v.setContent id (rule.apply c.mode f.content).text) paths).after
        ⟨path, .fixed (rule.apply c.mode f.content).replacements⟩ := by
  have hvisit := processFile_of_writesBack hid hfile h
  rw [hstored] at hvisit
  exact visitFiles_cons_of_ok hvisit

/-- A run that visits a single file and writes it. -/
theorem migrate_of_writesBack {f : File} (hpaths : visitedPaths host c v = [path])
    (hid : v.tree.fileAt? path = some id) (hfile : v.files[id]? = some f)
    (h : WritesBack host rule c id f)
    (hstored : host.disk.writing id (rule.apply c.mode f.content).text = .stored) :
    migrate host rule c v =
      { volume := v.setContent id (rule.apply c.mode f.content).text
        outcomes := [⟨path, .fixed (rule.apply c.mode f.content).replacements⟩] } := by
  rw [migrate, hpaths, visitFiles_cons_of_writesBack hid hfile h hstored]
  rfl

/-- A run goes on behind a file, with an outcome for it, unless it stops there. -/
theorem visitFiles_cons_cases (host : Host) (rule : Rule) (c : Config) (v : Volume) (path : Bytes) :
    (∃ e, ∀ paths, visitFiles host rule c v (path :: paths) =
      { volume := (processFile host rule c v path).2, stopped := some e }) ∨
    ∃ status, ∀ paths, visitFiles host rule c v (path :: paths) =
      (visitFiles host rule c (processFile host rule c v path).2 paths).after ⟨path, status⟩ := by
  cases h : processFile host rule c v path with
  | mk result w =>
    cases result with
    | ok status => exact .inr ⟨status, fun paths => visitFiles_cons_of_ok h⟩
    | error e =>
      cases hc : c.onError with
      | abort => exact .inl ⟨e, fun paths => visitFiles_cons_of_abort hc h⟩
      | keepGoing => exact .inr ⟨_, fun paths => visitFiles_cons_of_keepGoing hc h⟩

/-! ### What a run leaves as it is -/

theorem tree_visitFiles (host : Host) (rule : Rule) (c : Config) (v : Volume) (paths : List Bytes) :
    (visitFiles host rule c v paths).volume.tree = v.tree := by
  induction paths generalizing v with
  | nil => rfl
  | cons path paths ih =>
    obtain ⟨e, hstop⟩ | ⟨status, hgo⟩ := visitFiles_cons_cases host rule c v path
    · rw [hstop, tree_processFile]
    · rw [hgo, Run.after, ih, tree_processFile]

theorem length_visitFiles (host : Host) (rule : Rule) (c : Config) (v : Volume)
    (paths : List Bytes) :
    (visitFiles host rule c v paths).volume.files.length = v.files.length := by
  induction paths generalizing v with
  | nil => rfl
  | cons path paths ih =>
    obtain ⟨e, hstop⟩ | ⟨status, hgo⟩ := visitFiles_cons_cases host rule c v path
    · rw [hstop, length_processFile]
    · rw [hgo, Run.after, ih, length_processFile]

/-- A file that none of the paths leads to stays as it is. -/
theorem getElem?_visitFiles (h : ∀ path ∈ paths, v.tree.fileAt? path ≠ some id) :
    (visitFiles host rule c v paths).volume.files[id]? = v.files[id]? := by
  induction paths generalizing v with
  | nil => rfl
  | cons path paths ih =>
    obtain ⟨hpath, hpaths⟩ := List.forall_mem_cons.1 h
    rw [← getElem?_processFile host rule c hpath]
    obtain ⟨e, hstop⟩ | ⟨status, hgo⟩ := visitFiles_cons_cases host rule c v path
    · rw [hstop]
    · rw [hgo]
      refine ih ?_
      rw [tree_processFile]
      exact hpaths

/-! ### Runs one behind the other -/

/-- A run, and what comes behind it unless it was stopped. -/
def Run.andThen (r : Run) (next : Volume → Run) : Run :=
  match r.stopped with
  | some _ => r
  | none => { next r.volume with outcomes := r.outcomes ++ (next r.volume).outcomes }

theorem Run.andThen_of_stopped {r : Run} (h : r.stopped = none) (next : Volume → Run) :
    r.andThen next =
      { next r.volume with outcomes := r.outcomes ++ (next r.volume).outcomes } := by
  rw [andThen, h]

theorem Run.after_andThen (o : Outcome) (r : Run) (next : Volume → Run) :
    (r.after o).andThen next = (r.andThen next).after o := by
  obtain ⟨v, outcomes, stopped⟩ := r
  cases stopped <;> rfl

/-- A run over paths and more paths goes on with the volume that it has behind the first ones. -/
theorem visitFiles_append (host : Host) (rule : Rule) (c : Config) (v : Volume)
    (paths more : List Bytes) :
    visitFiles host rule c v (paths ++ more) =
      (visitFiles host rule c v paths).andThen fun w => visitFiles host rule c w more := by
  induction paths generalizing v with
  | nil => rfl
  | cons path paths ih =>
    obtain ⟨e, hstop⟩ | ⟨status, hgo⟩ := visitFiles_cons_cases host rule c v path
    · rw [List.cons_append, hstop, hstop]
      rfl
    · rw [List.cons_append, hgo, hgo, ih, Run.after_andThen]

theorem stopped_visitFiles (hc : c.onError = .keepGoing) :
    (visitFiles host rule c v paths).stopped = none := by
  induction paths generalizing v with
  | nil => rfl
  | cons path paths ih =>
    rw [visitFiles_cons_of_goesOn hc]
    exact ih

/-- A run that nothing stops has an outcome for every path. -/
theorem map_path_of_stopped_eq_none (h : (visitFiles host rule c v paths).stopped = none) :
    (visitFiles host rule c v paths).outcomes.map Outcome.path = paths := by
  induction paths generalizing v with
  | nil => rfl
  | cons path paths ih =>
    obtain ⟨e, hstop⟩ | ⟨status, hgo⟩ := visitFiles_cons_cases host rule c v path
    · rw [hstop] at h
      cases h
    · rw [hgo] at h ⊢
      rw [Run.after, List.map_cons, ih h]

theorem map_path_visitFiles (hc : c.onError = .keepGoing) :
    (visitFiles host rule c v paths).outcomes.map Outcome.path = paths :=
  map_path_of_stopped_eq_none (stopped_visitFiles hc)

end CallMigration
