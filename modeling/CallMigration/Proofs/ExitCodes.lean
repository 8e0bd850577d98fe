import CallMigration.CommandLine.Program
import CallMigration.Proofs.Reports
import CallMigration.Proofs.Runs
import CallMigration.Proofs.Selection

/-!
# Exit codes

An error is known by its code, and the code of a program is that of its error, or tells whether a
file failed. The errors are sorted by where they come from: a configuration is unreadable or not
valid, and a file cannot be read or written. So each exit code stands for one way in which a program
ends, and the envelope and the list of failed files agree with it.

## Main Definitions

* `Arguments.ConfigUnreadable` — the configuration file cannot be read as text
* `FailsAmong` — a run over paths comes to one that cannot be processed
* `Ending` — the ways in which a program ends, with the exit code of each
* `Conclusion` — exit code, envelope and list of failed files say what became of the configuration
  and of the files

## Main Statements

* `Arguments.resolve_error_cases` — the errors of a configuration
* `exists_stopped_visitFiles_iff`, `exists_isFailed_visitFiles_iff` — what a file that fails leads
  to under each policy
* `ending_execute` — every program ends in one of the ways
* `execute_conclusion` — what every program says at its end is right

## Design Notes

Whether a file fails depends on the volume that the files before it have left, so `FailsAmong` is
about a run and not about a path. In a run that keeps going files may have failed before it; a run
that stops comes to the first failure and no further.

A run holds the paths that it visits in memory, so a word can count them. Trees are of any size
here. The exit codes that come from the count of failures, zero and three, are told apart where a
word can count the files; the others need no count.
-/

namespace CallMigration

/-! ### Kinds of error -/

section Kinds

variable {host : Host} {rule : Rule} {c : Config} {v : Volume} {path : Bytes} {e : Error}

theorem Volume.code_of_readText {disk : Disk} (h : v.readText disk path = .error e) :
    e.code = .io := by
  unfold readText at h
  split at h
  · cases h
    rfl
  · split at h <;> cases h
    rfl

theorem Volume.code_of_overwriteText {disk : Disk} {content : Bytes}
    (h : (v.overwriteText disk path content).1 = some e) : e.code = .io := by
  obtain ⟨cause, -, rfl⟩ := Option.map_eq_some_iff.1 h
  rfl

/-- A file that cannot be processed is a file that cannot be read or written. -/
theorem code_of_processFile (h : (processFile host rule c v path).1 = .error e) :
    e.code = .io := by
  unfold processFile at h
  split at h
  next e' hread =>
    cases h
    exact Volume.code_of_readText hread
  next text hread =>
    simp only at h
    split at h
    · cases h
    · split at h
      · cases h
      · split at h
        next e' w hwrite =>
          cases h
          exact Volume.code_of_overwriteText (congrArg Prod.fst hwrite)
        next => cases h

theorem code_of_stopped_visitFiles {paths : List Bytes}
    (h : (visitFiles host rule c v paths).stopped = some e) : e.code = .io := by
  induction paths generalizing v with
  | nil => cases h
  | cons path paths ih =>
    cases hfile : processFile host rule c v path with
    | mk result w =>
      cases result with
      | ok status =>
        rw [visitFiles_cons_of_ok hfile] at h
        exact ih h
      | error e' =>
        cases hc : c.onError with
        | abort =>
          rw [visitFiles_cons_of_abort hc hfile] at h
          cases h
          exact code_of_processFile (by rw [hfile])
        | keepGoing =>
          rw [visitFiles_cons_of_keepGoing hc hfile] at h
          exact ih h

theorem Config.code_of_validate (h : c.validate = .error e) : e.code = .invalidValue := by
  unfold validate at h
  split at h
  · cases h
  next p _ =>
    cases h
    cases p <;> rfl

/-- The configuration at a path cannot be read as text, or it is no JSON text of the right shape. -/
theorem Volume.code_of_loadConfig {disk : Disk} (h : v.loadConfig disk path = .error e) :
    v.readText disk path = .error e ∨ e.code = .invalidJson := by
  unfold loadConfig at h
  split at h
  next e' hread =>
    cases h
    exact .inl hread
  · split at h <;> cases h
    exact .inr rfl

end Kinds

/-! ### Configurations that cannot be resolved -/

namespace Arguments

variable {a : Arguments} {host : Host} {v : Volume} {e : Error}

/-- The configuration file that is named cannot be read as text. -/
def ConfigUnreadable (a : Arguments) (host : Host) (v : Volume) : Prop :=
  ∃ path e, a.config = some path ∧ v.readText host.disk (Bytes.ofString path) = .error e

/-- A configuration that cannot be resolved is in a file that cannot be read, or it is not a valid
one. -/
theorem resolve_error_cases (h : a.resolve host v = .error e) :
    (a.ConfigUnreadable host v ∧ e.code = .io) ∨ e.code = .invalidJson ∨
      e.code = .invalidValue := by
  unfold resolve at h
  split at h
  · exact .inr (.inr (Config.code_of_validate h))
  next path hpath =>
    split at h
    next e' hload =>
      cases h
      obtain hread | hcode := Volume.code_of_loadConfig hload
      · exact .inl ⟨⟨path, e, hpath, hread⟩, Volume.code_of_readText hread⟩
      · exact .inr (.inl hcode)
    · exact .inr (.inr (Config.code_of_validate h))

/-- A configuration in a file that cannot be read cannot be resolved. -/
theorem ConfigUnreadable.exists_resolve_eq (h : a.ConfigUnreadable host v) :
    ∃ e, a.resolve host v = .error e ∧ e.code = .io := by
  obtain ⟨path, e, hpath, hread⟩ := h
  refine ⟨e, ?_, Volume.code_of_readText hread⟩
  have hload : v.loadConfig host.disk (Bytes.ofString path) = .error e := by
    rw [Volume.loadConfig, hread]
  rw [resolve, hpath]
  simp only [hload]

end Arguments

/-! ### Files that fail -/

section Failing

variable {host : Host} {rule : Rule} {c : Config} {v w : Volume} {path : Bytes}
  {paths : List Bytes} {e : Error} {status : Status}

/-- A run over paths comes to one that cannot be processed, in the volume that the files before it
have left. -/
def FailsAmong (host : Host) (rule : Rule) (c : Config) (v : Volume) (paths : List Bytes) : Prop :=
  ∃ before path after e, paths = before ++ path :: after ∧
    (visitFiles host rule c v before).stopped = none ∧
    (processFile host rule c (visitFiles host rule c v before).volume path).1 = .error e

theorem not_failsAmong_nil : ¬ FailsAmong host rule c v [] := by
  rintro ⟨before, path, after, e, hpaths, -⟩
  simp at hpaths

theorem failsAmong_cons_of_error (h : processFile host rule c v path = (.error e, w)) :
    FailsAmong host rule c v (path :: paths) :=
  ⟨[], path, paths, e, rfl, rfl, congrArg Prod.fst h⟩

/-- A file that does not fail leaves it to those behind it. -/
theorem failsAmong_cons_of_ok (h : processFile host rule c v path = (.ok status, w)) :
    FailsAmong host rule c v (path :: paths) ↔ FailsAmong host rule c w paths := by
  constructor
  · rintro ⟨before, failing, after, e, hpaths, hgone, herror⟩
    cases before with
    | nil =>
      obtain ⟨rfl, rfl⟩ := List.cons.inj hpaths
      rw [visitFiles, h] at herror
      cases herror
    | cons first before =>
      obtain ⟨rfl, rfl⟩ := List.cons.inj hpaths
      rw [visitFiles_cons_of_ok h] at hgone herror
      exact ⟨before, failing, after, e, rfl, hgone, herror⟩
  · rintro ⟨before, failing, after, e, rfl, hgone, herror⟩
    refine ⟨path :: before, failing, after, e, rfl, ?_, ?_⟩
    · rw [visitFiles_cons_of_ok h]
      exact hgone
    · rw [visitFiles_cons_of_ok h]
      exact herror

/-- A run is stopped exactly when it stops at failures and a file fails. -/
theorem exists_stopped_visitFiles_iff :
    (∃ e, (visitFiles host rule c v paths).stopped = some e) ↔
      c.onError = .abort ∧ FailsAmong host rule c v paths := by
  induction paths generalizing v with
  | nil =>
    refine iff_of_false ?_ fun h => not_failsAmong_nil h.2
    rintro ⟨e, h⟩
    cases h
  | cons path paths ih =>
    cases h : processFile host rule c v path with
    | mk result w =>
      cases result with
      | ok status =>
        rw [visitFiles_cons_of_ok h, failsAmong_cons_of_ok h]
        exact ih
      | error e =>
        cases hc : c.onError with
        | abort =>
          rw [visitFiles_cons_of_abort hc h]
          exact iff_of_true ⟨e, rfl⟩ ⟨rfl, failsAmong_cons_of_error h⟩
        | keepGoing =>
          rw [stopped_visitFiles hc]
          simp

/-- A run has a failed outcome exactly when it keeps going and a file fails. -/
theorem exists_isFailed_visitFiles_iff :
    (∃ o ∈ (visitFiles host rule c v paths).outcomes, o.isFailed) ↔
      c.onError = .keepGoing ∧ FailsAmong host rule c v paths := by
  induction paths generalizing v with
  | nil =>
    refine iff_of_false ?_ fun h => not_failsAmong_nil h.2
    rintro ⟨o, ho, -⟩
    cases ho
  | cons path paths ih =>
    cases h : processFile host rule c v path with
    | mk result w =>
      cases result with
      | ok status =>
        rw [visitFiles_cons_of_ok h, failsAmong_cons_of_ok h, ← ih, Run.after,
          List.exists_mem_cons_iff, isFailed_of_processFile h]
        simp
      | error e =>
        cases hc : c.onError with
        | abort =>
          rw [visitFiles_cons_of_abort hc h]
          simp
        | keepGoing =>
          rw [visitFiles_cons_of_keepGoing hc h]
          exact iff_of_true ⟨_, .head _, rfl⟩ ⟨rfl, failsAmong_cons_of_error h⟩

end Failing

/-! ### The exit code of a report -/

section Reports

variable {root : Bytes} {dryRun : Bool} {outcomes : List Outcome}

theorem Course.exitCode_eq_zero_or_eq_three (r : Report) :
    Course.exitCode r = 0 ∨ Course.exitCode r = 3 := by
  unfold Course.exitCode
  split
  · exact .inr rfl
  · exact .inl rfl

theorem Course.exitCode_eq_zero_iff (r : Report) :
    Course.exitCode r = 0 ↔ r.summary.failed = 0 := by
  unfold Course.exitCode
  split
  next hpos => exact iff_of_false (by decide) (UInt64.pos_iff_ne_zero.1 hpos)
  next hzero => exact iff_of_true rfl (by simpa [UInt64.pos_iff_ne_zero] using hzero)

/-- Without a failed outcome the exit code is zero. -/
theorem Course.exitCode_ofOutcomes_of_quiet (h : ¬ ∃ o ∈ outcomes, o.isFailed) :
    Course.exitCode (.ofOutcomes root dryRun outcomes) = 0 := by
  have hcount : outcomes.countP Outcome.isFailed = 0 := by
    rw [List.countP_eq_zero]
    exact fun o ho hfailed => h ⟨o, ho, hfailed⟩
  rw [exitCode_eq_zero_iff, Report.ofOutcomes_eq, Summary.ofOutcomes, hcount]
  rfl

/-- With one it is not, when a word can count the outcomes. -/
theorem Course.exitCode_ofOutcomes_of_failed (hfit : outcomes.length < 2 ^ 64)
    (h : ∃ o ∈ outcomes, o.isFailed) :
    Course.exitCode (.ofOutcomes root dryRun outcomes) = 3 := by
  refine (exitCode_eq_zero_or_eq_three _).resolve_left fun hzero => ?_
  rw [exitCode_eq_zero_iff, Report.failed_ofOutcomes_eq_zero_iff hfit] at hzero
  obtain ⟨o, ho, hfailed⟩ := h
  rw [hzero o ho] at hfailed
  cases hfailed

end Reports

/-! ### The exit code of a program -/

section Programs

variable {a : Arguments} {host : Host} {t : Terminal} {v : Volume} {c : Config} {e : Error}

theorem exitCode_execute (a : Arguments) (host : Host) (t : Terminal) (v : Volume) :
    ((Command.run a).execute host t v).1.exitCode = clampExit (exitCodeOf (a.perform host v)) := by
  rw [Command.execute, Arguments.output]
  cases a.json <;> rfl

/-- The result of a program whose configuration cannot be resolved is the error. -/
theorem resultOf_perform_of_error (h : a.resolve host v = .error e) :
    resultOf (a.perform host v) = .error e := by
  rw [Arguments.perform, h]
  rfl

/-- So it is with a run that is stopped. -/
theorem resultOf_perform_of_stopped (h : a.resolve host v = .ok c)
    (hstopped : (migrate host .withOpacity c v).stopped = some e) :
    resultOf (a.perform host v) = .error e := by
  rw [Arguments.perform, h]
  simp only [resultOf, Course.result, Course.report, Run.report, hstopped]

/-- A run that is not stopped has a report. -/
theorem exists_resultOf_perform (h : a.resolve host v = .ok c)
    (hgone : (migrate host .withOpacity c v).stopped = none) :
    ∃ data, resultOf (a.perform host v) = .ok (data, Course.exitCode
      (.ofOutcomes (c.rootPath host.home) c.dryRun (migrate host .withOpacity c v).outcomes)) := by
  rw [Arguments.perform, h]
  simp only [resultOf, Course.result, Course.report, Run.report, hgone]
  exact ⟨_, rfl⟩

/-- The ways in which a program ends, with the exit code of each. Where a word cannot count the
files, it may miss those that failed. -/
inductive Ending (a : Arguments) (host : Host) (v : Volume) : Nat → Prop
  /-- The configuration cannot be read. -/
  | unreadable {e : Error} (h : a.resolve host v = .error e) (hfile : a.ConfigUnreadable host v)
      (hkind : e.code = .io) : Ending a host v 1
  /-- The configuration is not valid. -/
  | invalid {e : Error} (h : a.resolve host v = .error e)
      (hkind : e.code = .invalidJson ∨ e.code = .invalidValue) : Ending a host v 2
  /-- A file fails, and the run stops. -/
  | stopped {c : Config} (h : a.resolve host v = .ok c) (hc : c.onError = .abort)
      (hfails : FailsAmong host .withOpacity c v (visitedPaths host c v)) : Ending a host v 1
  /-- A file fails, and the run keeps going. -/
  | incomplete {c : Config} {code : Nat} (h : a.resolve host v = .ok c)
      (hc : c.onError = .keepGoing)
      (hfails : FailsAmong host .withOpacity c v (visitedPaths host c v))
      (hcode : code = 0 ∨ code = 3) (hfit : (visitedPaths host c v).length < 2 ^ 64 → code = 3) :
      Ending a host v code
  /-- No file fails. -/
  | complete {c : Config} (h : a.resolve host v = .ok c)
      (hquiet : ¬ FailsAmong host .withOpacity c v (visitedPaths host c v)) : Ending a host v 0

/-- Every program ends in one of these ways. -/
theorem ending_execute (a : Arguments) (host : Host) (t : Terminal) (v : Volume) :
    Ending a host v ((Command.run a).execute host t v).1.exitCode := by
  rw [exitCode_execute, exitCodeOf]
  cases h : a.resolve host v with
  | error e =>
    rw [resultOf_perform_of_error h, Envelope.exitCode]
    obtain ⟨hfile, hio⟩ | hjson | hvalue := Arguments.resolve_error_cases h
    · rw [hio]
      exact .unreadable h hfile hio
    · rw [hjson]
      exact .invalid h (.inl hjson)
    · rw [hvalue]
      exact .invalid h (.inr hvalue)
  | ok c =>
    cases hstopped : (migrate host .withOpacity c v).stopped with
    | some e =>
      obtain ⟨hc, hfails⟩ := exists_stopped_visitFiles_iff.1 ⟨e, hstopped⟩
      rw [resultOf_perform_of_stopped h hstopped, Envelope.exitCode,
        code_of_stopped_visitFiles hstopped]
      exact .stopped h hc hfails
    | none =>
      obtain ⟨data, hresult⟩ := exists_resultOf_perform h hstopped
      rw [hresult, Envelope.exitCode]
      by_cases hfailed : ∃ o ∈ (migrate host .withOpacity c v).outcomes, o.isFailed
      · obtain ⟨hc, hfails⟩ := exists_isFailed_visitFiles_iff.1 hfailed
        refine .incomplete h hc hfails ?_ fun hfit => ?_
        · obtain hzero | hthree := Course.exitCode_eq_zero_or_eq_three (.ofOutcomes
            (c.rootPath host.home) c.dryRun (migrate host .withOpacity c v).outcomes)
          · exact .inl (by rw [hzero]; rfl)
          · exact .inr (by rw [hthree]; rfl)
        · rw [Course.exitCode_ofOutcomes_of_failed ?_ hfailed]
          · rfl
          · rwa [migrate, ← List.length_map Outcome.path, map_path_visitFiles hc]
      · rw [Course.exitCode_ofOutcomes_of_quiet hfailed]
        refine .complete h fun hfails => ?_
        -- a file that fails stops the run or has an outcome
        cases hc : c.onError with
        | abort =>
          obtain ⟨e, he⟩ := exists_stopped_visitFiles_iff.2 ⟨hc, hfails⟩
          rw [migrate, he] at hstopped
          cases hstopped
        | keepGoing => exact hfailed (exists_isFailed_visitFiles_iff.2 ⟨hc, hfails⟩)

namespace Ending

variable {code : Nat}

-- In each of these, every way of ending settles both sides.

theorem eq_two_iff (h : Ending a host v code) :
    code = 2 ↔
      ∃ e, a.resolve host v = .error e ∧ (e.code = .invalidJson ∨ e.code = .invalidValue) := by
  cases h <;> grind

theorem eq_one_iff (h : Ending a host v code) :
    code = 1 ↔ a.ConfigUnreadable host v ∨
      ∃ c, a.resolve host v = .ok c ∧ c.onError = .abort ∧
        FailsAmong host .withOpacity c v (visitedPaths host c v) := by
  have := @Arguments.ConfigUnreadable.exists_resolve_eq a host v
  cases h <;> grind

theorem eq_three_iff (h : Ending a host v code)
    (hfit : ∀ c, a.resolve host v = .ok c → (visitedPaths host c v).length < 2 ^ 64) :
    code = 3 ↔ ∃ c, a.resolve host v = .ok c ∧ c.onError = .keepGoing ∧
      FailsAmong host .withOpacity c v (visitedPaths host c v) := by
  cases h <;> grind

theorem eq_zero_iff (h : Ending a host v code)
    (hfit : ∀ c, a.resolve host v = .ok c → (visitedPaths host c v).length < 2 ^ 64) :
    code = 0 ↔ ∃ c, a.resolve host v = .ok c ∧
      ¬ FailsAmong host .withOpacity c v (visitedPaths host c v) := by
  cases h <;> grind

end Ending

/-! ### Envelopes -/

/-- An envelope says success exactly when the exit code of its result is zero. -/
theorem Envelope.success_ofResult {result : Except Error (Json × Int)}
    (h : ∀ data code, result = .ok (data, code) → 0 ≤ code) :
    (ofResult result).get? "success" =
      some (.bool (clampExit (Envelope.exitCode result) = 0)) := by
  cases result with
  | error e =>
    have hcode : clampExit e.code.exitCode ≠ 0 := by cases e.code <;> decide
    simp [ofResult, ofError, Json.get?, Envelope.exitCode, hcode]
  | ok q =>
    obtain ⟨data, code⟩ := q
    have hcode : clampExit code = 0 ↔ code = 0 := by
      have := h data code rfl
      simp only [clampExit]
      omega
    simp [ofResult, ofData, Json.get?, Envelope.exitCode, hcode]

/-- An envelope has data exactly when its result has. -/
theorem Envelope.isSome_data_ofResult (result : Except Error (Json × Int)) :
    ((ofResult result).get? "data").isSome ↔ ∃ q, result = .ok q := by
  cases result with
  | error e => simp [ofResult, ofError, Json.get?, List.lookup_cons]
  | ok q => simp [ofResult, ofData, Json.get?, List.lookup_cons]

/-- A program has a result with data exactly when its configuration is resolved and its run is not
stopped. -/
theorem exists_resultOf_perform_iff :
    (∃ q, resultOf (a.perform host v) = .ok q) ↔
      ∃ c, a.resolve host v = .ok c ∧ (migrate host .withOpacity c v).stopped = none := by
  constructor
  · rintro ⟨q, hq⟩
    cases h : a.resolve host v with
    | error e =>
      rw [resultOf_perform_of_error h] at hq
      cases hq
    | ok c =>
      refine ⟨c, rfl, ?_⟩
      cases hstopped : (migrate host .withOpacity c v).stopped with
      | none => rfl
      | some e =>
        rw [resultOf_perform_of_stopped h hstopped] at hq
        cases hq
  · rintro ⟨c, h, hgone⟩
    obtain ⟨data, hresult⟩ := exists_resultOf_perform h hgone
    exact ⟨_, hresult⟩

/-- The exit code that goes with data is not negative. -/
theorem nonneg_of_resultOf_perform {data : Json} {code : Int}
    (h : resultOf (a.perform host v) = .ok (data, code)) : 0 ≤ code := by
  obtain ⟨c, hresolve, hgone⟩ := exists_resultOf_perform_iff.1 ⟨_, h⟩
  obtain ⟨data', hresult⟩ := exists_resultOf_perform hresolve hgone
  obtain ⟨-, rfl⟩ := Prod.mk.inj (Except.ok.inj (h.symm.trans hresult))
  obtain hzero | hthree := Course.exitCode_eq_zero_or_eq_three (.ofOutcomes
    (c.rootPath host.home) c.dryRun (migrate host .withOpacity c v).outcomes)
  · exact Int.le_of_eq hzero.symm
  · rw [hthree]
    decide

end Programs

/-! ### Lines -/

/-- The lines about files that failed: how many, which, and what to do about it. -/
theorem Error.lines_filesFailed (files : List String) :
    (Error.filesFailed files).lines =
      ("Error: " ++ (toString files.length ++ " file(s) could not be rewritten")) ::
        (files.map ("  " ++ ·) ++
          ["hint: Check file permissions and encoding, then re-run; fixed files are skipped"]) := by
  have hfiles : (Error.filesFailed files).files = files := by
    simp [Error.files, Error.filesFailed, Json.get?, Json.strings, Json.items?, Json.string?,
      List.filterMap_map, Function.comp_def]
  have hdisplay : (Error.filesFailed files).display =
      toString files.length ++ " file(s) could not be rewritten" := by
    simp [Error.display, Error.detail?, Error.filesFailed, Json.get?, List.lookup_cons]
  rw [Error.lines, hfiles, hdisplay]
  rfl

/-- Nothing is told while outcomes come in when nobody watches and every text is printed. -/
theorem Course.outcomeLines_eq_nil {t : Terminal} (k : Course) (hwatched : t.watched = false)
    (hprinted : ∀ n, t.refusal? n = none) (json : Bool) (printed : Nat) (outcomes : List Outcome) :
    k.outcomeLines t json printed outcomes = [] := by
  induction outcomes generalizing printed with
  | nil => rfl
  | cons o outcomes ih => simp [outcomeLines, hwatched, hprinted, ih]

theorem progressOf_eq_nil {t : Terminal} (hwatched : t.watched = false)
    (hprinted : ∀ n, t.refusal? n = none) (json : Bool) (course : Except Error Course) :
    progressOf t json course = [] := by
  cases course with
  | error e => rfl
  | ok k =>
    rw [progressOf, Course.progressLines, k.outcomeLines_eq_nil hwatched hprinted, hwatched]
    cases k.report <;> rfl

/-! ### Whole programs -/

/-- What the exit code, the envelope and the list of failed files of a program say is what became of
its configuration and its files. -/
structure Conclusion (a : Arguments) (host : Host) (t : Terminal) (v : Volume) (out : Output)
    (after : Volume) : Prop where
  /-- Two: the configuration is not valid. -/
  invalid : out.exitCode = 2 ↔
    ∃ e, a.resolve host v = .error e ∧ (e.code = .invalidJson ∨ e.code = .invalidValue)
  /-- One: the file of the configuration cannot be read, or a file fails in a run that stops. -/
  failed : out.exitCode = 1 ↔ a.ConfigUnreadable host v ∨
    ∃ c, a.resolve host v = .ok c ∧ c.onError = .abort ∧
      FailsAmong host .withOpacity c v (visitedPaths host c v)
  /-- Three: a file fails in a run that keeps going. -/
  incomplete : (∀ c, a.resolve host v = .ok c → (visitedPaths host c v).length < 2 ^ 64) →
    (out.exitCode = 3 ↔ ∃ c, a.resolve host v = .ok c ∧ c.onError = .keepGoing ∧
      FailsAmong host .withOpacity c v (visitedPaths host c v))
  /-- Zero: there is a configuration, and no file fails. -/
  complete : (∀ c, a.resolve host v = .ok c → (visitedPaths host c v).length < 2 ^ 64) →
    (out.exitCode = 0 ↔ ∃ c, a.resolve host v = .ok c ∧
      ¬ FailsAmong host .withOpacity c v (visitedPaths host c v))
  /-- Without a configuration nothing is changed, and nothing but the error is told. -/
  unresolved : ∀ e, a.resolve host v = .error e → after = v ∧
    (a.json = false → out.stdout = "" ∧ out.stderr = unlines e.lines) ∧
    (a.json = true → out.stdout = unlines (t.arriving [Envelope.line (.error e)]) ∧
      out.stderr = unlines (((t.refusal? 0).map Error.lines).getD []))
  /-- With JSON one envelope is printed. It says success when the exit code is zero, and has data
  when there is a configuration and the run was not stopped. -/
  envelope : a.json = true → t.stdout 0 = .arrives →
    ∃ envelope : Json, out.stdout = envelope.pretty ++ "\n" ∧
      envelope.get? "success" = some (.bool (out.exitCode = 0)) ∧
      ((envelope.get? "data").isSome ↔ ∃ c, a.resolve host v = .ok c ∧
        (migrate host .withOpacity c v).stopped = none)
  /-- Without JSON a program that ends with three lists the files that failed, in the order of the
  visits, behind what it told on the way. -/
  listing : a.json = false → out.exitCode = 3 → ∃ c, a.resolve host v = .ok c ∧
    (migrate host .withOpacity c v).outcomes.map Outcome.path = visitedPaths host c v ∧
    let files := ((migrate host .withOpacity c v).outcomes.filter Outcome.isFailed).map
      Outcome.shownPath
    out.stderr = unlines (progressOf t false (a.perform host v) ++
      ("Error: " ++ (toString files.length ++ " file(s) could not be rewritten")) ::
        (files.map ("  " ++ ·) ++
          ["hint: Check file permissions and encoding, then re-run; fixed files are skipped"]))
  /-- On the way nothing is told when nobody watches and standard output takes every text. -/
  quiet : t.watched = false → (∀ n, t.refusal? n = none) →
    progressOf t a.json (a.perform host v) = []

section Programs

variable {a : Arguments} {host : Host} {t : Terminal} {v : Volume} {e : Error}

/-- Without a configuration the program is its error. -/
theorem execute_of_unresolved (h : a.resolve host v = .error e) :
    (Command.run a).execute host t v = (a.output t (.error e), v) := by
  have hperform : a.perform host v = .error e := by rw [Arguments.perform, h]
  rw [Command.execute, hperform]
  rfl

/-- With JSON one envelope is printed, when standard output takes it. -/
theorem stdout_execute_of_json (hjson : a.json = true) (harrives : t.stdout 0 = .arrives) :
    ((Command.run a).execute host t v).1.stdout =
      (Envelope.ofResult (resultOf (a.perform host v))).pretty ++ "\n" := by
  rw [Command.execute, Arguments.output, hjson]
  simp [Terminal.arriving, harrives, unlines, Envelope.line, String.join]

/-- Without JSON a program that ends with three ends with the list of the files that failed. -/
theorem stderr_execute_of_three (hjson : a.json = false)
    (hthree : ((Command.run a).execute host t v).1.exitCode = 3) :
    ∃ c, a.resolve host v = .ok c ∧ c.onError = .keepGoing ∧
      ((Command.run a).execute host t v).1.stderr =
        unlines (progressOf t false (a.perform host v) ++ (Error.filesFailed
          (((migrate host .withOpacity c v).outcomes.filter Outcome.isFailed).map
            Outcome.shownPath)).lines) := by
  have hending := ending_execute a host t v
  rw [hthree] at hending
  cases hending with
  | @incomplete c _ h hc hfails =>
    refine ⟨c, h, hc, ?_⟩
    have hgone : (migrate host .withOpacity c v).stopped = none := stopped_visitFiles hc
    obtain ⟨data, hresult⟩ := exists_resultOf_perform h hgone
    rw [exitCode_execute, exitCodeOf, hresult, Envelope.exitCode] at hthree
    have hnonzero : Course.exitCode (.ofOutcomes (c.rootPath host.home) c.dryRun
        (migrate host .withOpacity c v).outcomes) ≠ 0 := by
      intro hzero
      rw [hzero] at hthree
      cases hthree
    rw [← Report.failedPaths_ofOutcomes, Command.execute, Arguments.output, hjson]
    simp only [Arguments.perform, h, endingLines, Course.report, Run.report, hgone, if_neg hnonzero]
    rfl

/-- The exit code, the envelope and the list of failed files say what became of the configuration
and of the files, for all arguments, volumes and terminals. -/
theorem execute_conclusion (a : Arguments) (host : Host) (t : Terminal) (v : Volume) :
    Conclusion a host t v ((Command.run a).execute host t v).1
      ((Command.run a).execute host t v).2 where
  invalid := (ending_execute a host t v).eq_two_iff
  failed := (ending_execute a host t v).eq_one_iff
  incomplete := (ending_execute a host t v).eq_three_iff
  complete := (ending_execute a host t v).eq_zero_iff
  unresolved := by
    intro e h
    rw [execute_of_unresolved h]
    refine ⟨rfl, fun hjson => ?_, fun hjson => ?_⟩
    · rw [Arguments.output, hjson]
      exact ⟨rfl, rfl⟩
    · rw [Arguments.output, hjson]
      exact ⟨rfl, rfl⟩
  envelope := by
    intro hjson harrives
    refine ⟨_, stdout_execute_of_json hjson harrives, ?_, ?_⟩
    · rw [exitCode_execute]
      exact Envelope.success_ofResult fun data code => nonneg_of_resultOf_perform
    · rw [Envelope.isSome_data_ofResult, exists_resultOf_perform_iff]
  listing := by
    intro hjson hthree
    obtain ⟨c, h, hc, hstderr⟩ := stderr_execute_of_three hjson hthree
    refine ⟨c, h, map_path_visitFiles hc, ?_⟩
    rw [hstderr, Error.lines_filesFailed]
  quiet := fun hwatched hprinted => progressOf_eq_nil hwatched hprinted a.json _

/-- The only file is no text, and the run keeps going: it ends with three and lists the file. -/
theorem execute_conclusion_broken_text :
    let lib := Bytes.ofString "lib"
    let name := Bytes.ofString "a.dart"
    let v : Volume := ⟨⟨⟨{}, [(lib, .directory {} [(name, .file 0)])]⟩, []⟩, [⟨[0xFF], {}⟩]⟩
    let host : Host := { home := Bytes.ofString "home" }
    let out := ((Command.run { keepGoing := true }).execute host {} v).1
    out.exitCode = 3 ∧
      out.stderr = unlines ["Error: 1 file(s) could not be rewritten", "  lib/a.dart",
        "hint: Check file permissions and encoding, then re-run; fixed files are skipped"] := by
  intro lib name v host out
  have hresolve : Arguments.resolve { keepGoing := true } host v =
      .ok { onError := .keepGoing } := rfl
  have hlib : v.tree.resolve lib =
      .ok (.inside ⟨⟨{}, [(name, .file 0)]⟩, [(lib, v.tree.root)]⟩) :=
    Tree.resolve_eq_of_followWithin (n := 1) (by decide) (by decide) (by decide) rfl
  have hpaths : visitedPaths host { onError := .keepGoing } v = [Path.join lib name] := by
    rw [visitedPaths]
    exact Walk.walk_eq_map_of_visited hlib rfl rfl (by decide +kernel)
  have hfile : v.tree.resolve (Path.join lib name) = .ok (.leaf (.file 0)) :=
    Tree.resolve_eq_of_followWithin (n := 2) (by decide) (by decide) (by decide) rfl
  have hbroken : ∃ e, processFile host .withOpacity { onError := .keepGoing } v
      (Path.join lib name) = (.error e, v) := by
    have hread : ∃ e, v.readText host.disk (Path.join lib name) = .error e := by
      rw [Volume.readText, Volume.read, hfile]
      exact ⟨_, rfl⟩
    obtain ⟨e, he⟩ := hread
    exact ⟨e, by rw [processFile, he]⟩
  obtain ⟨e, he⟩ := hbroken
  have hconclusion := execute_conclusion { keepGoing := true } host {} v
  have hcode : out.exitCode = 3 := by
    refine (hconclusion.incomplete fun c hc => ?_).2
      ⟨_, hresolve, rfl, hpaths ▸ failsAmong_cons_of_error he⟩
    obtain rfl := Except.ok.inj (hresolve.symm.trans hc)
    rw [hpaths]
    decide
  obtain ⟨c, hc, -, hstderr⟩ := hconclusion.listing rfl hcode
  obtain rfl := Except.ok.inj (hresolve.symm.trans hc)
  have hfiles : ((migrate host .withOpacity { onError := .keepGoing } v).outcomes.filter
      Outcome.isFailed).map Outcome.shownPath = ["lib/a.dart"] := by
    have hshown : Utf8.decodeLossy (Path.join lib name) = "lib/a.dart" := by decide +kernel
    rw [migrate, hpaths, visitFiles_cons_of_keepGoing rfl he, ← hshown]
    rfl
  refine ⟨hcode, hstderr.trans ?_⟩
  rw [hconclusion.quiet rfl fun n => rfl, hfiles]
  rfl

end Programs

end CallMigration
