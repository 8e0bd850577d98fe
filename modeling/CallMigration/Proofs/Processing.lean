import CallMigration.Proofs.Shallow
import CallMigration.Run

/-!
# What becomes of one file

Processing a file reads it, edits it, and writes it back. Whatever the disk does, nothing is written
before the whole edited text is there, and from then on the disk decides: opening the file empties
it, and a write that breaks leaves what was stored by then.

## Main Definitions

* `Volume.contentAt?` — the content of the regular file that a path leads to
* `WritesBack` — processing a file comes to the point where it writes
* `KeepsWhole` — the file has its old content, or the whole new one if it is reported as fixed

## Main Statements

* `processFile_of_writesBack` — what is written, and what is reported about it
* `processFile_of_not_writesBack` — in all other cases nothing is written
* `processFile_keepsWhole_iff` — a file is kept whole unless a write to it breaks

## Design Notes

A write that breaks leaves the file whole only when what was stored by then is the old content.
A flush that fails is a write that breaks behind its last byte.
-/

namespace CallMigration

/-! ### Contents -/

/-- The content of the regular file that a path leads to. -/
def Volume.contentAt? (v : Volume) (path : Bytes) : Option Bytes :=
  (v.tree.fileAt? path).bind fun id => v.files[id]?.map File.content

theorem Volume.contentAt?_eq_some {v : Volume} {path : Bytes} {id : FileId} {f : File}
    (hid : v.tree.fileAt? path = some id) (hfile : v.files[id]? = some f) :
    v.contentAt? path = some f.content := by
  rw [contentAt?, hid, Option.bind_some, hfile, Option.map_some]

theorem Volume.contentAt?_setContent {v : Volume} {path : Bytes} {id : FileId} {f : File}
    (hid : v.tree.fileAt? path = some id) (hfile : v.files[id]? = some f) (content : Bytes) :
    (v.setContent id content).contentAt? path = some content := by
  rw [contentAt?, tree_setContent, hid, Option.bind_some, setContent, List.getElem?_modify_eq,
    hfile]
  rfl

theorem Volume.contentAt?_eq_none {v : Volume} {path : Bytes} (h : v.tree.fileAt? path = none) :
    v.contentAt? path = none := by
  rw [contentAt?, h, Option.bind_none]

/-- A text behind a path that leads to a file comes from a file that can be read. -/
theorem Volume.exists_file_of_readText {disk : Disk} {v : Volume} {path t : Bytes} {id : FileId}
    (hid : v.tree.fileAt? path = some id) (h : v.readText disk path = .ok t) :
    ∃ f, v.files[id]? = some f ∧ f.access.read = true ∧ disk.reading id = none ∧ Utf8.Valid t ∧
      f.content = t := by
  rw [readText, read, Tree.resolve_of_fileAt? hid] at h
  cases hfile : v.files[id]? with
  | none => simp [readFile, hfile] at h
  | some f =>
    cases hreadable : f.access.read with
    | false => simp [readFile, hfile, hreadable] at h
    | true =>
      cases hreading : disk.reading id with
      | some cause => simp [readFile, hfile, hreadable, hreading] at h
      | none =>
        simp only [readFile, hfile, hreadable, hreading, not_true_eq_false, if_false] at h
        split at h
        · cases h
        next hvalid =>
          cases h
          exact ⟨f, rfl, hreadable, rfl, hvalid, rfl⟩

/-- What is written to no file leaves the volume as it is. -/
theorem Volume.snd_overwriteText_of_fileAt?_eq_none {v : Volume} {path : Bytes}
    (h : v.tree.fileAt? path = none) (disk : Disk) (content : Bytes) :
    (v.overwriteText disk path content).2 = v := by
  rw [overwriteText, overwrite]
  unfold Tree.fileAt? at h
  split at h
  · cases h
  · grind

/-! ### Writing a file back -/

/-- Processing a file comes to the point where it writes: the file can be read, it is a text that
the rule changes, the run is not a dry one, and the file can be opened for writing. -/
structure WritesBack (host : Host) (rule : Rule) (c : Config) (id : FileId) (f : File) : Prop where
  readable : f.access.read = true
  reading : host.disk.reading id = none
  isText : Utf8.Valid f.content
  changes : (rule.apply c.mode f.content).text ≠ f.content
  wet : c.dryRun = false
  writable : f.access.write = true
  opening : host.disk.opening id = none

variable {host : Host} {rule : Rule} {c : Config} {v : Volume} {path : Bytes}

/-- A file that is written has the edited text if the disk stores it, and otherwise the part that
was stored, which is reported as an error. -/
theorem processFile_of_writesBack {id : FileId} {f : File} (hid : v.tree.fileAt? path = some id)
    (hfile : v.files[id]? = some f) (h : WritesBack host rule c id f) :
    processFile host rule c v path =
      match host.disk.writing id (rule.apply c.mode f.content).text with
      | .stored =>
        (.ok (.fixed (rule.apply c.mode f.content).replacements),
          v.setContent id (rule.apply c.mode f.content).text)
      | .broken bytes cause =>
        (.error (.io cause.text (Volume.placeOf "write" path)),
          v.setContent id ((rule.apply c.mode f.content).text.take bytes)) := by
  have hresolve := Tree.resolve_of_fileAt? hid
  have hread : v.readText host.disk path = .ok f.content := by
    have htext : Utf8.invalidAt? f.content = none := h.isText
    simp [Volume.readText, Volume.read, hresolve, Volume.readFile, hfile, h.readable, h.reading,
      htext]
  simp only [processFile, hread, if_neg h.changes, h.wet, Volume.overwriteText, Volume.overwrite,
    hresolve, Volume.overwriteFile, hfile, h.writable, h.opening]
  cases host.disk.writing id (rule.apply c.mode f.content).text <;> rfl

/-- In all other cases the volume stays as it is, and only a dry run reports a file as fixed. -/
theorem processFile_of_not_writesBack
    (h : ∀ id f, v.tree.fileAt? path = some id → v.files[id]? = some f →
      ¬ WritesBack host rule c id f) :
    (processFile host rule c v path).2 = v ∧
      ∀ id n, v.tree.fileAt? path = some id →
        (processFile host rule c v path).1 = .ok (.fixed n) → c.dryRun = true := by
  unfold processFile
  cases hread : v.readText host.disk path with
  | error e => exact ⟨rfl, fun id n _ hn => by cases hn⟩
  | ok t =>
    simp only
    by_cases hchanges : (rule.apply c.mode t).text = t
    · rw [if_pos hchanges]
      exact ⟨rfl, fun id n _ hn => by cases hn⟩
    · rw [if_neg hchanges]
      cases hdry : c.dryRun with
      | true => exact ⟨rfl, fun _ _ _ _ => rfl⟩
      | false =>
        cases hid : v.tree.fileAt? path with
        | none =>
          have hkept := Volume.snd_overwriteText_of_fileAt?_eq_none hid host.disk
            (rule.apply c.mode t).text
          refine ⟨?_, fun id n hid' => by cases hid'⟩
          cases hwrite : v.overwriteText host.disk path (rule.apply c.mode t).text with
          | mk refusal w =>
            rw [hwrite] at hkept
            cases refusal <;> exact hkept
        | some id =>
          obtain ⟨f, hfile, hreadable, hreading, hvalid, rfl⟩ :=
            Volume.exists_file_of_readText hid hread
          have hnot := h id f hid hfile
          -- what is left to refuse the write is the permission, or the disk at opening
          have hkept : ∃ e, v.overwriteText host.disk path (rule.apply c.mode f.content).text =
              (some e, v) := by
            simp only [Volume.overwriteText, Volume.overwrite, Tree.resolve_of_fileAt? hid,
              Volume.overwriteFile, hfile]
            cases hwritable : f.access.write with
            | false => exact ⟨_, rfl⟩
            | true =>
              cases hopening : host.disk.opening id with
              | some cause => exact ⟨_, rfl⟩
              | none =>
                exact absurd ⟨hreadable, hreading, hvalid, hchanges, hdry, hwritable, hopening⟩
                  hnot
          obtain ⟨e, hkept⟩ := hkept
          simp only [Bool.false_eq_true, if_false, hkept]
          exact ⟨trivial, fun _ n _ hn => by cases hn⟩

/-! ### Files are kept whole -/

/-- The file that a path leads to has its old content, or the whole new one if it is reported as
fixed in a run that is not a dry one. -/
structure KeepsWhole (rule : Rule) (c : Config) (path : Bytes) (v : Volume)
    (result : Except Error Status × Volume) : Prop where
  failed : ∀ e, result.1 = .error e → result.2.contentAt? path = v.contentAt? path
  unchanged : result.1 = .ok .unchanged → result.2.contentAt? path = v.contentAt? path
  dry : c.dryRun = true → result.2.contentAt? path = v.contentAt? path
  fixed : ∀ n, result.1 = .ok (.fixed n) → c.dryRun = false →
    result.2.contentAt? path = (v.contentAt? path).map fun t => (rule.apply c.mode t).text

/-- A volume that stays as it is keeps its files whole, unless one is said to be fixed. -/
theorem keepsWhole_of_eq {result : Except Error Status × Volume} (hsame : result.2 = v)
    (hfixed : ∀ id n, v.tree.fileAt? path = some id → result.1 = .ok (.fixed n) →
      c.dryRun = true) :
    KeepsWhole rule c path v result := by
  refine ⟨fun _ _ => by rw [hsame], fun _ => by rw [hsame], fun _ => by rw [hsame], ?_⟩
  intro n hn hwet
  cases hid : v.tree.fileAt? path with
  | none => rw [hsame, Volume.contentAt?_eq_none hid, Option.map_none]
  | some id =>
    rw [hfixed id n hid hn] at hwet
    cases hwet

/-- A file is kept whole exactly when no write to it breaks, unless what was stored by then is what
the file held before. -/
theorem processFile_keepsWhole_iff (host : Host) (rule : Rule) (c : Config) (v : Volume)
    (path : Bytes) :
    KeepsWhole rule c path v (processFile host rule c v path) ↔
      ∀ id f, v.tree.fileAt? path = some id → v.files[id]? = some f →
        WritesBack host rule c id f → ∀ bytes cause,
          host.disk.writing id (rule.apply c.mode f.content).text = .broken bytes cause →
            (rule.apply c.mode f.content).text.take bytes = f.content := by
  constructor
  · intro hwhole id f hid hfile hwrites bytes cause hbroken
    have hresult := processFile_of_writesBack hid hfile hwrites
    rw [hbroken] at hresult
    rw [hresult] at hwhole
    have hsame := hwhole.failed _ rfl
    rw [Volume.contentAt?_setContent hid hfile, Volume.contentAt?_eq_some hid hfile] at hsame
    exact Option.some.inj hsame
  · intro hbroken
    by_cases hwrites : ∃ id f, v.tree.fileAt? path = some id ∧ v.files[id]? = some f ∧
        WritesBack host rule c id f
    · obtain ⟨id, f, hid, hfile, hwrites⟩ := hwrites
      have hwet := hwrites.wet
      have hold := Volume.contentAt?_eq_some hid hfile
      have hnew := Volume.contentAt?_setContent hid hfile
      rw [processFile_of_writesBack hid hfile hwrites]
      cases hfate : host.disk.writing id (rule.apply c.mode f.content).text with
      | stored =>
        refine ⟨fun e he => ?_, fun hn => ?_, fun hdry => ?_, fun n _ _ => ?_⟩
        · cases he
        · cases hn
        · rw [hwet] at hdry
          cases hdry
        · rw [hnew, hold, Option.map_some]
      | broken bytes cause =>
        have hsame := hbroken id f hid hfile hwrites bytes cause hfate
        have hkept : (v.setContent id ((rule.apply c.mode f.content).text.take bytes)).contentAt?
            path = v.contentAt? path := by
          rw [hnew, hold, hsame]
        exact ⟨fun _ _ => hkept, fun _ => hkept, fun _ => hkept, fun n hn => by cases hn⟩
    · have hnot : (processFile host rule c v path).2 = v ∧ _ :=
        processFile_of_not_writesBack fun id f hid hfile hw => hwrites ⟨id, f, hid, hfile, hw⟩
      exact keepsWhole_of_eq hnot.1 hnot.2

/-- A disk that is full behind the second byte leaves two bytes of the new text. -/
theorem processFile_full_disk :
    let v : Volume :=
      ⟨⟨⟨{}, [(Bytes.ofString "a.dart", .file 0)]⟩, []⟩, [⟨Bytes.ofString "c.withOpacity(x)", {}⟩]⟩
    let full : Disk := { Disk.sound with writing := fun _ _ => .broken 2 .noSpace }
    let path := Bytes.ofString "a.dart"
    let host : Host := { home := [], disk := full }
    let result := processFile host .withOpacity {} v path
    result.1 = .error (.io "No space left on device (os error 28)" (some "write a.dart")) ∧
      v.contentAt? path = some (Bytes.ofString "c.withOpacity(x)") ∧
      result.2.contentAt? path = some (Bytes.ofString "c.") ∧
      ¬ KeepsWhole .withOpacity {} path v result := by
  intro v full path host result
  have hid : v.tree.fileAt? path = some 0 := by
    have hsteps : Path.steps path = [.enter path] := by decide
    unfold Tree.fileAt? Tree.resolve
    rw [if_neg (by decide), if_neg (by decide), if_neg (by decide), hsteps]
    unfold Tree.follow
    unfold Tree.follow
    rfl
  have hwrites : WritesBack host .withOpacity {} 0 ⟨Bytes.ofString "c.withOpacity(x)", {}⟩ :=
    ⟨rfl, rfl, by decide, by decide +kernel, rfl, rfl, rfl⟩
  have hresult : result = _ := processFile_of_writesBack hid rfl hwrites
  have hplace : Volume.placeOf "write" path = some "write a.dart" := by decide +kernel
  have htake : (Rule.withOpacity.apply .shallow (Bytes.ofString "c.withOpacity(x)")).text.take 2 =
      Bytes.ofString "c." := by
    decide +kernel
  have hfailed : result.1 =
      .error (.io "No space left on device (os error 28)" (some "write a.dart")) := by
    rw [hresult, ← hplace]
    rfl
  have hold : v.contentAt? path = some (Bytes.ofString "c.withOpacity(x)") :=
    Volume.contentAt?_eq_some hid rfl
  have hnew : result.2.contentAt? path = some (Bytes.ofString "c.") := by
    rw [hresult, ← htake]
    exact Volume.contentAt?_setContent hid rfl _
  refine ⟨hfailed, hold, hnew, fun hwhole => ?_⟩
  have hsame := hwhole.failed _ hfailed
  rw [hold, hnew] at hsame
  exact absurd hsame (by decide)

end CallMigration
