import CallMigration.Proofs.Announcements
import CallMigration.Proofs.Visits

/-!
# What a dry run foretells

A dry run changes nothing, so each of its outcomes is the one of a visit in the volume before the
run. A run that writes comes to the same outcome where it finds the file as it was, but for the
files that are to be edited and cannot be opened.

## Main Definitions

* `Config.withDryRun` — the configuration with dry runs on or off
* `Volume.withWriting` — the volume with other files that may be written
* `Outcome.foretold` — what becomes of the outcome of a dry run when the run is not dry

## Main Statements

* `File.visit_of_dryRun` — a visit in terms of a visit that does not write
* `visitFiles_of_dryRun` — a dry run
* `migrate_withOpacity_foretold` — the run of the built-in rule in terms of its dry run
* `migrate_withOpacity_foretold_full_disk` — on a disk that does not store what is written, a run
  fails in another way as well

## Design Notes

A later visit of the same file finds an edited text, in which shallow editing may replace another
call. What a dry run says about such a visit is said of the text before the run, so the outcome is
foretold for the first visit of each file only. The set of changed files is foretold all the same,
because no edit takes back another.
-/

namespace CallMigration

/-- The configuration with dry runs on or off. -/
def Config.withDryRun (c : Config) (dryRun : Bool) : Config := { c with dryRun := dryRun }

/-- The volume with other files that may be written. -/
def Volume.withWriting (v : Volume) (writable : FileId → Bool) : Volume :=
  { v with files := v.files.mapIdx fun id f =>
      { f with access := { f.access with write := writable id } } }

/-- Why the file that a path leads to cannot be opened for writing. -/
def Volume.refusal? (disk : Disk) (v : Volume) (path : Bytes) : Option SystemCause :=
  (v.file? path).bind fun q => q.2.refusal? disk q.1

/-- What becomes of the outcome of a dry run when the run is not dry: a file that is to be fixed
fails if it cannot be opened for writing. -/
def Outcome.foretold (refusal : Option SystemCause) (o : Outcome) : Outcome :=
  match refusal with
  | none => o
  | some cause =>
    if o.isFixed then
      ⟨o.path, .failed (Error.io cause.text (Volume.placeOf "write" o.path)).display⟩
    else o

variable {host : Host} {rule : Rule} {c : Config} {v : Volume} {path : Bytes} {id : FileId}
  {f : File} {paths : List Bytes}

/-! ### One file -/

namespace File

/-- A visit that stores what it writes, in terms of a visit that does not write. -/
theorem visit_of_dryRun (hstores : host.disk.Stores) (rule : Rule) (c : Config) (id : FileId)
    (f : File) :
    f.visit host rule (c.withDryRun false) id =
      match (f.visit host rule (c.withDryRun true) id).1, f.refusal? host.disk id with
      | .ok (.fixed n), none => (.ok (.fixed n), (rule.apply c.mode f.content).text)
      | .ok (.fixed _), some cause => (.error ⟨"write", cause.text⟩, f.content)
      | result, _ => (result, f.content) := by
  rw [visit, visit]
  cases htext : f.readText host.disk id with
  | error x => rfl
  | ok text =>
    obtain ⟨rfl, -⟩ := readText_eq_ok htext
    by_cases hsame : (rule.apply c.mode f.content).text = f.content
    · simp only [Config.withDryRun, hsame, if_true]
    · simp only [Config.withDryRun, if_neg hsame, Bool.false_eq_true, if_false, if_true]
      cases f.refusal? host.disk id with
      | some cause => rfl
      | none =>
        rw [hstores]

/-- A dry visit reads the text and reports what editing would come to. -/
theorem fst_visit_of_dryRun (hdry : c.dryRun = true) :
    (f.visit host rule c id).1 = (f.readText host.disk id).map fun text =>
      if (rule.apply c.mode text).text = text then .unchanged
      else .fixed (rule.apply c.mode text).replacements := by
  rw [visit]
  cases f.readText host.disk id with
  | error x => rfl
  | ok text =>
    simp only [hdry, if_true, Except.map]
    split <;> rfl

/-- A dry run fixes no file that editing would leave as it is. -/
theorem text_apply_ne_of_dryRun {n : Nat}
    (h : (f.visit host rule (c.withDryRun true) id).1 = .ok (.fixed n)) :
    (rule.apply c.mode f.content).text ≠ f.content := by
  rw [fst_visit_of_dryRun rfl] at h
  cases htext : f.readText host.disk id with
  | error x =>
    rw [htext] at h
    cases h
  | ok text =>
    obtain ⟨rfl, -⟩ := readText_eq_ok htext
    intro hsame
    simp [htext, Except.map, Config.withDryRun, hsame] at h

/-- A visit changes a file exactly when a dry one would fix it and it can be opened for writing. -/
theorem visit_ne_iff (hstores : host.disk.Stores) :
    (f.visit host rule (c.withDryRun false) id).2 ≠ f.content ↔
      f.refusal? host.disk id = none ∧
        ∃ n, (f.visit host rule (c.withDryRun true) id).1 = .ok (.fixed n) := by
  rw [visit_of_dryRun hstores]
  cases hdry : (f.visit host rule (c.withDryRun true) id).1 with
  | error x => simp
  | ok status =>
    cases status with
    | fixed n =>
      have hchanges := text_apply_ne_of_dryRun hdry
      cases f.refusal? host.disk id <;> simp [hchanges]
    | _ => simp

end File

/-- The outcome for a path, in terms of the outcome of a dry run. -/
theorem outcomeAt_of_dryRun (hstores : host.disk.Stores) (hstream : ¬ v.tree.Streams path)
    (rule : Rule) (c : Config) :
    outcomeAt host rule (c.withDryRun false) v path =
      (outcomeAt host rule (c.withDryRun true) v path).foretold (v.refusal? host.disk path) := by
  rw [outcomeAt, outcomeAt, Volume.refusal?]
  cases h : v.file? path with
  | none =>
    obtain ⟨e, he⟩ := Tree.exists_visitElsewhere_eq_error hstream
    rw [processFile_of_file?_eq_none h, processFile_of_file?_eq_none h, he, he]
    rfl
  | some q =>
    obtain ⟨id, f⟩ := q
    rw [processFile_of_file? h, processFile_of_file? h, File.visit_of_dryRun hstores,
      Option.bind_some]
    cases (f.visit host rule (c.withDryRun true) id).1 with
    | error x => cases f.refusal? host.disk id <;> rfl
    | ok status => cases status <;> cases f.refusal? host.disk id <;> rfl

/-! ### Dry runs -/

theorem snd_processFile_of_dryRun (hdry : c.dryRun = true) (rule : Rule) (v : Volume)
    (path : Bytes) : (processFile host rule c v path).2 = v := by
  refine (processFile_of_not_writesBack fun id f _ _ hwrites => ?_).1
  rw [hwrites.wet] at hdry
  cases hdry

/-- A dry run leaves the volume as it is, and has the outcome for each path. -/
theorem visitFiles_of_dryRun (hc : c.onError = .keepGoing) (hdry : c.dryRun = true) (rule : Rule)
    (v : Volume) (paths : List Bytes) :
    visitFiles host rule c v paths =
      { volume := v, outcomes := paths.map (outcomeAt host rule c v) } := by
  induction paths with
  | nil => rfl
  | cons path paths ih =>
    rw [visitFiles_cons_of_goesOn hc, snd_processFile_of_dryRun hdry, ih]
    rfl

theorem Volume.file?_withWriting (v : Volume) (writable : FileId → Bool) (path : Bytes) :
    (v.withWriting writable).file? path =
      (v.file? path).map fun q =>
        (q.1, { q.2 with access := { q.2.access with write := writable q.1 } }) := by
  simp only [file?, withWriting, List.getElem?_mapIdx, Option.map_bind, Function.comp_def,
    Option.map_map]

/-- What a dry run says about a path depends neither on the files that may be written nor on what
opening and writing meet with. -/
theorem outcomeAt_withWriting (hdry : c.dryRun = true) (writable : FileId → Bool)
    (opening : FileId → Option SystemCause) (writing : FileId → Bytes → WriteFate) :
    outcomeAt { host with disk := { host.disk with opening, writing } } rule c
      (v.withWriting writable) path = outcomeAt host rule c v path := by
  have hfile := v.file?_withWriting writable path
  rw [outcomeAt, outcomeAt]
  cases h : v.file? path with
  | none =>
    rw [h] at hfile
    rw [processFile_of_file?_eq_none hfile, processFile_of_file?_eq_none h]
    rfl
  | some q =>
    obtain ⟨id, f⟩ := q
    rw [h] at hfile
    rw [processFile_of_file? hfile, processFile_of_file? h, File.fst_visit_of_dryRun hdry,
      File.fst_visit_of_dryRun hdry]
    rfl

/-! ### Both runs -/

theorem visitedPaths_withDryRun (dryRun : Bool) :
    visitedPaths host (c.withDryRun dryRun) v = visitedPaths host c v := by
  apply Walk.walk_congr <;> rfl

/-- The outcome for a path whose file no path before it leads to is foretold. -/
theorem getElem?_outcomes_of_dryRun (hstores : host.disk.Stores) (hc : c.onError = .keepGoing)
    (hstream : ¬ v.tree.Streams path) (rule : Rule) {before after : List Bytes}
    (hpaths : paths = before ++ path :: after)
    (hfirst : ∀ p ∈ before, ¬ v.tree.SameFile p path) :
    (visitFiles host rule (c.withDryRun false) v paths).outcomes[before.length]? =
      (visitFiles host rule (c.withDryRun true) v paths).outcomes[before.length]?.map
        (Outcome.foretold (v.refusal? host.disk path)) := by
  have hat : ∀ dryRun, (visitFiles host rule (c.withDryRun dryRun) v paths).outcomes[
      before.length]? = some (outcomeAt host rule (c.withDryRun dryRun) v path) := by
    intro dryRun
    have hgoes : (c.withDryRun dryRun).onError = .keepGoing := hc
    rw [getElem?_outcomes_visitFiles hgoes hpaths, outcomeAt_visitFiles hfirst]
  rw [hat, hat, Option.map_some, outcomeAt_of_dryRun hstores hstream]

/-- A file that a visit changes is announced when the run comes to it. -/
theorem announcements_pos_of_visit_ne (hstores : host.disk.Stores) (hc : c.onError = .keepGoing)
    (hfile : v.files[id]? = some f)
    (hchanges : (f.visit host rule (c.withDryRun false) id).2 ≠ f.content)
    (hpath : path ∈ paths) (hid : v.tree.fileAt? path = some id) :
    0 < announcements v.tree id
      (visitFiles host rule (c.withDryRun false) v paths).outcomes := by
  have hgoes : (c.withDryRun false).onError = .keepGoing := hc
  obtain ⟨hopens, n, hfixed⟩ := (File.visit_ne_iff hstores).1 hchanges
  induction paths generalizing v with
  | nil => cases hpath
  | cons q paths ih =>
    have htree := tree_processFile host rule (c.withDryRun false) v q
    rw [visitFiles_cons_of_goesOn hgoes]
    by_cases hq : v.tree.fileAt? q = some id
    · have hedits : ∃ n, (f.visit host rule (c.withDryRun false) id).1 = .ok (.fixed n) := by
        rw [File.visit_of_dryRun hstores, hfixed, hopens]
        exact ⟨n, rfl⟩
      rw [announcements_after ⟨(isFixed_outcomeAt_iff hq hfile).2 hedits, hq⟩]
      exact Nat.succ_pos _
    · have hrest : path ∈ paths := by
        refine (List.mem_cons.1 hpath).resolve_left ?_
        rintro rfl
        exact hq hid
      have hkept := getElem?_processFile host rule (c.withDryRun false) hq
      have hsilent : ¬ (outcomeAt host rule (c.withDryRun false) v q).Announces v.tree id :=
        fun h => hq h.2
      rw [announcements_after_of_not hsilent, ← htree]
      exact ih (hkept.trans hfile) hrest (by rwa [htree])

/-- What is changed by a run of the built-in rule: the files that its dry run says are to be fixed,
less those that cannot be opened for writing. -/
theorem content_ne_iff_of_dryRun (hstores : host.disk.Stores) (hc : c.onError = .keepGoing)
    (paths : List Bytes) (hfile : v.files[id]? = some f) :
    ∃ f', (visitFiles host .withOpacity (c.withDryRun false) v paths).volume.files[id]? = some f' ∧
      (f'.content ≠ f.content ↔ f.refusal? host.disk id = none ∧
        ∃ o ∈ (visitFiles host .withOpacity (c.withDryRun true) v paths).outcomes,
          o.Announces v.tree id) := by
  obtain ⟨t, ht, hedited⟩ :=
    exists_editedTimes_visitFiles (c := c.withDryRun false) .withOpacity hstores rfl paths hfile
  have hlonger : ∀ t, (Rule.withOpacity.apply c.mode t).text ≠ t →
      t.length < (Rule.withOpacity.apply c.mode t).text.length :=
    fun t => Rule.length_lt_of_text_apply_ne (by decide)
  have hdry : (c.withDryRun true).onError = .keepGoing := hc
  have hwet : (c.withDryRun false).onError = .keepGoing := hc
  refine ⟨{ f with content := t }, ht, ?_⟩
  rw [visitFiles_of_dryRun hdry rfl]
  constructor
  · intro hchanged
    -- a visit changes the file, since else it would be as it was, and some outcome announces it
    have hvisit : (f.visit host .withOpacity (c.withDryRun false) id).2 ≠ f.content := by
      intro hsettled
      rw [getElem?_visitFiles_of_settled hfile hsettled, Option.some.injEq] at ht
      exact hchanged (congrArg File.content ht).symm
    obtain ⟨hopens, hfixed⟩ := (File.visit_ne_iff hstores).1 hvisit
    obtain ⟨o, ho, hannounces⟩ := List.countP_pos_iff.1 ((hedited.ne_iff hlonger).1 hchanged)
    have hid := (of_decide_eq_true hannounces).2
    have hpath : o.path ∈ paths := by
      have hmem := List.mem_map_of_mem (f := Outcome.path) ho
      rwa [map_path_visitFiles hwet] at hmem
    exact ⟨hopens, _, List.mem_map_of_mem hpath, (isFixed_outcomeAt_iff hid hfile).2 hfixed, hid⟩
  · rintro ⟨hopens, o, ho, hfixed, hid⟩
    obtain ⟨path, hpath, rfl⟩ := List.mem_map.1 ho
    have hvisit : (f.visit host .withOpacity (c.withDryRun false) id).2 ≠ f.content :=
      (File.visit_ne_iff hstores).2 ⟨hopens, (isFixed_outcomeAt_iff hid hfile).1 hfixed⟩
    have hpos := announcements_pos_of_visit_ne hstores hc hfile hvisit hpath hid
    exact (hedited.ne_iff hlonger).2 hpos

/-- A dry run of the built-in rule that keeps going changes nothing, whatever may be written. The
run that writes visits the same paths. It has the same outcomes but where a file is to be fixed and
cannot be opened, as long as no path before leads to the file, and it changes exactly the files that
are to be fixed and can be opened. -/
theorem migrate_withOpacity_foretold (hwell : v.tree.WellFormed) (hstores : host.disk.Stores)
    (hc : c.onError = .keepGoing) :
    let dry := migrate host .withOpacity (c.withDryRun true) v
    let real := migrate host .withOpacity (c.withDryRun false) v
    dry.volume = v ∧
      (∀ writable opening writing,
        (migrate { host with disk := { host.disk with opening, writing } } .withOpacity
          (c.withDryRun true) (v.withWriting writable)).outcomes = dry.outcomes) ∧
      dry.outcomes.map Outcome.path = visitedPaths host c v ∧
      real.outcomes.map Outcome.path = visitedPaths host c v ∧
      (∀ before path after, visitedPaths host c v = before ++ path :: after →
        (∀ p ∈ before, ¬ v.tree.SameFile p path) →
        real.outcomes[before.length]? = dry.outcomes[before.length]?.map
          (Outcome.foretold (v.refusal? host.disk path))) ∧
      ∀ id f, v.files[id]? = some f →
        ∃ f', real.volume.files[id]? = some f' ∧
          (f'.content ≠ f.content ↔ f.refusal? host.disk id = none ∧
            ∃ o ∈ dry.outcomes, o.Announces v.tree id) := by
  have hdry : (c.withDryRun true).onError = .keepGoing := hc
  have hwet : (c.withDryRun false).onError = .keepGoing := hc
  simp only [migrate, visitedPaths_withDryRun]
  refine ⟨?_, fun writable opening writing => ?_, map_path_visitFiles hdry,
    map_path_visitFiles hwet, fun before path after hpaths hfirst => ?_, fun id f hfile => ?_⟩
  · rw [visitFiles_of_dryRun hdry rfl]
  · rw [visitFiles_of_dryRun hdry rfl, visitFiles_of_dryRun hdry rfl]
    exact List.map_congr_left fun path _ => outcomeAt_withWriting rfl writable opening writing
  · have hpath : path ∈ visitedPaths host c v := hpaths ▸ by simp
    exact getElem?_outcomes_of_dryRun hstores hc (not_streams_of_mem_visitedPaths hwell hpath)
      .withOpacity hpaths hfirst
  · exact content_ne_iff_of_dryRun hstores hc _ hfile

/-- Of a file with a link to it and a file that may not be written, all are to be fixed. The run
changes the first file and fails at the other. -/
theorem migrate_withOpacity_foretold_readOnly :
    let lib := Bytes.ofString "lib"
    let file := Bytes.ofString "a.dart"
    let link := Bytes.ofString "l.dart"
    let locked := Bytes.ofString "r.dart"
    let f : File := ⟨Bytes.ofString "a.withOpacity(b.withOpacity(c))", {}⟩
    let g : File := ⟨Bytes.ofString "c.withOpacity(x)", { write := false }⟩
    let entries : Entries := [(file, .file 0), (link, .link file), (locked, .file 1)]
    let v : Volume := ⟨⟨⟨{}, [(lib, .directory {} entries)]⟩, []⟩, [f, g]⟩
    let host : Host := { home := Bytes.ofString "home" }
    let c : Config := { onError := .keepGoing }
    let dry := migrate host .withOpacity (c.withDryRun true) v
    let real := migrate host .withOpacity (c.withDryRun false) v
    v.tree.WellFormed ∧ host.disk.Stores ∧ c.onError = .keepGoing ∧
      dry.outcomes = [⟨Path.join lib file, .fixed 1⟩, ⟨Path.join lib link, .fixed 1⟩,
        ⟨Path.join lib locked, .fixed 1⟩] ∧
      real.outcomes[2]? = some ⟨Path.join lib locked,
        .failed "IO error: Permission denied (os error 13) (write lib/r.dart)"⟩ ∧
      (∃ f', real.volume.files[0]? = some f' ∧ f'.content ≠ f.content) ∧
      ∃ g', real.volume.files[1]? = some g' ∧ g'.content = g.content := by
  intro lib file link locked f g entries v host c dry real
  have hstores : host.disk.Stores := fun _ _ => rfl
  have hwell : v.tree.WellFormed := by decide
  have hfile : v.tree.fileAt? (Path.join lib file) = some 0 := Walk.fileAt?_linkedTree_file _
  have hlink : v.tree.fileAt? (Path.join lib link) = some 0 := Walk.fileAt?_linkedTree_link _
  have hlocked : v.tree.fileAt? (Path.join lib locked) = some 1 :=
    Tree.fileAt?_eq_of_followWithin (n := 2) (by decide) (by decide) (by decide) rfl
  have hpaths : visitedPaths host c v =
      [Path.join lib file, Path.join lib link] ++ [Path.join lib locked] :=
    Walk.walk_linkedTree host.home rfl rfl rfl (by decide +kernel)
  have hf : f.visit host .withOpacity (c.withDryRun true) 0 = (.ok (.fixed 1), f.content) := by
    decide +kernel
  have hg : g.visit host .withOpacity (c.withDryRun true) 1 = (.ok (.fixed 1), g.content) := by
    decide +kernel
  have hdry : dry.outcomes = [⟨Path.join lib file, .fixed 1⟩, ⟨Path.join lib link, .fixed 1⟩,
      ⟨Path.join lib locked, .fixed 1⟩] := by
    show (visitFiles host _ _ v (visitedPaths host (c.withDryRun true) v)).outcomes = _
    rw [visitedPaths_withDryRun, hpaths, visitFiles_of_dryRun rfl rfl]
    simp only [List.map_append, List.map_cons, List.map_nil, outcomeAt,
      processFile_of_visit hfile rfl hf, processFile_of_visit hlink rfl hf,
      processFile_of_visit hlocked rfl hg]
    rfl
  obtain ⟨-, -, -, -, hforetold, hchanged⟩ :=
    migrate_withOpacity_foretold (v := v) (c := c) hwell hstores rfl
  have hother : ∀ p ∈ [Path.join lib file, Path.join lib link],
      ¬ v.tree.SameFile p (Path.join lib locked) := by
    rintro p hp ⟨id, hpid, hid⟩
    rw [hlocked] at hid
    cases hid
    obtain rfl | hp := List.mem_cons.1 hp
    · rw [hfile] at hpid
      cases hpid
    · rw [List.mem_singleton.1 hp, hlink] at hpid
      cases hpid
  have hfails := hforetold _ _ _ hpaths hother
  obtain ⟨f', hf', hfchanged⟩ := hchanged 0 f rfl
  obtain ⟨g', hg', hgchanged⟩ := hchanged 1 g rfl
  refine ⟨hwell, hstores, rfl, hdry, ?_, ⟨f', hf', hfchanged.2 ⟨rfl, ?_⟩⟩, g', hg', ?_⟩
  · refine hfails.trans ?_
    show dry.outcomes[2]?.map _ = _
    have hrefusal : v.refusal? host.disk (Path.join lib locked) = some .permissionDenied := by
      rw [Volume.refusal?, Volume.file?_eq_some_iff.2 ⟨hlocked, rfl⟩]
      rfl
    rw [hdry, hrefusal]
    decide +kernel
  · show ∃ o ∈ dry.outcomes, _
    rw [hdry]
    exact ⟨_, .head _, rfl, hfile⟩
  · by_contra hne
    have hopens := (hgchanged.1 hne).1
    cases hopens

/-- On a disk that is full behind the second byte a file can be opened for writing, but not written:
the run fails where its dry run says that the file is to be fixed. -/
theorem migrate_withOpacity_foretold_full_disk :
    let lib := Bytes.ofString "lib"
    let file := Bytes.ofString "a.dart"
    let f : File := ⟨Bytes.ofString "c.withOpacity(x)", {}⟩
    let v : Volume := ⟨⟨⟨{}, [(lib, .directory {} [(file, .file 0)])]⟩, []⟩, [f]⟩
    let full : Disk := { Disk.sound with writing := fun _ _ => .broken 2 .noSpace }
    let host : Host := { home := Bytes.ofString "home", disk := full }
    let c : Config := { onError := .keepGoing }
    let dry := migrate host .withOpacity (c.withDryRun true) v
    let real := migrate host .withOpacity (c.withDryRun false) v
    v.tree.WellFormed ∧ v.refusal? host.disk (Path.join lib file) = none ∧
      dry.outcomes = [⟨Path.join lib file, .fixed 1⟩] ∧
      real.outcomes = [⟨Path.join lib file,
        .failed "IO error: No space left on device (os error 28) (write lib/a.dart)"⟩] := by
  intro lib file f v full host c dry real
  have hid : v.tree.fileAt? (Path.join lib file) = some 0 :=
    Tree.fileAt?_eq_of_followWithin (n := 2) (by decide) (by decide) (by decide) rfl
  have hpaths : visitedPaths host c v = [Path.join lib file] :=
    Walk.walk_default_root host.home rfl rfl (by decide +kernel)
  have hopens : v.refusal? host.disk (Path.join lib file) = none := by
    rw [Volume.refusal?, Volume.file?_eq_some_iff.2 ⟨hid, rfl⟩]
    rfl
  have hfixed : f.visit host .withOpacity (c.withDryRun true) 0 = (.ok (.fixed 1), f.content) := by
    decide +kernel
  let x : Failure := ⟨"write", SystemCause.noSpace.text⟩
  have hbreaks : f.visit host .withOpacity (c.withDryRun false) 0 =
      (.error x, Bytes.ofString "c.") := by
    decide +kernel
  refine ⟨by decide, hopens, ?_, ?_⟩
  · show (visitFiles host _ _ v (visitedPaths host (c.withDryRun true) v)).outcomes = _
    rw [visitedPaths_withDryRun, hpaths,
      visitFiles_cons_of_ok (processFile_of_visit hid rfl hfixed)]
    rfl
  · show (visitFiles host _ _ v (visitedPaths host (c.withDryRun false) v)).outcomes = _
    rw [visitedPaths_withDryRun, hpaths,
      visitFiles_cons_of_keepGoing rfl (processFile_of_visit hid rfl hbreaks)]
    decide +kernel

end CallMigration
