import Mathlib.Logic.Function.Iterate
import CallMigration.Proofs.Encoding
import CallMigration.Proofs.Replacements
import CallMigration.Proofs.Runs
import CallMigration.Proofs.Selection
import CallMigration.Proofs.Stability

/-!
# What a run announces

A file that a run changes is announced by an outcome, and a file that is announced has changed. Each
announcement stands for one edit, also where several paths lead to the same file.

## Main Definitions

* `Disk.Stores` — a write that is begun is completed
* `Outcome.Announces` — an outcome says that the file was changed to which its path leads
* `announcements` — how often outcomes say that
* `EditedTimes` — a number of edits, each of which changes the text, lead from one text to another

## Main Statements

* `exists_editedTimes_visitFiles` — a file is edited once for each announcement
* `migrate_withOpacity_announces` — what the built-in rule does to the files of a volume

## Design Notes

The outcomes have the paths that were visited. What is shown of them is the same only for paths in
UTF-8, and `migrate_unannounced_shownPath` is a run in which the path that is shown leads nowhere.
-/

namespace CallMigration

/-- Whatever is written to a file is stored. -/
def Disk.Stores (d : Disk) : Prop := ∀ id content, d.writing id content = .stored

/-- The outcome says that the file was changed to which its path leads. -/
def Outcome.Announces (t : Tree) (id : FileId) (o : Outcome) : Prop :=
  o.isFixed = true ∧ t.fileAt? o.path = some id

instance announcesDecidable (t : Tree) (id : FileId) (o : Outcome) :
    Decidable (o.Announces t id) :=
  inferInstanceAs (Decidable (_ ∧ _))

/-- How often the outcomes say that a file was changed. -/
def announcements (t : Tree) (id : FileId) (outcomes : List Outcome) : Nat :=
  outcomes.countP fun o => o.Announces t id

theorem announcements_after {t : Tree} {id : FileId} {o : Outcome} (h : o.Announces t id)
    (r : Run) : announcements t id (r.after o).outcomes = announcements t id r.outcomes + 1 :=
  List.countP_cons_of_pos (decide_eq_true h)

theorem announcements_after_of_not {t : Tree} {id : FileId} {o : Outcome} (h : ¬ o.Announces t id)
    (r : Run) : announcements t id (r.after o).outcomes = announcements t id r.outcomes :=
  List.countP_cons_of_neg fun h' => h (of_decide_eq_true h')

/-! ### Counting edits -/

/-- So many edits make the second text out of the first, and each of them changes it. -/
inductive EditedTimes (edit : Bytes → Bytes) : Nat → Bytes → Bytes → Prop
  | zero (t : Bytes) : EditedTimes edit 0 t t
  | succ {n : Nat} {t t' : Bytes} (hchanges : edit t ≠ t) (h : EditedTimes edit n (edit t) t') :
      EditedTimes edit (n + 1) t t'

namespace EditedTimes

variable {edit : Bytes → Bytes} {n : Nat} {t t' : Bytes}

theorem eq_iterate (h : EditedTimes edit n t t') : t' = edit^[n] t := by
  induction h with
  | zero t => rfl
  | succ hchanges h ih => exact ih

/-- Edits that make a text longer never come back to it. -/
theorem length_add_le (hlonger : ∀ t, edit t ≠ t → t.length < (edit t).length)
    (h : EditedTimes edit n t t') : t.length + n ≤ t'.length := by
  induction h with
  | zero t => exact Nat.le_refl _
  | succ hchanges h ih =>
    have := hlonger _ hchanges
    omega

theorem ne_iff (hlonger : ∀ t, edit t ≠ t → t.length < (edit t).length)
    (h : EditedTimes edit n t t') : t' ≠ t ↔ 0 < n := by
  constructor
  · intro hne
    cases h with
    | zero => exact absurd rfl hne
    | succ hchanges h => exact Nat.succ_pos _
  · rintro hn rfl
    have := h.length_add_le hlonger
    omega

/-- An edit that changes nothing when it is repeated is not repeated. -/
theorem le_one (hstable : ∀ t, edit (edit t) = edit t) (h : EditedTimes edit n t t') : n ≤ 1 := by
  cases h with
  | zero => exact Nat.zero_le 1
  | succ hchanges h =>
    cases h with
    | zero => exact Nat.le_refl 1
    | succ hagain h => exact absurd (hstable t) hagain

end EditedTimes

/-! ### One file -/

variable {host : Host} {rule : Rule} {c : Config} {v w : Volume} {path : Bytes} {id : FileId}
  {f : File}

/-- A file is edited, changed and announced, or none of these. -/
theorem processFile_cases (rule : Rule) (path : Bytes) (hstores : host.disk.Stores)
    (hwet : c.dryRun = false) (hfile : v.files[id]? = some f) :
    (∃ n, (processFile host rule c v path).1 = .ok (.fixed n) ∧ v.tree.fileAt? path = some id ∧
      (rule.apply c.mode f.content).text ≠ f.content ∧
      (processFile host rule c v path).2.files[id]? =
        some { f with content := (rule.apply c.mode f.content).text }) ∨
    ((∀ n, (processFile host rule c v path).1 = .ok (.fixed n) → v.tree.fileAt? path ≠ some id) ∧
      (processFile host rule c v path).2.files[id]? = some f) := by
  by_cases hid : v.tree.fileAt? path = some id
  · by_cases hwrites : WritesBack host rule c id f
    · rw [processFile_of_writesBack hid hfile hwrites, hstores]
      refine .inl ⟨_, rfl, hid, hwrites.changes, ?_⟩
      rw [Volume.setContent, List.getElem?_modify_eq, hfile]
      rfl
    · have hnowhere : ∀ id' f', v.tree.fileAt? path = some id' → v.files[id']? = some f' →
          ¬ WritesBack host rule c id' f' := by
        intro id' f' hid' hfile'
        rw [hid, Option.some.injEq] at hid'
        subst hid'
        rw [hfile, Option.some.injEq] at hfile'
        subst hfile'
        exact hwrites
      have hnot := processFile_of_not_writesBack hnowhere
      refine .inr ⟨fun n hn => ?_, by rw [hnot.1, hfile]⟩
      rw [hnot.2 id n hid hn] at hwet
      cases hwet
  · exact .inr ⟨fun _ _ => hid, by rw [getElem?_processFile host rule c hid, hfile]⟩

/-! ### Whole runs -/

/-- In the course of a run a file is edited once for each announcement, and changes each time. -/
theorem exists_editedTimes_visitFiles (rule : Rule) (hstores : host.disk.Stores)
    (hwet : c.dryRun = false) (paths : List Bytes) (hfile : v.files[id]? = some f) :
    let r := visitFiles host rule c v paths
    ∃ t, r.volume.files[id]? = some { f with content := t } ∧
      EditedTimes (fun t => (rule.apply c.mode t).text) (announcements v.tree id r.outcomes)
        f.content t := by
  induction paths generalizing v f with
  | nil => exact ⟨f.content, hfile, .zero f.content⟩
  | cons path paths ih =>
    have htree := tree_processFile host rule c v path
    have hstep := processFile_cases rule path hstores hwet hfile
    cases hvisit : processFile host rule c v path with
    | mk result w =>
      rw [hvisit] at htree hstep
      obtain ⟨n, rfl, hid, hchanges, hw⟩ | ⟨hnot, hw⟩ := hstep
      · obtain ⟨t, ht, hedited⟩ := ih hw
        rw [htree] at hedited
        have hannounces : (⟨path, .fixed n⟩ : Outcome).Announces v.tree id := ⟨rfl, hid⟩
        rw [visitFiles_cons_of_ok hvisit]
        refine ⟨t, ht, ?_⟩
        rw [announcements_after hannounces]
        exact .succ hchanges hedited
      · obtain ⟨t, ht, hedited⟩ := ih hw
        rw [htree] at hedited
        cases result with
        | ok status =>
          have hsilent : ¬ (⟨path, status⟩ : Outcome).Announces v.tree id := by
            rintro ⟨hfixed, hid⟩
            cases status with
            | fixed n => exact hnot n rfl hid
            | _ => cases hfixed
          rw [visitFiles_cons_of_ok hvisit]
          refine ⟨t, ht, ?_⟩
          rwa [announcements_after_of_not hsilent]
        | error e =>
          -- no failure is an announcement, whether the run goes on behind it or not
          cases hc : c.onError with
          | abort =>
            rw [visitFiles_cons_of_abort hc hvisit]
            exact ⟨f.content, hw, .zero f.content⟩
          | keepGoing =>
            rw [visitFiles_cons_of_keepGoing hc hvisit]
            refine ⟨t, ht, ?_⟩
            rwa [announcements_after_of_not fun h => by cases h.1]

/-! ### The built-in rule -/

/-- Whatever a run of the built-in rule comes to, the tree and the permissions stay. A file changes
exactly when an outcome announces it, its new content is the old one edited as often as that is
announced, and balanced editing is announced once at most. -/
theorem migrate_withOpacity_announces (hstores : host.disk.Stores) (hwet : c.dryRun = false)
    (v : Volume) :
    let r := migrate host .withOpacity c v
    r.volume.tree = v.tree ∧ r.volume.files.length = v.files.length ∧
      (∀ o ∈ r.outcomes, Utf8.Valid o.path → Bytes.ofString o.shownPath = o.path) ∧
      ∀ id f, v.files[id]? = some f →
        ∃ f', r.volume.files[id]? = some f' ∧ f'.access = f.access ∧
          (f'.content ≠ f.content ↔ ∃ o ∈ r.outcomes, o.Announces v.tree id) ∧
          f'.content = (fun t => (Rule.withOpacity.apply c.mode t).text)^[
            announcements v.tree id r.outcomes] f.content ∧
          (c.mode = .balanced → announcements v.tree id r.outcomes ≤ 1) := by
  intro r
  refine ⟨tree_visitFiles .., length_visitFiles .., fun o _ => Utf8.ofString_decodeLossy, ?_⟩
  intro id f hfile
  obtain ⟨t, ht, hedited⟩ :=
    exists_editedTimes_visitFiles .withOpacity hstores hwet (visitedPaths host c v) hfile
  -- a text that has got longer does not come back, whatever is edited behind it
  have hlonger : ∀ t, (Rule.withOpacity.apply c.mode t).text ≠ t →
      t.length < (Rule.withOpacity.apply c.mode t).text.length :=
    fun t => Rule.length_lt_of_text_apply_ne (by decide)
  refine ⟨{ f with content := t }, ht, rfl, ?_, hedited.eq_iterate, fun hmode => ?_⟩
  · rw [hedited.ne_iff hlonger, announcements, List.countP_pos_iff]
    simp only [decide_eq_true_iff]
    rfl
  · refine hedited.le_one fun t => ?_
    rw [hmode]
    exact Rule.plain_withOpacity.text_apply_balanced_twice t

/-- Through a link a file is edited a second time, and the second edit replaces the call that the
first one has swallowed. -/
theorem migrate_withOpacity_announces_twice :
    let lib := Bytes.ofString "lib"
    let file := Bytes.ofString "a.dart"
    let link := Bytes.ofString "l.dart"
    let f : File := ⟨Bytes.ofString "a.withOpacity(b.withOpacity(c))", {}⟩
    let v : Volume :=
      ⟨⟨⟨{}, [(lib, .directory {} [(file, .file 0), (link, .link file)])]⟩, []⟩, [f]⟩
    let host : Host := { home := Bytes.ofString "home" }
    let r := migrate host .withOpacity {} v
    host.disk.Stores ∧ announcements v.tree 0 r.outcomes = 2 ∧
      ∃ f', r.volume.files[0]? = some f' ∧
        f'.content = Bytes.ofString "a.withValues(alpha: b.withValues(alpha: c))" := by
  intro lib file link f v host r
  have hstores : host.disk.Stores := fun _ _ => rfl
  have hid : v.tree.fileAt? (Path.join lib file) = some 0 := Walk.fileAt?_linkedTree_file _
  have hid' : v.tree.fileAt? (Path.join lib link) = some 0 := Walk.fileAt?_linkedTree_link _
  have hpaths : visitedPaths host {} v = [Path.join lib file, Path.join lib link] :=
    Walk.walk_linkedTree host.home rfl rfl rfl (List.forall_mem_nil _)
  let once := (Rule.withOpacity.apply .shallow f.content).text
  have hwrites : WritesBack host .withOpacity {} 0 f :=
    ⟨rfl, rfl, by decide, by decide +kernel, rfl, rfl, rfl⟩
  have hwrites' : WritesBack host .withOpacity {} 0 { f with content := once } :=
    ⟨rfl, rfl, by decide +kernel, by decide +kernel, rfl, rfl, rfl⟩
  have hfirst : ∀ n, (⟨Path.join lib file, .fixed n⟩ : Outcome).Announces v.tree 0 :=
    fun _ => ⟨rfl, hid⟩
  have hsecond : ∀ n, (⟨Path.join lib link, .fixed n⟩ : Outcome).Announces v.tree 0 :=
    fun _ => ⟨rfl, hid'⟩
  have hcount : announcements v.tree 0 r.outcomes = 2 := by
    show announcements v.tree 0 (visitFiles host _ _ v (visitedPaths host {} v)).outcomes = 2
    rw [hpaths, visitFiles_cons_of_writesBack hid rfl hwrites rfl, announcements_after (hfirst _),
      visitFiles_cons_of_writesBack (v := v.setContent 0 once) hid' rfl hwrites' rfl,
      announcements_after (hsecond _)]
    rfl
  obtain ⟨-, -, -, hfiles⟩ := migrate_withOpacity_announces (c := {}) hstores rfl v
  obtain ⟨f', hf', -, -, hcontent, -⟩ := hfiles 0 f rfl
  refine ⟨hstores, hcount, f', hf', ?_⟩
  rw [hcontent, hcount]
  decide +kernel

/-- A path that is not in UTF-8 is shown as one that leads nowhere. So the file changes, and no
outcome that is shown leads to it. -/
theorem migrate_unannounced_shownPath :
    let lib := Bytes.ofString "lib"
    let name : Name := 0xFF :: Bytes.ofString ".dart"
    let f : File := ⟨Bytes.ofString "c.withOpacity(x)", {}⟩
    let v : Volume := ⟨⟨⟨{}, [(lib, .directory {} [(name, .file 0)])]⟩, []⟩, [f]⟩
    let r := migrate { home := Bytes.ofString "home" } .withOpacity {} v
    v.tree.WellFormed ∧
      r.volume.files.map File.content = [Bytes.ofString "c.withValues(alpha: x)"] ∧
      ∀ o ∈ r.outcomes, v.tree.fileAt? (Bytes.ofString o.shownPath) ≠ some 0 := by
  intro lib name f v r
  have hroot : Config.rootPath (Bytes.ofString "home") {} = lib := by decide
  have hlib : v.tree.resolve lib = .ok (.inside ⟨⟨{}, [(name, .file 0)]⟩, [(lib, v.tree.root)]⟩) :=
    Tree.resolve_eq_of_followWithin (n := 1) (by decide) (by decide) (by decide) rfl
  have hpaths : visitedPaths { home := Bytes.ofString "home" } {} v = [Path.join lib name] := by
    rw [visitedPaths, hroot]
    exact Walk.walk_eq_map_of_visited hlib rfl rfl (by decide +kernel)
  have hid : v.tree.fileAt? (Path.join lib name) = some 0 :=
    Tree.fileAt?_eq_of_followWithin (n := 2) (by decide) (by decide) (by decide) rfl
  have hwrites : WritesBack { home := Bytes.ofString "home" } .withOpacity {} 0 f :=
    ⟨rfl, rfl, by decide, by decide +kernel, rfl, rfl, rfl⟩
  have hshown : Bytes.ofString (Utf8.decodeLossy (Path.join lib name)) =
      Bytes.ofString "lib/\uFFFD.dart" := by decide +kernel
  have hnowhere : v.tree.resolve (Bytes.ofString "lib/\uFFFD.dart") = .error .noEntry :=
    Tree.resolve_eq_of_followWithin (n := 2) (by decide) (by decide) (by decide) rfl
  have hr : r = _ := migrate_of_writesBack hpaths hid rfl hwrites rfl
  rw [hr]
  refine ⟨by decide, by decide +kernel, fun o ho => ?_⟩
  rw [List.mem_singleton.1 ho, Outcome.shownPath, hshown, Tree.fileAt?, hnowhere]
  exact (Option.some_ne_none 0).symm

end CallMigration
