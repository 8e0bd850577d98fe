import Mathlib.Data.List.Perm.Basic
import CallMigration.Proofs.Selection
import CallMigration.Proofs.Visits

/-!
# Entries in another order

A directory lists its entries in some order, which the system is free to choose. What a path leads
to does not depend on it, and a walk finds the same paths, in another order.

## Main Definitions

* `Node.Reorders`, `Directory.Reorders`, `Tree.Reorders`, `Volume.Reorders` — at every depth the
  same entries, in some order
* `Place.Reorders`, `Spot.Reorders` — the same place, or entry, in the reordered tree

## Main Statements

* `Tree.Reorders.resolve_cases` — a path leads to the same in both trees
* `Tree.Reorders.perm_walk` — a walk finds the same paths, in some order
* `Directory.WellFormed.reorders_of_perm` — every order of the entries is allowed
* `visitFiles_of_reorders` — the run over given paths does not depend on the order of entries

## Design Notes

Entries are compared by their names, so that nothing has to be said of how the orders at different
depths go together. A link is the same link whatever the order is, and where it leads is a matter of
the whole tree: the walk is compared when it is known that paths lead to the same files.
-/

namespace CallMigration

/-! ### Trees in another order -/

/-- At every depth, directories list the same names in some order, and what has the same name is the
same up to the order below it. -/
inductive Node.Reorders : Node → Node → Prop
  | file (id : FileId) : Reorders (.file id) (.file id)
  | directory {access : Access} {entries entries' : Entries}
      (names : (entries.map Prod.fst).Perm (entries'.map Prod.fst))
      (below : ∀ name node node', (name, node) ∈ entries → (name, node') ∈ entries' →
        Reorders node node') :
      Reorders (.directory access entries) (.directory access entries')
  | link (target : Bytes) : Reorders (.link target) (.link target)
  | pipe : Reorders .pipe .pipe
  | device (device : Device) : Reorders (.device device) (.device device)

/-- The same for directories. -/
structure Directory.Reorders (d d' : Directory) : Prop where
  access : d'.access = d.access
  names : (d.entries.map Prod.fst).Perm (d'.entries.map Prod.fst)
  below : ∀ name node node', (name, node) ∈ d.entries → (name, node') ∈ d'.entries →
    node.Reorders node'

/-- The same for trees. -/
structure Tree.Reorders (t t' : Tree) : Prop where
  root : t.root.Reorders t'.root
  working : t'.working = t.working

/-- The same for volumes; the files are those of the same numbers. -/
structure Volume.Reorders (v w : Volume) : Prop where
  tree : v.tree.Reorders w.tree
  files : w.files = v.files

/-- The same directory, below the same directories. -/
structure Place.Reorders (p q : Place) : Prop where
  here : p.here.Reorders q.here
  above : List.Forall₂ (fun a b => a.1 = b.1 ∧ a.2.Reorders b.2) p.above q.above

/-- The same place, or the same entry. -/
inductive Spot.Reorders : Spot → Spot → Prop
  | inside {p q : Place} (h : p.Reorders q) : Reorders (.inside p) (.inside q)
  | leaf (node : Node) : Reorders (.leaf node) (.leaf node)

/-- What is well formed is itself in another order. -/
theorem Node.WellFormed.reorders_self {node : Node} (h : node.WellFormed) : node.Reorders node := by
  induction h with
  | file id => exact .file id
  | @directory access entries distinct named below ih =>
    refine .directory (.refl _) fun name node node' hnode hnode' => ?_
    -- no other entry has the name
    have hd : Directory.WellFormed ⟨access, entries⟩ := ⟨distinct, named, below⟩
    have hget := (hd.get?_eq_some_iff).2 hnode
    rw [(hd.get?_eq_some_iff).2 hnode', Option.some.injEq] at hget
    rw [hget]
    exact ih _ hnode
  | link target => exact .link target
  | pipe => exact .pipe
  | device device => exact .device device

/-- A well-formed directory may list its entries in every order. -/
theorem Directory.WellFormed.reorders_of_perm {d : Directory} (h : d.WellFormed)
    {entries : Entries} (hentries : d.entries.Perm entries) : d.Reorders ⟨d.access, entries⟩ := by
  refine ⟨rfl, hentries.map Prod.fst, fun name node node' hnode hnode' => ?_⟩
  have hget := h.get?_eq_some_iff.2 (hentries.mem_iff.2 hnode')
  rw [h.get?_eq_some_iff.2 hnode, Option.some.injEq] at hget
  rw [← hget]
  exact (h.below _ hnode).reorders_self

/-! ### Places in another order -/

/-- A name finds nothing exactly when no entry has it. -/
theorem Directory.get?_eq_none_iff {d : Directory} {name : Name} :
    d.get? name = none ↔ name ∉ d.entries.map Prod.fst := by
  simp only [get?, List.lookup_eq_none_iff, List.mem_map, not_exists, not_and, bne_iff_ne]
  exact ⟨fun h e he heq => h e he heq.symm, fun h e he heq => h e he heq.symm⟩

/-- A name finds nothing in both directories, or the same in both. -/
theorem Directory.Reorders.get?_cases {d d' : Directory} (h : d.Reorders d') (name : Name) :
    (d.get? name = none ∧ d'.get? name = none) ∨
      ∃ node node', d.get? name = some node ∧ d'.get? name = some node' ∧ node.Reorders node' := by
  cases hget : d.get? name with
  | none =>
    rw [get?_eq_none_iff, h.names.mem_iff] at hget
    exact .inl ⟨rfl, get?_eq_none_iff.2 hget⟩
  | some node =>
    have hmem := WellFormed.mem_of_get? hget
    have hnot : d'.get? name ≠ none := by
      rw [Ne, get?_eq_none_iff, Decidable.not_not, ← h.names.mem_iff]
      exact List.mem_map_of_mem hmem
    obtain ⟨node', hget'⟩ := Option.ne_none_iff_exists'.1 hnot
    exact .inr ⟨node, node', rfl, hget', h.below _ _ _ hmem (WellFormed.mem_of_get? hget')⟩

namespace Place.Reorders

variable {p q : Place}

theorem up (h : p.Reorders q) : p.up.Reorders q.up := by
  obtain ⟨here, above⟩ := p
  obtain ⟨here', above'⟩ := q
  obtain ⟨hhere, habove⟩ := h
  cases habove with
  | nil => exact ⟨hhere, .nil⟩
  | cons hfirst hrest => exact ⟨hfirst.2, hrest⟩

theorem enter (h : p.Reorders q) {d d' : Directory} (hd : d.Reorders d') (name : Name) :
    (p.enter name d).Reorders (q.enter name d') :=
  ⟨hd, .cons ⟨rfl, h.here⟩ h.above⟩

/-- Names lead down to the same place, or to none in both trees. -/
theorem descend?_cases (h : p.Reorders q) (names : List Name) :
    (Tree.descend? p names = none ∧ Tree.descend? q names = none) ∨
      ∃ p' q', Tree.descend? p names = some p' ∧ Tree.descend? q names = some q' ∧
        p'.Reorders q' := by
  induction names generalizing p q with
  | nil => exact .inr ⟨p, q, rfl, rfl, h⟩
  | cons name names ih =>
    rw [Tree.descend?, Tree.descend?]
    obtain ⟨hget, hget'⟩ | ⟨node, node', hget, hget', hnode⟩ := h.here.get?_cases name
    · rw [hget, hget']
      exact .inl ⟨rfl, rfl⟩
    · rw [hget, hget']
      cases hnode with
      | @directory access entries entries' names below =>
        have hd : Directory.Reorders ⟨access, entries⟩ ⟨access, entries'⟩ := ⟨rfl, names, below⟩
        exact ih (h.enter hd name)
      | _ => exact .inl ⟨rfl, rfl⟩

end Place.Reorders

/-! ### Following paths -/

namespace Tree.Reorders

variable {t t' : Tree} {p q : Place}

theorem top (h : t.Reorders t') : Place.Reorders ⟨t.root, []⟩ ⟨t'.root, []⟩ := ⟨h.root, .nil⟩

theorem workingPlace (h : t.Reorders t') : t.workingPlace.Reorders t'.workingPlace := by
  rw [Tree.workingPlace, Tree.workingPlace, Tree.placeAt?, Tree.placeAt?, h.working]
  obtain ⟨hnone, hnone'⟩ | ⟨p, q, hp, hq, hpq⟩ := h.top.descend?_cases t.working
  · rw [hnone, hnone']
    exact h.top
  · rw [hp, hq]
    exact hpq

theorem startOf (h : t.Reorders t') (hp : p.Reorders q) (path : Bytes) :
    (t.startOf p path).Reorders (t'.startOf q path) := by
  unfold Tree.startOf
  split
  · exact h.top
  · exact hp

/-- One step is refused in both trees for the same reason, or leads to the same in both. -/
theorem advance_cases (h : t.Reorders t') (hp : p.Reorders q) (links : Nat) (step : Path.Step) :
    (∃ cause, t.advance links p step = .error cause ∧ t'.advance links q step = .error cause) ∨
      ∃ left s s' more, t.advance links p step = .ok (left, s, more) ∧
        t'.advance links q step = .ok (left, s', more) ∧ s.Reorders s' := by
  have haccess := hp.here.access
  by_cases hsearch : p.here.access.search
  · have hsearch' : q.here.access.search := by rwa [haccess]
    cases step with
    | directory => exact .inr ⟨_, _, _, _, rfl, rfl, .inside hp⟩
    | stay =>
      exact .inr ⟨_, _, _, _, if_neg (not_not_intro hsearch), if_neg (not_not_intro hsearch'),
        .inside hp⟩
    | up =>
      exact .inr ⟨_, _, _, _, if_neg (not_not_intro hsearch), if_neg (not_not_intro hsearch'),
        .inside hp.up⟩
    | enter name =>
      rcases Nat.lt_or_ge nameLimit name.length with hlong | hname
      · refine .inl ⟨.nameTooLong, ?_, ?_⟩
        · rw [advance, if_neg (not_not_intro hsearch), if_pos hlong]
        · rw [advance, if_neg (not_not_intro hsearch'), if_pos hlong]
      · rw [advance_enter hsearch hname, advance_enter hsearch' hname]
        obtain ⟨hget, hget'⟩ | ⟨node, node', hget, hget', hnode⟩ := hp.here.get?_cases name
        · rw [hget, hget']
          exact .inl ⟨_, rfl, rfl⟩
        · rw [hget, hget']
          cases hnode with
          | @directory access entries entries' names below =>
            have hd : Directory.Reorders ⟨access, entries⟩ ⟨access, entries'⟩ := ⟨rfl, names, below⟩
            exact .inr ⟨_, _, _, _, rfl, rfl, .inside (hp.enter hd name)⟩
          | link target =>
            cases links with
            | zero => exact .inl ⟨_, rfl, rfl⟩
            | succ links => exact .inr ⟨_, _, _, _, rfl, rfl, .inside (h.startOf hp target)⟩
          | _ => exact .inr ⟨_, _, _, _, rfl, rfl, .leaf _⟩
  · have hsearch' : ¬ q.here.access.search := by rwa [haccess]
    by_cases hstep : step = .directory
    · rw [hstep]
      exact .inr ⟨_, _, _, _, rfl, rfl, .inside hp⟩
    · exact .inl ⟨_, advance_of_not_search hstep hsearch, advance_of_not_search hstep hsearch'⟩

/-- So it is with steps one after another. -/
theorem follow_cases (h : t.Reorders t') (links : Nat) {s s' : Spot} (hs : s.Reorders s')
    (steps : List Path.Step) :
    (∃ cause, t.follow links s steps = .error cause ∧ t'.follow links s' steps = .error cause) ∨
      ∃ e e', t.follow links s steps = .ok e ∧ t'.follow links s' steps = .ok e' ∧
        e.Reorders e' := by
  induction links, s, steps using follow_induction t generalizing s' with
  | nil links s =>
    rw [follow_nil, follow_nil]
    exact .inr ⟨_, _, rfl, rfl, hs⟩
  | leaf links node step steps =>
    cases hs
    rw [follow_leaf_cons, follow_leaf_cons]
    exact .inl ⟨_, rfl, rfl⟩
  | refused links p step steps cause hstep =>
    cases hs with
    | inside hp =>
      rw [follow_inside_cons, follow_inside_cons, hstep]
      obtain ⟨other, hother, hstep'⟩ | ⟨_, _, _, _, hok, -⟩ := h.advance_cases hp links step
      · rw [hstep] at hother
        cases hother
        rw [hstep']
        exact .inl ⟨_, rfl, rfl⟩
      · rw [hstep] at hok
        cases hok
  | taken links p step steps left e more hstep ih =>
    cases hs with
    | inside hp =>
      rw [follow_inside_cons, follow_inside_cons, hstep]
      obtain ⟨cause, hrefused, -⟩ | ⟨_, _, e', _, hok, hstep', he⟩ := h.advance_cases hp links step
      · rw [hstep] at hrefused
        cases hrefused
      · rw [hstep] at hok
        cases hok
        rw [hstep']
        exact ih he

/-- A path leads nowhere in both trees for the same reason, or it leads to the same in both. -/
theorem resolve_cases (h : t.Reorders t') (path : Bytes) :
    (∃ cause, t.resolve path = .error cause ∧ t'.resolve path = .error cause) ∨
      ∃ s s', t.resolve path = .ok s ∧ t'.resolve path = .ok s' ∧ s.Reorders s' := by
  unfold resolve
  split
  · exact .inl ⟨_, rfl, rfl⟩
  · split
    · exact .inl ⟨_, rfl, rfl⟩
    · split
      · exact .inl ⟨_, rfl, rfl⟩
      · exact h.follow_cases linkLimit (.inside (h.startOf h.workingPlace path)) _

theorem fileAt?_eq (h : t.Reorders t') (path : Bytes) : t'.fileAt? path = t.fileAt? path := by
  rw [fileAt?, fileAt?]
  obtain ⟨cause, herror, herror'⟩ | ⟨s, s', hs, hs', hss⟩ := h.resolve_cases path
  · rw [herror, herror']
  · rw [hs, hs']
    cases hss <;> rfl

theorem visitElsewhere_eq (h : t.Reorders t') (host : Host) (rule : Rule) (c : Config)
    (path : Bytes) :
    t'.visitElsewhere host rule c path = t.visitElsewhere host rule c path := by
  refine fst_processFile_of_texts ?_ fun text => ?_
  · rw [Volume.readText, Volume.readText, Volume.read, Volume.read]
    obtain ⟨cause, herror, herror'⟩ | ⟨s, s', hs, hs', hss⟩ := h.resolve_cases path
    · rw [herror, herror']
    · rw [hs, hs']
      cases hss with
      | inside hp => simp only [hp.here.access]
      | leaf node => rfl
  · rw [Volume.overwriteText, Volume.overwriteText, Volume.overwrite, Volume.overwrite]
    obtain ⟨cause, herror, herror'⟩ | ⟨s, s', hs, hs', hss⟩ := h.resolve_cases path
    · rw [herror, herror']
    · rw [hs, hs']
      cases hss with
      | inside hp => rfl
      | leaf node =>
        cases node with
        | file id => simp [Volume.overwriteFile]
        | device device => cases device <;> rfl
        | _ => rfl

end Tree.Reorders

/-! ### Walks -/

/-- Two lists with the same keys in some order, and the same results for the same key, have the same
results in some order. -/
theorem perm_flatMap_of_perm_keys {α β : Type} {l l' : List (Name × α)} {f g : Name × α → List β}
    (hkeys : (l.map Prod.fst).Perm (l'.map Prod.fst))
    (hresults : ∀ name a b, (name, a) ∈ l → (name, b) ∈ l' → (f (name, a)).Perm (g (name, b))) :
    (l.flatMap f).Perm (l'.flatMap g) := by
  induction l generalizing l' with
  | nil =>
    rw [List.map_nil, List.nil_perm, List.map_eq_nil_iff] at hkeys
    rw [hkeys]
    exact .nil
  | cons e l ih =>
    obtain ⟨name, a⟩ := e
    have hname : name ∈ l'.map Prod.fst := hkeys.mem_iff.1 List.mem_cons_self
    obtain ⟨⟨other, b⟩, hmem, hother⟩ := List.mem_map.1 hname
    have hb : (name, b) ∈ l' := hother ▸ hmem
    -- the entry of this name is brought to the front
    obtain ⟨before, after, rfl⟩ := List.append_of_mem hb
    have hmoved : (before ++ (name, b) :: after).Perm ((name, b) :: (before ++ after)) :=
      List.perm_middle
    have hrest : (l.map Prod.fst).Perm ((before ++ after).map Prod.fst) :=
      (hkeys.trans (hmoved.map Prod.fst)).cons_inv
    refine .trans ?_ (hmoved.symm.flatMap_right g)
    rw [List.flatMap_cons, List.flatMap_cons]
    refine (hresults name a b List.mem_cons_self hb).append (ih hrest fun name a b ha hb => ?_)
    refine hresults name a b (List.mem_cons_of_mem _ ha) ?_
    exact hmoved.mem_iff.2 (List.mem_cons_of_mem _ hb)

namespace Walk

variable {t t' : Tree} {c : Config}

/-- Which entries are visited depends on the tree only through the files that paths lead to. -/
theorem isVisited_of_reorders (h : t.Reorders t') (path : Bytes) (name : Name) (node : Node) :
    isVisited t' c path name node = isVisited t c path name node := by
  cases node <;> simp only [isVisited, h.fileAt?_eq]

/-- What a walk finds at an entry, it finds in some order at the reordered entry. -/
theorem perm_filesAt (h : t.Reorders t') {node node' : Node} (hnode : node.Reorders node')
    (root path : Bytes) (searchable : Bool) (name : Name) :
    (filesAt t c root path searchable (name, node)).Perm
      (filesAt t' c root path searchable (name, node')) := by
  induction hnode generalizing path searchable name with
  | directory names below ih =>
    rw [filesAt, filesAt]
    split
    · exact .nil
    · rw [filesBelow_eq_flatMap, filesBelow_eq_flatMap]
      exact perm_flatMap_of_perm_keys names fun name node node' hmem hmem' =>
        ih name node node' hmem hmem' _ _ name
  | _ => exact .of_eq (by simp only [filesAt, isVisited_of_reorders h])

end Walk

/-- A walk finds the same paths in the reordered tree, in some order. -/
theorem Tree.Reorders.perm_walk {t t' : Tree} (h : t.Reorders t') (globs : Glob.Matcher)
    (c : Config) (root : Bytes) : (t.walk c root globs).Perm (t'.walk c root globs) := by
  refine List.Perm.filter _ ?_
  rw [Walk.files, Walk.files]
  obtain ⟨cause, herror, herror'⟩ | ⟨s, s', hs, hs', hss⟩ := h.resolve_cases root
  · rw [herror, herror']
  · rw [hs, hs']
    cases hss with
    | leaf node => exact .nil
    | inside hp =>
      simp only [hp.here.access]
      split
      · rw [Walk.filesBelow_eq_flatMap, Walk.filesBelow_eq_flatMap]
        exact perm_flatMap_of_perm_keys hp.here.names fun name node node' hmem hmem' =>
          Walk.perm_filesAt h (hp.here.below name node node' hmem hmem') _ _ _ name
      · exact .nil

/-! ### Runs -/

section Runs

variable {host : Host} {rule : Rule} {c : Config} {v w : Volume}

theorem Volume.Reorders.file?_eq (h : v.Reorders w) (path : Bytes) :
    w.file? path = v.file? path := by
  rw [file?, file?, h.tree.fileAt?_eq, h.files]

theorem Volume.Reorders.setContent (h : v.Reorders w) (id : FileId) (content : Bytes) :
    (v.setContent id content).Reorders (w.setContent id content) :=
  ⟨h.tree, by rw [Volume.setContent, h.files, Volume.setContent]⟩

theorem visitedPaths_of_reorders (h : v.Reorders w) :
    (visitedPaths host c v).Perm (visitedPaths host c w) :=
  h.tree.perm_walk _ c _

/-- Processing a path comes to the same in the reordered volume, and leaves a reordered volume. -/
theorem processFile_of_reorders (host : Host) (rule : Rule) (c : Config) (h : v.Reorders w)
    (path : Bytes) :
    (processFile host rule c w path).1 = (processFile host rule c v path).1 ∧
      (processFile host rule c v path).2.Reorders (processFile host rule c w path).2 := by
  have hsame := h.file?_eq path
  cases hfile : v.file? path with
  | none =>
    rw [processFile_of_file?_eq_none hfile, processFile_of_file?_eq_none (hsame.trans hfile)]
    exact ⟨h.tree.visitElsewhere_eq host rule c path, h⟩
  | some q =>
    obtain ⟨id, f⟩ := q
    rw [processFile_of_file? hfile, processFile_of_file? (hsame.trans hfile)]
    exact ⟨rfl, h.setContent id _⟩

/-- So does a run over given paths. -/
theorem visitFiles_of_reorders (host : Host) (rule : Rule) (h : v.Reorders w)
    (hc : c.onError = .keepGoing) (paths : List Bytes) :
    (visitFiles host rule c w paths).outcomes = (visitFiles host rule c v paths).outcomes ∧
      (visitFiles host rule c v paths).volume.Reorders
        (visitFiles host rule c w paths).volume := by
  induction paths generalizing v w with
  | nil => exact ⟨rfl, h⟩
  | cons path paths ih =>
    obtain ⟨hresult, hvolume⟩ := processFile_of_reorders host rule c h path
    obtain ⟨houtcomes, hleft⟩ := ih hvolume
    rw [visitFiles_cons_of_goesOn hc, visitFiles_cons_of_goesOn hc, outcomeAt, outcomeAt, hresult]
    exact ⟨congrArg (_ :: ·) houtcomes, hleft⟩

end Runs

end CallMigration
