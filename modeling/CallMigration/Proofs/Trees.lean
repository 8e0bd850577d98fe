import CallMigration.Proofs.Following

/-!
# Well-formed trees

A file system gives every entry a proper name, and no two entries of a directory the same one. Every
place that a path leads to is then well formed, too.

## Main Definitions

* `Node.WellFormed`, `Directory.WellFormed`, `Tree.WellFormed` — names are proper and distinct
* `Node.isWellFormed`, `Entries.areWellFormed` — the same as a check, which decides it for a tree
* `Place.WellFormed` — a directory and the directories above it are well formed

## Main Statements

* `Directory.WellFormed.get?_eq_some_iff` — a name finds an entry exactly when it is there
* `Tree.WellFormed.of_resolve` — a path leads to a well-formed place
-/

namespace CallMigration

/-! ### Entries -/

/-- At every depth, entries have names that an entry can have, and no two entries of a directory
have the same one. -/
inductive Node.WellFormed : Node → Prop
  | file (id : FileId) : WellFormed (.file id)
  | directory {access : Access} {entries : Entries} (distinct : (entries.map Prod.fst).Nodup)
      (named : ∀ e ∈ entries, Path.IsName e.1) (below : ∀ e ∈ entries, WellFormed e.2) :
      WellFormed (.directory access entries)
  | link (target : Bytes) : WellFormed (.link target)
  | pipe : WellFormed .pipe
  | device (device : Device) : WellFormed (.device device)

/-- The same for a directory. -/
structure Directory.WellFormed (d : Directory) : Prop where
  distinct : (d.entries.map Prod.fst).Nodup
  named : ∀ e ∈ d.entries, Path.IsName e.1
  below : ∀ e ∈ d.entries, e.2.WellFormed

/-- The same for a tree. -/
def Tree.WellFormed (t : Tree) : Prop := t.root.WellFormed

theorem Node.WellFormed.toDirectory {access : Access} {entries : Entries}
    (h : Node.WellFormed (.directory access entries)) : Directory.WellFormed ⟨access, entries⟩ := by
  cases h with
  | directory distinct named below => exact ⟨distinct, named, below⟩

namespace Directory.WellFormed

variable {d : Directory} {name : Name} {node : Node}

/-- What a name finds is an entry of that name. -/
theorem mem_of_get? (h : d.get? name = some node) : (name, node) ∈ d.entries := by
  obtain ⟨before, after, hentries, -⟩ := List.lookup_eq_some_iff.1 h
  rw [hentries]
  exact List.mem_append_right before List.mem_cons_self

/-- A name finds an entry exactly when it is there: no other entry has the same name. -/
theorem get?_eq_some_iff (h : d.WellFormed) :
    d.get? name = some node ↔ (name, node) ∈ d.entries := by
  refine ⟨mem_of_get?, fun hmem => ?_⟩
  obtain ⟨before, after, hentries⟩ := List.append_of_mem hmem
  have hdistinct := h.distinct
  rw [hentries, List.map_append, List.nodup_append] at hdistinct
  refine List.lookup_eq_some_iff.2 ⟨before, after, hentries, fun e he => ?_⟩
  have hne : e.1 ≠ name := hdistinct.2.2 e.1 (List.mem_map_of_mem he) name (by simp)
  simpa using hne.symm

/-- The entries behind the first one are well formed, too, and none of them has its name. -/
theorem of_cons {access : Access} {e : Name × Node} {rest : Entries}
    (h : Directory.WellFormed ⟨access, e :: rest⟩) :
    Directory.WellFormed ⟨access, rest⟩ ∧ e.1 ∉ rest.map Prod.fst := by
  have hdistinct := List.nodup_cons.1 h.distinct
  refine ⟨⟨hdistinct.2, fun e' he' => ?_, fun e' he' => ?_⟩, hdistinct.1⟩
  · exact h.named e' (List.mem_cons_of_mem e he')
  · exact h.below e' (List.mem_cons_of_mem e he')

theorem singleton {access : Access} {e : Name × Node} {rest : Entries}
    (h : Directory.WellFormed ⟨access, e :: rest⟩) : Directory.WellFormed ⟨access, [e]⟩ :=
  ⟨List.nodup_cons.2 ⟨List.not_mem_nil, List.nodup_nil⟩,
    by simpa using h.named e List.mem_cons_self, by simpa using h.below e List.mem_cons_self⟩

theorem isName_of_get? (h : d.WellFormed) (hget : d.get? name = some node) : Path.IsName name :=
  h.named _ (mem_of_get? hget)

theorem of_get? (h : d.WellFormed) {access : Access} {entries : Entries}
    (hget : d.get? name = some (.directory access entries)) :
    Directory.WellFormed ⟨access, entries⟩ :=
  (h.below _ (mem_of_get? hget)).toDirectory

end Directory.WellFormed

/-! ### Checking a tree -/

mutual

/-- Whether what is below an entry is well formed. -/
def Node.isWellFormed : Node → Bool
  | .directory _ entries => Entries.areWellFormed entries
  | _ => true
termination_by structural node => node

/-- Whether the entries of a directory are well formed. -/
def Entries.areWellFormed : List (Name × Node) → Bool
  | [] => true
  | e :: rest => Entry.isWellFormed e && e.1 ∉ rest.map Prod.fst && Entries.areWellFormed rest
termination_by structural entries => entries

/-- Whether an entry has a proper name, and what is below it is well formed. -/
def Entry.isWellFormed : Name × Node → Bool
  | (name, node) => decide (Path.IsName name) && node.isWellFormed
termination_by structural e => e

end

mutual

theorem Node.isWellFormed_iff : (node : Node) → (node.isWellFormed = true ↔ node.WellFormed)
  | .directory access entries => by
    rw [Node.isWellFormed, Entries.areWellFormed_iff access entries]
    exact ⟨fun h => .directory h.distinct h.named h.below, Node.WellFormed.toDirectory⟩
  | .file id => iff_of_true rfl (.file id)
  | .link target => iff_of_true rfl (.link target)
  | .pipe => iff_of_true rfl .pipe
  | .device device => iff_of_true rfl (.device device)
termination_by structural node => node

theorem Entries.areWellFormed_iff (access : Access) : (entries : List (Name × Node)) →
    (Entries.areWellFormed entries = true ↔ Directory.WellFormed ⟨access, entries⟩)
  | [] => iff_of_true rfl ⟨List.nodup_nil, by simp, by simp⟩
  | e :: rest => by
    rw [Entries.areWellFormed, Bool.and_eq_true, Bool.and_eq_true, Entry.isWellFormed_iff e,
      Entries.areWellFormed_iff access rest, decide_eq_true_iff]
    constructor
    · rintro ⟨⟨⟨hname, hnode⟩, hfresh⟩, hrest⟩
      exact ⟨List.nodup_cons.2 ⟨hfresh, hrest.distinct⟩,
        List.forall_mem_cons.2 ⟨hname, hrest.named⟩, List.forall_mem_cons.2 ⟨hnode, hrest.below⟩⟩
    · intro h
      exact ⟨⟨⟨h.named e List.mem_cons_self, h.below e List.mem_cons_self⟩, h.of_cons.2⟩,
        h.of_cons.1⟩
termination_by structural entries => entries

theorem Entry.isWellFormed_iff : (e : Name × Node) →
    (Entry.isWellFormed e = true ↔ Path.IsName e.1 ∧ e.2.WellFormed)
  | (name, node) => by
    rw [Entry.isWellFormed, Bool.and_eq_true, decide_eq_true_iff, Node.isWellFormed_iff node]
termination_by structural e => e

end

instance (t : Tree) : Decidable t.WellFormed :=
  decidable_of_iff _ (Entries.areWellFormed_iff t.root.access t.root.entries)

/-! ### Places -/

/-- A directory and the directories above it are well formed. -/
structure Place.WellFormed (p : Place) : Prop where
  here : p.here.WellFormed
  above : ∀ d ∈ p.above, d.2.WellFormed

namespace Place.WellFormed

variable {p q : Place} {name : Name} {access : Access} {entries : Entries}

theorem up (h : p.WellFormed) : p.up.WellFormed := by
  unfold Place.up
  split
  next => exact h
  next name d above habove =>
    have hall := h.above
    rw [habove, List.forall_mem_cons] at hall
    exact ⟨hall.1, hall.2⟩

theorem enter (h : p.WellFormed) (hget : p.here.get? name = some (.directory access entries)) :
    (p.enter name ⟨access, entries⟩).WellFormed := by
  refine ⟨h.here.of_get? hget, ?_⟩
  rw [Place.enter, List.forall_mem_cons]
  exact ⟨h.here, h.above⟩

theorem descend? (h : p.WellFormed) {names : List Name} (hq : Tree.descend? p names = some q) :
    q.WellFormed := by
  fun_induction Tree.descend? p names with
  | case1 p =>
    cases hq
    exact h
  | case2 p name names access entries hget ih => exact ih (h.enter hget) hq
  | case3 => cases hq

end Place.WellFormed

/-! ### Following paths -/

namespace Tree.WellFormed

variable {t : Tree} {p q : Place}

theorem top (h : t.WellFormed) : Place.WellFormed ⟨t.root, []⟩ :=
  ⟨h, fun _ hmem => absurd hmem List.not_mem_nil⟩

theorem workingPlace (h : t.WellFormed) : t.workingPlace.WellFormed := by
  unfold Tree.workingPlace
  cases hplace : t.placeAt? t.working with
  | none => exact h.top
  | some p => exact h.top.descend? hplace

theorem startOf (h : t.WellFormed) (hp : p.WellFormed) (path : Bytes) :
    (t.startOf p path).WellFormed := by
  unfold Tree.startOf
  split
  · exact h.top
  · exact hp

/-- One step from a well-formed place leads to a well-formed place, if to a place at all. -/
theorem advance (h : t.WellFormed) (hp : p.WellFormed) {links left : Nat} {step : Path.Step}
    {more : List Path.Step} (hstep : t.advance links p step = .ok (left, .inside q, more)) :
    q.WellFormed := by
  obtain rfl | rfl | ⟨name, access, entries, hget, rfl⟩ | ⟨target, rfl⟩ := place_of_advance hstep
  · exact hp
  · exact hp.up
  · exact hp.enter hget
  · exact h.startOf hp target

/-- A path that leads to a place leads to a well-formed one. -/
theorem follow (h : t.WellFormed) {links : Nat} {spot : Spot} {steps : List Path.Step}
    (hspot : ∀ p, spot = .inside p → p.WellFormed)
    (hq : t.follow links spot steps = .ok (.inside q)) : q.WellFormed := by
  induction links, spot, steps using follow_induction t with
  | nil links spot =>
    rw [follow_nil] at hq
    exact hspot q (Except.ok.inj hq)
  | leaf links node step steps =>
    rw [follow_leaf_cons] at hq
    cases hq
  | refused links p step steps cause hstep =>
    rw [follow_inside_cons, hstep] at hq
    cases hq
  | taken links p step steps left spot more hstep ih =>
    rw [follow_inside_cons, hstep] at hq
    refine ih (fun p' hp' => ?_) hq
    subst hp'
    exact h.advance (hspot p rfl) hstep

theorem of_resolve (h : t.WellFormed) {path : Bytes} (hq : t.resolve path = .ok (.inside q)) :
    q.WellFormed := by
  obtain ⟨hzero, hne, hlen⟩ := resolve_eq_ok hq
  rw [resolve_eq hzero hne hlen] at hq
  refine h.follow (fun p hp => ?_) hq
  cases hp
  exact h.startOf h.workingPlace path

end Tree.WellFormed

end CallMigration
