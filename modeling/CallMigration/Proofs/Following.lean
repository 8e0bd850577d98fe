import CallMigration.Proofs.Names

/-!
# Following paths step by step

Following a path is to take its steps one after another. A link puts steps of its own in front of
those that are still to take.

## Main Definitions

* `Tree.advance` — what one step from a place comes to
* `Tree.followWithin` — following that can be evaluated

## Main Statements

* `Tree.follow_inside_cons` — to follow steps is to take the first one and to follow the rest
* `Tree.follow_induction` — the induction over the steps taken
* `Tree.exists_follow_append` — what is followed successfully leads on from where it leads to
* `Tree.follow_of_links` — how many links are left decides only whether a path can be followed
* `Tree.exists_resolve_join` — the path of an entry is followed from the place of its directory
* `Tree.resolve_join_directory_iff` — when a directory is reached by its joined path

## Design Notes

How many links are left after a path depends on the path, so the statements about two paths one
behind the other say that there is such a number, the same for whatever comes behind.
-/

namespace CallMigration

namespace Tree

/-! ### One step -/

/-- What one step from a place comes to: the links that are left, the spot, and the steps that come
in front of those that are still to take. -/
def advance (t : Tree) (links : Nat) (p : Place) :
    Path.Step → Except SystemCause (Nat × Spot × List Path.Step)
  | .directory => .ok (links, .inside p, [])
  | .stay => if ¬ p.here.access.search then .error .permissionDenied else .ok (links, .inside p, [])
  | .up =>
    if ¬ p.here.access.search then .error .permissionDenied else .ok (links, .inside p.up, [])
  | .enter name =>
    if ¬ p.here.access.search then .error .permissionDenied
    else if nameLimit < name.length then .error .nameTooLong
    else
      match p.here.get? name with
      | none => .error .noEntry
      | some (.directory access entries) =>
        .ok (links, .inside (p.enter name ⟨access, entries⟩), [])
      | some (.link target) =>
        match links with
        | 0 => .error .tooManyLinks
        | links + 1 => .ok (links, .inside (t.startOf p target), Path.steps target)
      | some node => .ok (links, .leaf node, [])

variable {t : Tree} {links : Nat} {p : Place} {step : Path.Step} {steps : List Path.Step}

/-- Only an empty step can be taken where the entries of a directory cannot be used. -/
theorem advance_of_not_search (hstep : step ≠ .directory) (hsearch : ¬ p.here.access.search) :
    t.advance links p step = .error .permissionDenied := by
  cases step with
  | directory => exact absurd rfl hstep
  | stay => exact if_pos hsearch
  | up => exact if_pos hsearch
  | enter name => exact if_pos hsearch

theorem advance_enter {name : Name} (hsearch : p.here.access.search)
    (hname : name.length ≤ nameLimit) :
    t.advance links p (.enter name) =
      match p.here.get? name with
      | none => .error .noEntry
      | some (.directory access entries) =>
        .ok (links, .inside (p.enter name ⟨access, entries⟩), [])
      | some (.link target) =>
        match links with
        | 0 => .error .tooManyLinks
        | links + 1 => .ok (links, .inside (t.startOf p target), Path.steps target)
      | some node => .ok (links, .leaf node, []) := by
  rw [advance, if_neg (not_not_intro hsearch), if_neg (Nat.not_lt.2 hname)]

/-- The places that one step can lead to: the same one, the one above, one below, and the one where
the target of a link starts. -/
theorem place_of_advance {left : Nat} {q : Place} {more : List Path.Step}
    (h : t.advance links p step = .ok (left, .inside q, more)) :
    q = p ∨ q = p.up ∨
      (∃ name access entries, p.here.get? name = some (.directory access entries) ∧
        q = p.enter name ⟨access, entries⟩) ∨
      ∃ target, q = t.startOf p target := by
  by_cases hsearch : p.here.access.search
  · cases step with
    | directory =>
      cases h
      exact .inl rfl
    | stay =>
      rw [advance, if_neg (not_not_intro hsearch)] at h
      cases h
      exact .inl rfl
    | up =>
      rw [advance, if_neg (not_not_intro hsearch)] at h
      cases h
      exact .inr (.inl rfl)
    | enter name =>
      rcases Nat.lt_or_ge nameLimit name.length with hlong | hname
      · rw [advance, if_neg (not_not_intro hsearch), if_pos hlong] at h
        cases h
      · rw [advance_enter hsearch hname] at h
        split at h
        · cases h
        next access entries hget =>
          cases h
          exact .inr (.inr (.inl ⟨name, access, entries, hget, rfl⟩))
        next target hget =>
          split at h <;> cases h
          exact .inr (.inr (.inr ⟨target, rfl⟩))
        · cases h
  · cases step with
    | directory =>
      cases h
      exact .inl rfl
    | _ =>
      rw [advance_of_not_search (by simp) hsearch] at h
      cases h

@[simp] theorem follow_nil (spot : Spot) : t.follow links spot [] = .ok spot := by
  unfold follow
  rfl

@[simp] theorem follow_leaf_cons (node : Node) :
    t.follow links (.leaf node) (step :: steps) = .error .notADirectory := by
  unfold follow
  rfl

/-- To follow steps from a place is to take the first one and then to follow the rest. -/
theorem follow_inside_cons (t : Tree) (links : Nat) (p : Place) (step : Path.Step)
    (steps : List Path.Step) :
    t.follow links (.inside p) (step :: steps) =
      match t.advance links p step with
      | .error cause => .error cause
      | .ok (left, spot, more) => t.follow left spot (more ++ steps) := by
  conv => lhs; unfold follow
  cases step with
  | directory => rfl
  | stay => by_cases hsearch : p.here.access.search <;> simp [advance, hsearch]
  | up => by_cases hsearch : p.here.access.search <;> simp [advance, hsearch]
  | enter name =>
    by_cases hsearch : p.here.access.search
    · by_cases hname : nameLimit < name.length
      · simp [advance, hsearch, hname]
      · simp only [advance, hsearch, not_true_eq_false, if_false, if_neg hname]
        cases p.here.get? name with
        | none => rfl
        | some node => cases node <;> cases links <;> rfl
    · simp [advance, hsearch]

/-- Steps are followed from a spot by taking one after another. -/
theorem follow_induction (t : Tree) {motive : Nat → Spot → List Path.Step → Prop}
    (nil : ∀ links spot, motive links spot [])
    (leaf : ∀ links node step steps, motive links (.leaf node) (step :: steps))
    (refused : ∀ links p step steps cause, t.advance links p step = .error cause →
      motive links (.inside p) (step :: steps))
    (taken : ∀ links p step steps left spot more, t.advance links p step = .ok (left, spot, more) →
      motive left spot (more ++ steps) → motive links (.inside p) (step :: steps))
    (links : Nat) (spot : Spot) (steps : List Path.Step) : motive links spot steps := by
  induction links, spot, steps using follow.induct t with
  | case1 links spot => exact nil links spot
  | case2 links node step steps => exact leaf links node step steps
  | case3 links p steps ih => exact taken _ _ _ _ _ _ [] rfl ih
  | case4 links p step steps hstep hsearch =>
    exact refused _ _ _ _ _ (advance_of_not_search hstep hsearch)
  | case5 links p steps _ _ ih => exact taken _ _ _ _ _ _ [] rfl ih
  | case6 links p steps hsearch _ ih => exact taken _ _ _ _ _ _ [] (if_neg hsearch) ih
  | case7 links p steps hsearch _ ih => exact taken _ _ _ _ _ _ [] (if_neg hsearch) ih
  | case8 links p steps hsearch name hname _ =>
    exact refused _ _ _ _ .nameTooLong (by rw [advance, if_neg hsearch, if_pos hname])
  | case9 links p steps hsearch name hname hget _ =>
    rw [Decidable.not_not] at hsearch
    rw [Nat.not_lt] at hname
    exact refused _ _ _ _ .noEntry (by rw [advance_enter hsearch hname, hget])
  | case10 links p steps hsearch name hname access entries hget _ ih =>
    rw [Decidable.not_not] at hsearch
    rw [Nat.not_lt] at hname
    exact taken _ _ _ _ _ _ [] (by rw [advance_enter hsearch hname, hget]) ih
  | case11 p steps hsearch name hname target hget _ =>
    rw [Decidable.not_not] at hsearch
    rw [Nat.not_lt] at hname
    exact refused _ _ _ _ .tooManyLinks (by rw [advance_enter hsearch hname, hget])
  | case12 p steps hsearch name hname target hget links _ ih =>
    rw [Decidable.not_not] at hsearch
    rw [Nat.not_lt] at hname
    exact taken _ _ _ _ _ _ _ (by rw [advance_enter hsearch hname, hget]) ih
  | case13 links p steps hsearch name hname node hdirectory hlink hget _ ih =>
    rw [Decidable.not_not] at hsearch
    rw [Nat.not_lt] at hname
    refine taken _ _ _ _ _ (.leaf node) [] ?_ ih
    rw [advance_enter hsearch hname, hget]
    cases node with
    | directory access entries => exact absurd rfl (hdirectory access entries)
    | link target => exact absurd rfl (hlink target)
    | _ => rfl

/-- Following that gives up after a number of steps. It goes by recursion on that number, so that
it can be evaluated. -/
def followWithin (t : Tree) : Nat → Nat → Spot → List Path.Step → Option (Except SystemCause Spot)
  | _, _, spot, [] => some (.ok spot)
  | 0, _, _, _ :: _ => none
  | _ + 1, _, .leaf _, _ :: _ => some (.error .notADirectory)
  | n + 1, links, .inside p, step :: steps =>
    match t.advance links p step with
    | .error cause => some (.error cause)
    | .ok (left, spot, more) => t.followWithin n left spot (more ++ steps)

/-- Where it does not give up, it comes to what following comes to. -/
theorem follow_eq_of_followWithin {n : Nat} {spot : Spot} {r : Except SystemCause Spot}
    (h : t.followWithin n links spot steps = some r) : t.follow links spot steps = r := by
  fun_induction followWithin t n links spot steps with
  | case1 =>
    rw [follow_nil]
    exact Option.some.inj h
  | case2 => cases h
  | case3 =>
    rw [follow_leaf_cons]
    exact Option.some.inj h
  | case4 n links p step steps cause hstep =>
    rw [follow_inside_cons, hstep]
    exact Option.some.inj h
  | case5 n links p step steps left spot more hstep ih =>
    rw [follow_inside_cons, hstep]
    exact ih h

/-! ### One path behind the other -/

/-- What is followed successfully leads on from the spot it leads to, with the links that are
left. -/
theorem exists_follow_append {spot s : Spot} (h : t.follow links spot steps = .ok s) :
    ∃ left, ∀ more, t.follow links spot (steps ++ more) = t.follow left s more := by
  induction links, spot, steps using follow_induction t with
  | nil links spot =>
    rw [follow_nil] at h
    cases h
    exact ⟨links, fun more => rfl⟩
  | leaf links node step steps =>
    rw [follow_leaf_cons] at h
    cases h
  | refused links p step steps cause hstep =>
    rw [follow_inside_cons, hstep] at h
    cases h
  | taken links p step steps left spot first hstep ih =>
    rw [follow_inside_cons, hstep] at h
    obtain ⟨left, hleft⟩ := ih h
    refine ⟨left, fun more => ?_⟩
    rw [List.cons_append, follow_inside_cons, hstep, ← hleft more, List.append_assoc]

/-- The beginning of what is followed successfully is followed successfully. -/
theorem exists_follow_of_append {spot s : Spot} {more : List Path.Step}
    (h : t.follow links spot (steps ++ more) = .ok s) :
    ∃ s', t.follow links spot steps = .ok s' := by
  induction links, spot, steps using follow_induction t with
  | nil links spot => exact ⟨spot, follow_nil spot⟩
  | leaf links node step steps =>
    rw [List.cons_append, follow_leaf_cons] at h
    cases h
  | refused links p step steps cause hstep =>
    rw [List.cons_append, follow_inside_cons, hstep] at h
    cases h
  | taken links p step steps left spot first hstep ih =>
    rw [List.cons_append, follow_inside_cons, hstep] at h
    rw [follow_inside_cons, hstep]
    exact ih (by rwa [List.append_assoc])

/-- What leads to a place leads there without the separator at its end. -/
theorem follow_of_append_directory {spot : Spot} {q : Place}
    (h : t.follow links spot (steps ++ [.directory]) = .ok (.inside q)) :
    t.follow links spot steps = .ok (.inside q) := by
  obtain ⟨s, hs⟩ := exists_follow_of_append h
  obtain ⟨left, hleft⟩ := exists_follow_append hs
  rw [hleft] at h
  cases s with
  | leaf node =>
    rw [follow_leaf_cons] at h
    cases h
  | inside q' =>
    rw [follow_inside_cons] at h
    rw [hs, ← h]
    exact (follow_nil _).symm

/-! ### With another number of links -/

/-- A step that can be taken leads to the same spot with another number of links left, if there are
enough of them. -/
theorem advance_of_links {left : Nat} {spot : Spot} {more : List Path.Step}
    (h : t.advance links p step = .ok (left, spot, more)) (others : Nat) :
    (∃ left', t.advance others p step = .ok (left', spot, more)) ∨
      t.advance others p step = .error .tooManyLinks := by
  by_cases hsearch : p.here.access.search
  · cases step with
    | directory =>
      cases h
      exact .inl ⟨others, rfl⟩
    | stay =>
      rw [advance, if_neg (not_not_intro hsearch)] at h ⊢
      cases h
      exact .inl ⟨others, rfl⟩
    | up =>
      rw [advance, if_neg (not_not_intro hsearch)] at h ⊢
      cases h
      exact .inl ⟨others, rfl⟩
    | enter name =>
      rcases Nat.lt_or_ge nameLimit name.length with hlong | hname
      · rw [advance, if_neg (not_not_intro hsearch), if_pos hlong] at h
        cases h
      · rw [advance_enter hsearch hname] at h ⊢
        split at h
        · cases h
        · cases h
          exact .inl ⟨others, rfl⟩
        · split at h <;> cases h
          cases others with
          | zero => exact .inr rfl
          | succ others => exact .inl ⟨others, rfl⟩
        · cases h
          exact .inl ⟨others, rfl⟩
  · cases step with
    | directory =>
      cases h
      exact .inl ⟨others, rfl⟩
    | _ =>
      rw [advance_of_not_search (by simp) hsearch] at h
      cases h

/-- What is followed successfully leads to the same spot with another number of links left, if there
are enough of them. -/
theorem follow_of_links {spot s : Spot} (h : t.follow links spot steps = .ok s) (others : Nat) :
    t.follow others spot steps = .ok s ∨ t.follow others spot steps = .error .tooManyLinks := by
  induction links, spot, steps using follow_induction t generalizing others with
  | nil links spot =>
    rw [follow_nil] at h ⊢
    exact .inl h
  | leaf links node step steps =>
    rw [follow_leaf_cons] at h
    cases h
  | refused links p step steps cause hstep =>
    rw [follow_inside_cons, hstep] at h
    cases h
  | taken links p step steps left spot more hstep ih =>
    rw [follow_inside_cons, hstep] at h
    rw [follow_inside_cons]
    obtain ⟨left', hothers⟩ | hothers := advance_of_links hstep others
    · rw [hothers]
      exact ih h left'
    · rw [hothers]
      exact .inr rfl

/-! ### Down through directories -/

theorem descend?_cons_eq_some_iff {name : Name} {names : List Name} {q : Place} :
    descend? p (name :: names) = some q ↔
      ∃ access entries, p.here.get? name = some (.directory access entries) ∧
        descend? (p.enter name ⟨access, entries⟩) names = some q := by
  rw [descend?]
  split
  next access entries hget =>
    refine ⟨fun h => ⟨access, entries, hget, h⟩, ?_⟩
    rintro ⟨access', entries', hentry, h⟩
    rw [hget] at hentry
    cases hentry
    exact h
  next hget =>
    refine iff_of_false (by simp) ?_
    rintro ⟨access, entries, hentry, -⟩
    exact hget access entries hentry

/-! ### The path of an entry -/

variable {path : Bytes} {name : Name}

theorem resolve_eq (hzero : 0 ∉ path) (hne : path ≠ []) (hlen : path.length < pathLimit) :
    t.resolve path =
      t.follow linkLimit (.inside (t.startOf t.workingPlace path)) (Path.steps path) := by
  rw [resolve, if_neg hzero, if_neg hne, if_neg (Nat.not_le.2 hlen)]

theorem resolve_eq_of_followWithin {n : Nat} {r : Except SystemCause Spot} (hzero : 0 ∉ path)
    (hne : path ≠ []) (hlen : path.length < pathLimit)
    (h : t.followWithin n linkLimit (.inside (t.startOf t.workingPlace path)) (Path.steps path) =
      some r) : t.resolve path = r := by
  rw [resolve_eq hzero hne hlen]
  exact follow_eq_of_followWithin h

theorem fileAt?_eq_of_followWithin {n : Nat} {id : FileId} (hzero : 0 ∉ path) (hne : path ≠ [])
    (hlen : path.length < pathLimit)
    (h : t.followWithin n linkLimit (.inside (t.startOf t.workingPlace path)) (Path.steps path) =
      some (.ok (.leaf (.file id)))) : t.fileAt? path = some id := by
  rw [fileAt?, resolve_eq_of_followWithin hzero hne hlen h]

/-- What leads somewhere has no zero byte, is not empty, and is short enough. -/
theorem resolve_eq_ok {s : Spot} (h : t.resolve path = .ok s) :
    0 ∉ path ∧ path ≠ [] ∧ path.length < pathLimit := by
  unfold resolve at h
  split at h
  · cases h
  · split at h
    · cases h
    · split at h
      · cases h
      · exact ⟨by assumption, by assumption, Nat.lt_of_not_le (by assumption)⟩

theorem resolve_of_pathLimit_le (hlen : pathLimit ≤ path.length) (s : Spot) :
    t.resolve path ≠ .ok s :=
  fun h => Nat.not_le.2 (resolve_eq_ok h).2.2 hlen

/-- The path of an entry is followed from the place of its directory. -/
theorem exists_resolve_join (hp : t.resolve path = .ok (.inside p)) (hname : Path.IsName name)
    (hlen : (Path.join path name).length < pathLimit) :
    ∃ left, t.resolve (Path.join path name) = t.follow left (.inside p) [.enter name] := by
  obtain ⟨hzero, hne, hshort⟩ := resolve_eq_ok hp
  obtain ⟨q, hjoin, hq⟩ := Path.join_eq_append name hne
  have hnotNil : Path.join path name ≠ [] := by simp [hjoin]
  have hsteps : Path.steps (Path.join path name) = Path.steps q ++ [.enter name] := by
    rw [hjoin, Path.steps_append_slash_cons q hname.slash_notMem, hname.stepOfPart]
  have hstart : t.startOf t.workingPlace (Path.join path name) = t.startOf t.workingPlace path := by
    rw [startOf, startOf, Path.isAbsolute_join name hne]
  -- the directory is followed with or without the separator at its end
  have hfollow : t.follow linkLimit (.inside (t.startOf t.workingPlace path)) (Path.steps q) =
      .ok (.inside p) := by
    rw [resolve_eq hzero hne hshort] at hp
    rcases hq with rfl | rfl
    · exact hp
    · rw [Path.steps_append_slash_cons q List.not_mem_nil] at hp
      exact follow_of_append_directory hp
  obtain ⟨left, hleft⟩ := exists_follow_append hfollow
  refine ⟨left, ?_⟩
  rw [resolve_eq (Path.zero_notMem_join hname hzero) hnotNil hlen, hstart, hsteps, hleft]

/-- A directory is reached by its joined path exactly when the entries of the directory above can be
used and the path is short enough. -/
theorem resolve_join_directory_iff (hp : t.resolve path = .ok (.inside p))
    (hname : Path.IsName name) {access : Access} {entries : Entries}
    (hget : p.here.get? name = some (.directory access entries)) {q : Place} :
    t.resolve (Path.join path name) = .ok (.inside q) ↔
      p.here.access.search = true ∧ (Path.join path name).length < pathLimit ∧
        q = p.enter name ⟨access, entries⟩ := by
  by_cases hlen : (Path.join path name).length < pathLimit
  · obtain ⟨left, hleft⟩ := exists_resolve_join hp hname hlen
    rw [hleft, follow_inside_cons]
    by_cases hsearch : p.here.access.search
    · rw [advance_enter hsearch hname.length_le, hget]
      simp [hsearch, hlen, eq_comm]
    · rw [advance_of_not_search (by simp) hsearch]
      exact iff_of_false (by simp) fun h => hsearch h.1
  · exact iff_of_false (resolve_of_pathLimit_le (Nat.le_of_not_lt hlen) _) fun h => hlen h.2.1

/-- A file is what its joined path leads to, if the path can be followed. -/
theorem eq_of_resolve_join_file {id : FileId} (hp : t.resolve path = .ok (.inside p))
    (hname : Path.IsName name) (hget : p.here.get? name = some (.file id)) {s : Spot}
    (h : t.resolve (Path.join path name) = .ok s) : s = .leaf (.file id) := by
  obtain ⟨left, hleft⟩ := exists_resolve_join hp hname (resolve_eq_ok h).2.2
  rw [hleft, follow_inside_cons] at h
  by_cases hsearch : p.here.access.search
  · rw [advance_enter hsearch hname.length_le, hget] at h
    simp only [List.append_nil, follow_nil] at h
    exact (Except.ok.inj h).symm
  · rw [advance_of_not_search (by simp) hsearch] at h
    cases h

end Tree

end CallMigration
