import CallMigration.Tree.Resolve

/-!
# Paths made of names

The path of an entry is the path of its directory with the name behind it. Names can be read off
such a path again, however the directory is spelled.

## Main Definitions

* `Path.IsName` — what the entry of a directory can be called
* `Path.IsPart` — the same without the limits of a file system
* `Path.joinAll` — the path of what names lead to from a directory

## Main Statements

* `Path.components_joinAll` — joining names adds them to the components
* `Path.joinAll_inj` — different names lead to different paths
* `Path.relative_joinAll` — below a directory a path is shown by the names that lead there
* `Path.steps_append_slash_cons` — to follow a joined path is to follow the directory, then the name

## Design Notes

`Path.join` has two forms, with a separator of its own or behind the one that is there. Both are a
text with a separator and the name behind it, and `Path.join_eq_append` is where this is decided.
-/

namespace CallMigration

namespace Path

open Bytes

/-- What the entry of a directory can be called. -/
structure IsName (name : Name) : Prop where
  ne_nil : name ≠ []
  ne_here : name ≠ here
  ne_parent : name ≠ Path.parent
  slash_notMem : slash ∉ name
  zero_notMem : 0 ∉ name
  length_le : name.length ≤ Tree.nameLimit

instance (name : Name) : Decidable (IsName name) :=
  decidable_of_iff (name ≠ [] ∧ name ≠ here ∧ name ≠ Path.parent ∧ slash ∉ name ∧ 0 ∉ name ∧
      name.length ≤ Tree.nameLimit)
    ⟨fun ⟨hnil, hhere, hparent, hslash, hzero, hlen⟩ => ⟨hnil, hhere, hparent, hslash, hzero, hlen⟩,
      fun h => ⟨h.ne_nil, h.ne_here, h.ne_parent, h.slash_notMem, h.zero_notMem, h.length_le⟩⟩

/-- What stands for a name between two separators of a path, of any length and with any bytes. -/
structure IsPart (name : Name) : Prop where
  ne_nil : name ≠ []
  ne_here : name ≠ here
  ne_parent : name ≠ Path.parent
  slash_notMem : slash ∉ name

theorem IsName.isPart {name : Name} (h : IsName name) : IsPart name :=
  ⟨h.ne_nil, h.ne_here, h.ne_parent, h.slash_notMem⟩

/-- The path of what names lead to from a directory. -/
def joinAll (directory : Bytes) (names : List Name) : Bytes := names.foldl join directory

@[simp] theorem joinAll_nil (directory : Bytes) : joinAll directory [] = directory := rfl

@[simp] theorem joinAll_cons (directory : Bytes) (name : Name) (names : List Name) :
    joinAll directory (name :: names) = joinAll (join directory name) names := rfl

theorem joinAll_concat (directory : Bytes) (names : List Name) (name : Name) :
    joinAll directory (names ++ [name]) = join (joinAll directory names) name :=
  List.foldl_append

theorem join_nil (name : Name) : join [] name = name := rfl

/-- Nothing of the directory and of the name is lost when they are joined. -/
theorem length_add_le_length_join (directory : Bytes) (name : Name) :
    directory.length + name.length ≤ (join directory name).length := by
  unfold join
  split
  next h =>
    rw [List.getLast?_eq_none_iff.1 h]
    exact Nat.le_of_eq (Nat.zero_add _)
  next b h =>
    split <;> simp only [List.length_append, List.length_cons] <;> omega

theorem length_le_length_joinAll (directory : Bytes) (names : List Name) :
    directory.length ≤ (joinAll directory names).length := by
  induction names generalizing directory with
  | nil => exact Nat.le_refl _
  | cons name names ih =>
    have hjoin := length_add_le_length_join directory name
    have hmore := ih (join directory name)
    rw [joinAll_cons]
    omega

/-- A name stands behind a separator: behind one of its own, or behind the one that the path of the
directory ends with. -/
theorem join_eq_append (name : Name) {p : Bytes} (hp : p ≠ []) :
    ∃ q, join p name = q ++ slash :: name ∧ (q = p ∨ q ++ [slash] = p) := by
  obtain ⟨q, b, rfl⟩ := (List.eq_nil_or_concat p).resolve_left hp
  rw [List.concat_eq_append]
  by_cases hb : b = slash
  · refine ⟨q, ?_, .inr (by rw [hb])⟩
    simp [join, hb]
  · refine ⟨q ++ [b], ?_, .inl rfl⟩
    simp [join, hb]

/-! ### Parts -/

theorem parts_append_slash_cons (q : Bytes) {part : Bytes} (hpart : slash ∉ part) :
    parts (q ++ slash :: part) = parts q ++ [part] := by
  rw [parts, List.splitOn_append_cons_self, List.splitOn_eq_singleton hpart, parts]

/-- Only nothing has nothing as its only part. -/
theorem parts_ne_singleton_nil {q : Bytes} (hq : q ≠ []) : parts q ≠ [[]] := by
  obtain ⟨b, q, rfl⟩ := List.exists_cons_of_ne_nil hq
  rw [parts, List.splitOn_cons_eq_if_modifyHead]
  split
  · simp [List.splitOn_ne_nil]
  · obtain ⟨first, others, hparts⟩ := List.exists_cons_of_ne_nil (List.splitOn_ne_nil slash q)
    simp [hparts]

theorem IsName.stepOfPart {name : Name} (h : IsName name) : Step.ofPart name = .enter name := by
  rw [Step.ofPart, if_neg h.ne_nil, if_neg h.ne_here, if_neg h.ne_parent]

theorem IsPart.componentOfPart? {name : Name} (h : IsPart name) :
    Component.ofPart? name = some (.name name) := by
  rw [Component.ofPart?, if_neg (not_or.2 ⟨h.ne_nil, h.ne_here⟩), if_neg h.ne_parent]

/-! ### Components -/

theorem components_append_slash_cons (q : Bytes) {part : Bytes} (hpart : slash ∉ part) :
    components (q ++ slash :: part) =
      components (q ++ [slash]) ++ (Component.ofPart? part).toList := by
  have hnil : Component.ofPart? [] = none := rfl
  obtain ⟨first, others, hparts⟩ := List.exists_cons_of_ne_nil (List.splitOn_ne_nil slash q)
  have hq : parts q = first :: others := hparts
  unfold components
  rw [parts_append_slash_cons q hpart, parts_append_slash_cons q List.not_mem_nil, hq]
  cases hcomponent : Component.ofPart? part <;> simp [hcomponent, hnil]

/-- A separator at the end does not count, except after nothing. -/
theorem components_append_slash {q : Bytes} (hq : q ≠ []) :
    components (q ++ [slash]) = components q := by
  have hnil : Component.ofPart? [] = none := rfl
  have hne := parts_ne_singleton_nil hq
  unfold components
  rw [parts_append_slash_cons q List.not_mem_nil]
  cases hparts : parts q with
  | nil => exact absurd hparts (List.splitOn_ne_nil _ _)
  | cons first others =>
    rw [hparts] at hne
    by_cases hfirst : first = [] <;> simp_all

/-- Joining a name adds it to the components. -/
theorem components_join {name : Name} (h : IsPart name) (p : Bytes) :
    components (join p name) = components p ++ [.name name] := by
  by_cases hp : p = []
  · have hparts : parts name = [name] := List.splitOn_eq_singleton h.slash_notMem
    rw [hp, join_nil, components, hparts]
    simp only [h.ne_nil, h.ne_here, if_false, h.componentOfPart?]
    rfl
  · obtain ⟨q, hjoin, hq⟩ := join_eq_append name hp
    rw [hjoin, components_append_slash_cons q h.slash_notMem, h.componentOfPart?]
    rcases hq with rfl | rfl
    · rw [components_append_slash hp]
      rfl
    · rfl

/-- What is joined to a path at or below a root is not the root. -/
theorem components_join_ne {name : Name} (h : IsPart name) {root p : Bytes}
    (hbelow : components root <+: components p) : components (join p name) ≠ components root := by
  intro heq
  have hlength := hbelow.length_le
  rw [← heq, components_join h, List.length_append] at hlength
  exact Nat.not_succ_le_self _ hlength

theorem components_joinAll {names : List Name} (h : ∀ name ∈ names, IsPart name) (p : Bytes) :
    components (joinAll p names) = components p ++ names.map .name := by
  induction names generalizing p with
  | nil => simp
  | cons name names ih =>
    rw [List.forall_mem_cons] at h
    rw [joinAll_cons, ih h.2, components_join h.1, List.append_assoc]
    rfl

/-- Different names lead to different paths. -/
theorem joinAll_inj {p : Bytes} {names others : List Name} (h : ∀ name ∈ names, IsName name)
    (hothers : ∀ name ∈ others, IsName name) :
    joinAll p names = joinAll p others ↔ names = others := by
  refine ⟨fun heq => ?_, congrArg _⟩
  have hcomponents := congrArg components heq
  rw [components_joinAll fun name hname => (h name hname).isPart,
    components_joinAll fun name hname => (hothers name hname).isPart,
    List.append_cancel_left_eq] at hcomponents
  exact (List.map_inj_right fun _ _ => Component.name.inj).1 hcomponents

theorem behind?_append (root path : List Component) : behind? root (root ++ path) = some path := by
  induction root with
  | nil => rfl
  | cons c root ih => simpa [behind?] using ih

/-- Below a directory a path consists of the names that lead there, however the directory is
spelled. -/
theorem below_joinAll {names : List Name} (h : ∀ name ∈ names, IsPart name) (root : Bytes) :
    below (joinAll root names) root = names.map .name := by
  rw [below, components_joinAll h, behind?_append, Option.getD_some]

theorem relative_joinAll {names : List Name} (h : ∀ name ∈ names, IsPart name) (root : Bytes) :
    relative (joinAll root names) root = "/".intercalate (names.map Utf8.decodeLossy) := by
  rw [relative, below_joinAll h, List.map_map]
  rfl

/-! ### Steps -/

theorem steps_append_slash_cons (q : Bytes) {part : Bytes} (hpart : slash ∉ part) :
    steps (q ++ slash :: part) = steps q ++ [Step.ofPart part] := by
  rw [steps, parts_append_slash_cons q hpart, List.map_append]
  rfl

/-- A joined path starts where the path of the directory does. -/
theorem isAbsolute_join (name : Name) {p : Bytes} (hp : p ≠ []) :
    isAbsolute (join p name) = isAbsolute p := by
  obtain ⟨q, hjoin, rfl | rfl⟩ := join_eq_append name hp
  · obtain ⟨b, q, rfl⟩ := List.exists_cons_of_ne_nil hp
    rw [hjoin]
    rfl
  · rw [hjoin]
    cases q <;> rfl

/-- A joined path holds the bytes of the directory and of the name, and a separator. -/
theorem zero_notMem_join {name : Name} (h : IsName name) {p : Bytes} (hp : 0 ∉ p) :
    0 ∉ join p name := by
  by_cases hnil : p = []
  · rw [hnil, join_nil]
    exact h.zero_notMem
  · obtain ⟨q, hjoin, hq⟩ := join_eq_append name hnil
    have hzero : 0 ∉ q := by
      rcases hq with rfl | rfl
      · exact hp
      · exact fun hmem => hp (List.mem_append_left _ hmem)
    rw [hjoin, List.mem_append, List.mem_cons, not_or, not_or]
    exact ⟨hzero, by decide, h.zero_notMem⟩

end Path

end CallMigration
