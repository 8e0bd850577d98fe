import CallMigration.Paren

/-!
# What closes a call

Both ways to find the end of a call are characterised by the text they pass over. `Paren.first?`
passes over a text without a `)` on one line, `Paren.matching?` over a well-nested one.

## Main Definitions

* `Paren.Closes` — the texts that close some parentheses more than they open
* `Paren.IsMatching` — a `)` on the line stands behind a well-nested text

## Main Statements

* `Paren.matching?_eq_some_iff` — a matching `)` stands behind a well-nested text
* `Paren.matching?_iff_isMatching` — the same by offsets, also where there is no such `)`
* `Paren.WellNested.exists_closeParen` — what is opened in a well-nested text is closed in it
* `Paren.first?_eq_some_iff` — a first `)` stands behind a text that has none and stays on the line
* `Paren.isSome_first?_of_matching?` — a line with a matching `)` has a first one

## Design Notes

`Paren.matching?` counts how deep it is, and `Paren.WellNested` does not count. The texts between
the two are those of `Paren.Closes`: what a scan passes over that starts with `depth` parentheses
open is a well-nested text and a `)`, so many times, and a well-nested text.
-/

namespace CallMigration

namespace Paren

open Bytes

/-! ### Counting the depth -/

theorem openParen_ne_closeParen : openParen ≠ closeParen := by decide

@[simp] theorem matchingFrom_openParen (depth offset : Nat) (t : Bytes) :
    matchingFrom depth offset (openParen :: t) = matchingFrom (depth + 1) (offset + 1) t := by
  simp [matchingFrom]

@[simp] theorem matchingFrom_zero_closeParen (offset : Nat) (t : Bytes) :
    matchingFrom 0 offset (closeParen :: t) = some offset := by
  simp [matchingFrom, openParen_ne_closeParen.symm]

@[simp] theorem matchingFrom_succ_closeParen (depth offset : Nat) (t : Bytes) :
    matchingFrom (depth + 1) offset (closeParen :: t) = matchingFrom depth (offset + 1) t := by
  simp [matchingFrom, openParen_ne_closeParen.symm]

theorem matchingFrom_cons_of_ne {b : UInt8} (hopen : b ≠ openParen) (hclose : b ≠ closeParen)
    (hline : b ≠ newline) (depth offset : Nat) (t : Bytes) :
    matchingFrom depth offset (b :: t) = matchingFrom depth (offset + 1) t := by
  simp [matchingFrom, hopen, hclose, hline]

/-- A scan passes over a well-nested text at any depth. -/
theorem matchingFrom_append {w : Bytes} (hw : WellNested w) (depth offset : Nat) (u : Bytes) :
    matchingFrom depth offset (w ++ u) = matchingFrom depth (offset + w.length) u := by
  induction hw generalizing depth offset u with
  | nil => rfl
  | cons hopen hclose hline _ ih =>
    rw [List.cons_append, matchingFrom_cons_of_ne hopen hclose hline, ih, List.length_cons,
      Nat.add_assoc, Nat.add_comm 1]
  | @paren s t _ _ ihs iht =>
    have hlen : offset + (openParen :: (s ++ closeParen :: t)).length =
        offset + 1 + s.length + 1 + t.length := by
      simp only [List.length_cons, List.length_append]
      omega
    rw [List.cons_append, matchingFrom_openParen, List.append_assoc, ihs, List.cons_append,
      matchingFrom_succ_closeParen, iht, hlen]

/-- Texts on one line that close `depth` parentheses more than they open. -/
def Closes : Nat → Bytes → Prop
  | 0, u => WellNested u
  | depth + 1, u => ∃ w v, u = w ++ closeParen :: v ∧ WellNested w ∧ Closes depth v

theorem Closes.cons {depth : Nat} {b : UInt8} {u : Bytes} (hopen : b ≠ openParen)
    (hclose : b ≠ closeParen) (hline : b ≠ newline) (hu : Closes depth u) :
    Closes depth (b :: u) := by
  cases depth with
  | zero => exact WellNested.cons hopen hclose hline hu
  | succ depth =>
    obtain ⟨w, v, rfl, hw, hv⟩ := hu
    exact ⟨b :: w, v, rfl, WellNested.cons hopen hclose hline hw, hv⟩

/-- A parenthesis in front takes one of those that are closed. -/
theorem Closes.openParen_cons {depth : Nat} {u : Bytes} (hu : Closes (depth + 1) u) :
    Closes depth (openParen :: u) := by
  obtain ⟨w, v, rfl, hw, hv⟩ := hu
  cases depth with
  | zero => exact WellNested.paren hw hv
  | succ depth =>
    obtain ⟨w', v', rfl, hw', hv'⟩ := hv
    refine ⟨openParen :: (w ++ closeParen :: w'), v', ?_, WellNested.paren hw hw', hv'⟩
    simp

/-- A scan that starts inside `depth` parentheses closes all of them before it ends. -/
theorem exists_closes_of_matchingFrom {depth offset : Nat} {t : Bytes} {i : Nat}
    (h : matchingFrom depth offset t = some i) :
    ∃ u v, t = u ++ closeParen :: v ∧ i = offset + u.length ∧ Closes depth u := by
  fun_induction matchingFrom depth offset t with
  | case1 => cases h
  | case2 depth offset t ih =>
    obtain ⟨u, v, rfl, rfl, hu⟩ := ih h
    exact ⟨openParen :: u, v, rfl, by rw [List.length_cons]; omega, hu.openParen_cons⟩
  | case3 offset t =>
    cases h
    exact ⟨[], t, rfl, rfl, WellNested.nil⟩
  | case4 offset t depth _ ih =>
    obtain ⟨u, v, rfl, rfl, hu⟩ := ih h
    exact ⟨closeParen :: u, v, rfl, by rw [List.length_cons]; omega, [], u, rfl, .nil, hu⟩
  | case5 => cases h
  | case6 depth offset b t hopen hclose hline ih =>
    obtain ⟨u, v, rfl, rfl, hu⟩ := ih h
    exact ⟨b :: u, v, rfl, by rw [List.length_cons]; omega, hu.cons hopen hclose hline⟩

theorem matching?_append_closeParen {u : Bytes} (hu : WellNested u) (v : Bytes) :
    matching? (u ++ closeParen :: v) = some u.length := by
  rw [matching?, matchingFrom_append hu, matchingFrom_zero_closeParen, Nat.zero_add]

/-- The matching `)` is the one behind a well-nested text. -/
theorem matching?_eq_some_iff {t : Bytes} {i : Nat} :
    matching? t = some i ↔ ∃ u v, t = u ++ closeParen :: v ∧ u.length = i ∧ WellNested u := by
  constructor
  · intro h
    obtain ⟨u, v, rfl, rfl, hu⟩ := exists_closes_of_matchingFrom h
    exact ⟨u, v, rfl, (Nat.zero_add _).symm, hu⟩
  · rintro ⟨u, v, rfl, rfl, hu⟩
    exact matching?_append_closeParen hu v

/-- What is opened inside a well-nested text is closed inside it. -/
theorem WellNested.exists_closeParen {a x : Bytes} (h : WellNested (a ++ openParen :: x)) :
    ∃ y z, x = y ++ closeParen :: z ∧ WellNested y := by
  generalize hs : a ++ openParen :: x = s at h
  induction h generalizing a x with
  | nil => simp at hs
  | @cons b t hopen _ _ _ ih =>
    cases a with
    | nil => exact absurd (List.cons.inj hs).1.symm hopen
    | cons c a => exact ih (List.cons.inj hs).2
  | @paren s t hwell _ ihs iht =>
    cases a with
    | nil => exact ⟨s, t, (List.cons.inj hs).2, hwell⟩
    | cons c a =>
      -- the parenthesis stands inside the first pair or behind it
      have htail : a ++ openParen :: x = s ++ closeParen :: t := (List.cons.inj hs).2
      obtain ⟨m, rfl, hm⟩ | ⟨m, rfl, hm⟩ := List.append_eq_append_iff.1 htail
      · cases m with
        | nil => cases (List.cons.inj hm).1
        | cons d m =>
          obtain ⟨rfl, rfl⟩ := List.cons.inj hm
          obtain ⟨y, z, rfl, hy⟩ := ihs rfl
          exact ⟨y, z ++ closeParen :: t, by simp, hy⟩
      · cases m with
        | nil => cases (List.cons.inj hm).1
        | cons d m => exact iht (List.cons.inj hm).2.symm

/-! ### The first closing parenthesis -/

theorem firstFrom_eq (offset : Nat) (t : Bytes) :
    firstFrom offset t = (first? t).map (offset + ·) := by
  induction t generalizing offset with
  | nil => rfl
  | cons b t ih =>
    unfold first? firstFrom
    split
    · rfl
    · split
      · rfl
      · rw [ih (offset + 1), ih (0 + 1), Option.map_map]
        congr 1
        funext i
        simp only [Function.comp_apply]
        omega

@[simp] theorem first?_closeParen_cons (t : Bytes) : first? (closeParen :: t) = some 0 := by
  simp [first?, firstFrom]

@[simp] theorem first?_newline_cons (t : Bytes) : first? (newline :: t) = none := by
  simp [first?, firstFrom, show newline ≠ closeParen by decide]

theorem first?_cons_of_ne {b : UInt8} (hclose : b ≠ closeParen) (hline : b ≠ newline) (t : Bytes) :
    first? (b :: t) = (first? t).map (1 + ·) := by
  rw [first?, firstFrom, if_neg hclose, if_neg hline, firstFrom_eq]

/-- The first `)` is the one behind a text without `)` that stays on the line. -/
theorem first?_eq_some_iff {t : Bytes} {i : Nat} :
    first? t = some i ↔
      ∃ u v, t = u ++ closeParen :: v ∧ u.length = i ∧ closeParen ∉ u ∧ newline ∉ u := by
  induction t generalizing i with
  | nil => simp [first?, firstFrom]
  | cons b t ih =>
    by_cases hclose : b = closeParen
    · subst hclose
      rw [first?_closeParen_cons, Option.some.injEq]
      constructor
      · rintro rfl
        exact ⟨[], t, rfl, rfl, List.not_mem_nil, List.not_mem_nil⟩
      · rintro ⟨u, v, ht, rfl, hu, -⟩
        cases u with
        | nil => rfl
        | cons c u => exact absurd ((List.cons.inj ht).1 ▸ List.mem_cons_self) hu
    · by_cases hline : b = newline
      · subst hline
        rw [first?_newline_cons]
        refine iff_of_false (by simp) ?_
        rintro ⟨u, v, ht, -, -, hu⟩
        cases u with
        | nil => exact hclose (List.cons.inj ht).1
        | cons c u => exact absurd ((List.cons.inj ht).1 ▸ List.mem_cons_self) hu
      · rw [first?_cons_of_ne hclose hline, Option.map_eq_some_iff]
        constructor
        · rintro ⟨j, hj, rfl⟩
          obtain ⟨u, v, rfl, rfl, hu, hl⟩ := ih.1 hj
          refine ⟨b :: u, v, rfl, by rw [List.length_cons, Nat.add_comm], ?_, ?_⟩
          · simp [hu, Ne.symm hclose]
          · simp [hl, Ne.symm hline]
        · rintro ⟨u, v, ht, rfl, hu, hl⟩
          cases u with
          | nil => exact absurd (List.cons.inj ht).1 hclose
          | cons c u =>
            rw [List.mem_cons, not_or] at hu hl
            exact ⟨u.length, ih.2 ⟨u, v, (List.cons.inj ht).2, rfl, hu.2, hl.2⟩, Nat.add_comm _ _⟩

/-- A `)` on the line is found, whatever stands before it. -/
theorem isSome_first?_append {a : Bytes} (hline : newline ∉ a) (v : Bytes) :
    (first? (a ++ closeParen :: v)).isSome := by
  induction a with
  | nil => rw [List.nil_append, first?_closeParen_cons]; rfl
  | cons b a ih =>
    rw [List.mem_cons, not_or] at hline
    by_cases hclose : b = closeParen
    · rw [hclose, List.cons_append, first?_closeParen_cons]
      rfl
    · rw [List.cons_append, first?_cons_of_ne hclose (Ne.symm hline.1), Option.isSome_map]
      exact ih hline.2

/-- Whether a `)` is found behind a text depends on nothing else about what stands there. -/
theorem isSome_first?_append_congr (a : Bytes) {x y : Bytes}
    (h : (first? x).isSome = (first? y).isSome) :
    (first? (a ++ x)).isSome = (first? (a ++ y)).isSome := by
  induction a with
  | nil => exact h
  | cons b a ih =>
    by_cases hclose : b = closeParen
    · rw [hclose, List.cons_append, List.cons_append, first?_closeParen_cons,
        first?_closeParen_cons]
    · by_cases hline : b = newline
      · rw [hline, List.cons_append, List.cons_append, first?_newline_cons, first?_newline_cons]
      · rw [List.cons_append, List.cons_append, first?_cons_of_ne hclose hline,
          first?_cons_of_ne hclose hline, Option.isSome_map, Option.isSome_map]
        exact ih

/-! ### Matching by offsets -/

theorem newline_notMem_of_wellNested {w : Bytes} (hw : WellNested w) : newline ∉ w := by
  induction hw with
  | nil => exact List.not_mem_nil
  | cons _ _ hline _ ih => simp [ih, Ne.symm hline]
  | paren _ _ ihs iht =>
    simp [ihs, iht, show newline ≠ openParen by decide, show newline ≠ closeParen by decide]

/-- The `)` at an offset matches a parenthesis that is open before the text: no line ends before it,
and what stands before it is well nested. -/
structure IsMatching (t : Bytes) (i : Nat) : Prop where
  getElem?_eq : t[i]? = some closeParen
  newline_notMem : newline ∉ t.take i
  wellNested : WellNested (t.take i)

/-- An offset matches exactly when it cuts the text into a well-nested part and one that starts with
a `)`. -/
theorem isMatching_iff {t : Bytes} {i : Nat} :
    IsMatching t i ↔ ∃ u v, t = u ++ closeParen :: v ∧ u.length = i ∧ WellNested u := by
  constructor
  · rintro ⟨hclose, -, hnested⟩
    obtain ⟨hi, hget⟩ := List.getElem?_eq_some_iff.1 hclose
    refine ⟨t.take i, t.drop (i + 1), ?_, List.length_take_of_le (Nat.le_of_lt hi), hnested⟩
    rw [← hget, List.getElem_cons_drop, List.take_append_drop]
  · rintro ⟨u, v, rfl, rfl, hu⟩
    refine ⟨?_, ?_, ?_⟩
    · simp
    · rw [List.take_left]
      exact newline_notMem_of_wellNested hu
    · rwa [List.take_left]

/-- The scan for the end of a call finds exactly the `)` that matches, and nothing where none
does. -/
theorem matching?_iff_isMatching (t : Bytes) :
    (∀ i, matching? t = some i ↔ IsMatching t i) ∧
      (matching? t = none ↔ ¬ ∃ i, IsMatching t i) := by
  have hfound : ∀ i, matching? t = some i ↔ IsMatching t i := fun i => by
    rw [matching?_eq_some_iff, isMatching_iff]
  refine ⟨hfound, ?_⟩
  rw [Option.eq_none_iff_forall_ne_some, not_exists]
  exact forall_congr' fun i => not_congr (hfound i)

/-! ### The two ways together -/

/-- A call whose parentheses match has a `)` on its line. -/
theorem isSome_first?_of_matching? {t : Bytes} (h : (matching? t).isSome) : (first? t).isSome := by
  obtain ⟨i, hi⟩ := Option.isSome_iff_exists.1 h
  obtain ⟨u, v, rfl, -, hu⟩ := matching?_eq_some_iff.1 hi
  exact isSome_first?_append (newline_notMem_of_wellNested hu) v

end Paren

end CallMigration
