import CallMigration.Proofs.Calls
import CallMigration.Proofs.Nesting
import CallMigration.Rule.Apply

/-!
# What balanced editing does

Balanced editing replaces every call that is closed on its line, at every depth, and nothing else.

## Main Statements

* `Rule.callAt_append_closeParen_iff` — the calls in an argument are the calls of the argument
* `Rule.balanced_eq_editCalls` — balanced editing replaces all calls in their places
* `Rule.apply_balanced_eq_splice` — the same as a splice of the text

## Design Notes

The recursion edits the argument of a call as a text of its own. That it finds the same calls there
as in the whole text is what a well-nested argument gives: whatever a trigger opens inside it is
closed inside it, so what follows the argument is never looked at.
-/

namespace CallMigration

namespace Rule

variable {r : Rule}

/-! ### Arguments -/

/-- In a well-nested text every trigger is closed, whatever follows. -/
theorem isSome_matching?_of_wellNested {u : Bytes} (hu : Paren.WellNested u) {p : Nat}
    (hp : r.trigger <+: u.drop p) (v : Bytes) :
    (Paren.matching? (u.drop (p + r.trigger.length) ++ v)).isSome := by
  obtain ⟨x, hx⟩ := hp
  have hu' : Paren.WellNested ((u.take p ++ r.opening) ++ Bytes.openParen :: x) := by
    rw [List.append_assoc, List.append_cons r.opening, ← trigger_eq_opening, hx,
      List.take_append_drop]
    exact hu
  obtain ⟨y, z, rfl, hy⟩ := hu'.exists_closeParen
  have hdrop : u.drop (p + r.trigger.length) = y ++ Bytes.closeParen :: z := by
    rw [← List.drop_drop, ← hx, List.drop_left]
  rw [hdrop, List.append_assoc, List.cons_append, Paren.matching?_append_closeParen hy]
  rfl

/-- The calls that start in a well-nested argument are the calls of the argument alone. -/
theorem callAt_append_closeParen_iff (h : r.ParenFree) {u : Bytes} (hu : Paren.WellNested u)
    (v : Bytes) {p : Nat} (hp : p < u.length) :
    r.CallAt Paren.matching? (u ++ Bytes.closeParen :: v) p ↔ r.CallAt Paren.matching? u p := by
  rw [callAt_append_closeParen_cons_iff h v hp.le]
  refine and_congr_right fun hin => ?_
  refine iff_of_true (isSome_matching?_of_wellNested hu hin _) ?_
  simpa using isSome_matching?_of_wellNested hu hin []

/-! ### Balanced editing -/

theorem balanced_eq (r : Rule) (t : Bytes) :
    r.balanced t =
      match Bytes.cut? r.trigger t with
      | none => .kept t
      | some (before, rest) =>
        match Paren.matching? rest with
        | some i =>
          .kept before ++ (.call r (r.balanced (rest.take i)) ++ r.balanced (rest.drop (i + 1)))
        | none => .kept (before ++ r.trigger) ++ r.balanced rest := by
  rw [balanced]
  split
  · simp [*]
  · split <;> simp [*]

/-- A text in front in which no trigger starts is kept, whatever the method holds. -/
theorem balanced_append {a b : Bytes} (ha : r.NoTriggerIn a b) :
    r.balanced (a ++ b) = .kept a ++ r.balanced b := by
  rw [balanced_eq r (a ++ b), balanced_eq r b, Bytes.cut?_append b ha]
  cases Bytes.cut? r.trigger b with
  | none => rfl
  | some q =>
    simp only [Option.map_some]
    cases Paren.matching? q.2 with
    | none => simp only [List.append_assoc, Edit.kept_append a, Edit.append_assoc]
    | some i => simp only [Edit.kept_append, Edit.append_assoc]

/-- Balanced editing replaces each call that is closed, and no other. -/
theorem balanced_eq_editCalls (h : r.ParenFree) (t : Bytes) :
    r.balanced t = r.editCalls Paren.matching? t := by
  fun_induction Rule.balanced r t with
  | case1 t hcut =>
    exact (editCalls_eq_kept fun p hcall => Bytes.not_isPrefix_of_cut?_eq_none hcut p hcall.1).symm
  | case2 t before rest hcut i hclose ihargument ihrest =>
    -- `u` is the argument, which is edited as a text of its own
    obtain ⟨u, v, rfl, rfl, hu⟩ := Paren.matching?_eq_some_iff.1 hclose
    rw [List.take_left] at ihargument
    rw [Bytes.drop_append_cons] at ihrest
    rw [List.take_left, Bytes.drop_append_cons, ihargument, ihrest, Bytes.eq_of_cut? hcut,
      editCalls_append_trigger_append h (noTriggerIn_of_cut? hcut), hclose,
      editCalls_append_of_iff fun p hp => callAt_append_closeParen_iff h hu v hp,
      editCalls_closeParen_cons, Edit.call_eq]
    simp [Edit.append_assoc]
  | case3 t before rest hcut hclose ih =>
    rw [ih, Bytes.eq_of_cut? hcut, editCalls_append_trigger_append h (noTriggerIn_of_cut? hcut),
      hclose, Edit.kept_append]
    simp [Edit.append_assoc]

/-- Balanced editing puts the head of the replacement in the place of every trigger that is closed
on its line, wherever it stands, and keeps every other byte. The triggers it replaces are apart, and
it counts them. -/
theorem apply_balanced_eq_splice (h : r.ParenFree) (t : Bytes) :
    (r.calls Paren.matching? t).Pairwise (fun p q => p + r.trigger.length ≤ q) ∧
      (r.apply .balanced t).text =
        Bytes.splice r.trigger.length r.head (r.calls Paren.matching? t) t ∧
      (r.apply .balanced t).replacements = (r.calls Paren.matching? t).length := by
  have hedit : r.apply .balanced t = r.editCalls Paren.matching? t := balanced_eq_editCalls h t
  rw [hedit]
  exact ⟨calls_pairwise h t, rfl, rfl⟩

/-- A call in an argument and one on a line of its own are replaced, an unclosed one is kept. -/
theorem apply_balanced_eq_splice_nested :
    withOpacity.ParenFree ∧
      let t := Bytes.ofString "a.withOpacity(b.withOpacity(c));\nd.withOpacity(\ne.withOpacity(f)"
      withOpacity.calls Paren.matching? t = [1, 15, 49] ∧
        (withOpacity.apply .balanced t).replacements = 3 := by
  have hfree : withOpacity.ParenFree := by decide
  have hcalls : withOpacity.calls Paren.matching?
      (Bytes.ofString "a.withOpacity(b.withOpacity(c));\nd.withOpacity(\ne.withOpacity(f)") =
        [1, 15, 49] := by
    decide
  refine ⟨hfree, hcalls, ?_⟩
  rw [(apply_balanced_eq_splice hfree _).2.2, hcalls]
  rfl

end Rule

end CallMigration
