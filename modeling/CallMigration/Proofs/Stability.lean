import CallMigration.Proofs.Repetition

/-!
# Repeating the balanced edit

What a second balanced pass does to the text of the first: nothing. Trigger and head open one
parenthesis each, so a pass changes nothing about which parentheses are closed on their line, and a
trigger that the first pass left is left again.

## Main Definitions

* `Paren.Alike` — two texts close the same numbers of open parentheses

## Main Statements

* `Rule.balanced_induction` — the induction over the triggers of a text
* `Rule.Plain.alike_text_balanced` — a pass closes what was closed before, and nothing else
* `Rule.Plain.balanced_text_balanced` — a second pass replaces nothing
-/

namespace CallMigration

namespace Paren

open Bytes

/-! ### Which parentheses are closed -/

/-- Bytes that are no parentheses and end no line are well nested. -/
theorem wellNested_of_notMem {w : Bytes} (hopen : openParen ∉ w) (hclose : closeParen ∉ w)
    (hline : newline ∉ w) : WellNested w := by
  induction w with
  | nil => exact .nil
  | cons b w ih =>
    simp only [List.mem_cons, not_or] at hopen hclose hline
    exact .cons (Ne.symm hopen.1) (Ne.symm hclose.1) (Ne.symm hline.1)
      (ih hopen.2 hclose.2 hline.2)

/-- Whether a `)` is found does not depend on where counting starts. -/
theorem isSome_matchingFrom_congr (depth offset offset' : Nat) (t : Bytes) :
    (matchingFrom depth offset t).isSome = (matchingFrom depth offset' t).isSome := by
  fun_induction matchingFrom depth offset t generalizing offset' with
  | case1 => rfl
  | case2 depth offset t ih => rw [matchingFrom_openParen, ih]
  | case3 offset t => rw [matchingFrom_zero_closeParen]; rfl
  | case4 offset t depth _ ih => rw [matchingFrom_succ_closeParen, ih]
  | case5 depth offset t => simp [matchingFrom, *]
  | case6 depth offset b t hopen hclose hline ih =>
    rw [matchingFrom_cons_of_ne hopen hclose hline, ih]

/-- Behind any number of open parentheses, either both texts close the call or none does. -/
def Alike (x y : Bytes) : Prop :=
  ∀ depth offset, (matchingFrom depth offset x).isSome = (matchingFrom depth offset y).isSome

theorem Alike.refl (x : Bytes) : Alike x x := fun _ _ => rfl

theorem Alike.isSome_matching? {x y : Bytes} (h : Alike x y) :
    (matching? x).isSome = (matching? y).isSome :=
  h 0 0

/-- The same text may stand in front. -/
theorem Alike.append_left {x y : Bytes} (h : Alike x y) (a : Bytes) : Alike (a ++ x) (a ++ y) := by
  induction a with
  | nil => exact h
  | cons b a ih =>
    intro depth offset
    simp only [List.cons_append, matchingFrom]
    split
    · exact ih _ _
    · split
      · cases depth with
        | zero => rfl
        | succ depth => exact ih _ _
      · split
        · rfl
        · exact ih _ _

/-- So may two texts that open a parenthesis each. -/
theorem Alike.opened {x y w z w' z' : Bytes} (h : Alike x y) (hw : WellNested w)
    (hz : WellNested z) (hw' : WellNested w') (hz' : WellNested z') :
    Alike (w ++ openParen :: (z ++ x)) (w' ++ openParen :: (z' ++ y)) := by
  intro depth offset
  rw [matchingFrom_append hw, matchingFrom_openParen, matchingFrom_append hz,
    matchingFrom_append hw', matchingFrom_openParen, matchingFrom_append hz', h]
  exact isSome_matchingFrom_congr _ _ _ y

end Paren

namespace Rule

variable {r : Rule}

/-! ### Triggers and heads -/

theorem Unmarked.wellNested_dot_cons {name : String} (h : Unmarked name) :
    Paren.WellNested (Bytes.dot :: Bytes.ofString name) :=
  .cons (by decide) (by decide) (by decide)
    (Paren.wellNested_of_notMem (h.notMem_ofString (c := '(') (by decide))
      (h.notMem_ofString (c := ')') (by decide)) (h.notMem_ofString (c := '\n') (by decide)))

theorem Unmarked.wellNested_append_colon {name : String} (h : Unmarked name) :
    Paren.WellNested (Bytes.ofString name ++ Bytes.ofString ": ") :=
  Paren.wellNested_of_notMem
    (List.not_mem_append (h.notMem_ofString (c := '(') (by decide)) (by decide))
    (List.not_mem_append (h.notMem_ofString (c := ')') (by decide)) (by decide))
    (List.not_mem_append (h.notMem_ofString (c := '\n') (by decide)) (by decide))

/-- A head opens what a trigger opens. -/
theorem Plain.alike_head_append (h : r.Plain) {x y : Bytes} (hxy : Paren.Alike x y) :
    Paren.Alike (r.head ++ x) (r.trigger ++ y) := by
  have hopened := hxy.opened h.replacement.wellNested_dot_cons h.label.wellNested_append_colon
    h.method.wellNested_dot_cons .nil
  rw [head_eq, headTail, trigger_eq, triggerTail]
  simpa using hopened

/-! ### From trigger to trigger -/

/-- A text has no trigger, or it goes on behind its first trigger. -/
theorem balanced_induction (r : Rule) {motive : Bytes → Prop}
    (plain : ∀ t, (∀ p, ¬ r.trigger <+: t.drop p) → motive t)
    (trigger : ∀ before rest, r.NoTriggerIn before (r.trigger ++ rest) → motive rest →
      motive (before ++ (r.trigger ++ rest)))
    (t : Bytes) : motive t := by
  induction hn : t.length using Nat.strong_induction_on generalizing t with
  | _ n ih =>
    cases hcut : Bytes.cut? r.trigger t with
    | none => exact plain t (Bytes.not_isPrefix_of_cut?_eq_none hcut)
    | some q =>
      obtain ⟨before, rest⟩ := q
      have hlen := Bytes.length_add_le_of_cut? hcut
      have hpos := r.length_trigger_pos
      rw [Bytes.eq_of_cut? hcut]
      exact trigger before rest (noTriggerIn_of_cut? hcut) (ih rest.length (by omega) rest rfl)

theorem balanced_eq_kept (h : r.ParenFree) {t : Bytes} (hnot : ∀ p, ¬ r.trigger <+: t.drop p) :
    r.balanced t = .kept t := by
  rw [balanced_eq_editCalls h, editCalls_eq_kept fun p hcall => hnot p hcall.1]

/-- A trigger becomes a head exactly when it is closed on its line. -/
theorem balanced_trigger_append (h : r.ParenFree) (rest : Bytes) :
    r.balanced (r.trigger ++ rest) =
      (if (Paren.matching? rest).isSome then .opened r else .kept r.trigger) ++
        r.balanced rest := by
  rw [balanced_eq_editCalls h, balanced_eq_editCalls h, editCalls_trigger_append h]

/-! ### Two passes -/

/-- A pass closes what was closed before, and nothing else. -/
theorem Plain.alike_text_balanced (h : r.Plain) (t : Bytes) :
    Paren.Alike (r.balanced t).text t := by
  induction t using balanced_induction r with
  | plain t hnot =>
    rw [balanced_eq_kept h.parenFree hnot]
    exact .refl t
  | trigger before rest hbefore ih =>
    rw [balanced_append hbefore, balanced_trigger_append h.parenFree]
    refine Paren.Alike.append_left ?_ before
    split
    · exact h.alike_head_append ih
    · exact ih.append_left r.trigger

/-- A second pass replaces nothing. -/
theorem Plain.balanced_text_balanced (h : r.Plain) (t : Bytes) :
    r.balanced (r.balanced t).text = .kept (r.balanced t).text := by
  induction t using balanced_induction r with
  | plain t hnot => rw [balanced_eq_kept h.parenFree hnot, Edit.text_kept,
      balanced_eq_kept h.parenFree hnot]
  | trigger before rest hbefore ih =>
    rw [balanced_append hbefore, balanced_trigger_append h.parenFree]
    by_cases hclosed : (Paren.matching? rest).isSome
    · -- the head is no trigger, and the rest is as the first pass left it
      rw [if_pos hclosed]
      show r.balanced (before ++ (r.head ++ (r.balanced rest).text)) = _
      rw [balanced_append (h.noTriggerIn_before_head hbefore _),
        balanced_append (h.noTriggerIn_head _), ih]
      rfl
    · -- the trigger that was left is not closed now either
      have hopen : ¬ (Paren.matching? (r.balanced rest).text).isSome := by
        rwa [(h.alike_text_balanced rest).isSome_matching?]
      rw [if_neg hclosed]
      show r.balanced (before ++ (r.trigger ++ (r.balanced rest).text)) = _
      rw [balanced_append (h.noTriggerIn_before_trigger hbefore _),
        balanced_trigger_append h.parenFree, if_neg hopen, ih]
      rfl

theorem Plain.text_apply_balanced_twice (h : r.Plain) (t : Bytes) :
    (r.apply .balanced (r.apply .balanced t).text).text = (r.apply .balanced t).text := by
  rw [apply, apply, h.balanced_text_balanced, Edit.text_kept]

end Rule

end CallMigration
