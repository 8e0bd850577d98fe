import Mathlib.Algebra.GroupWithZero.Nat
import CallMigration.Proofs.Shallow

/-!
# Editing line by line

A method without a line break makes a trigger without one, and the end of a call is only looked for
on the line of the trigger. So what stands behind a line break changes nothing in front of it, and
a text is edited line by line, whatever else the names of the rule hold.

## Main Definitions

* `Rule.OneLine` — the method holds no line break

## Main Statements

* `Paren.first?_append_newline_cons`, `Paren.matching?_append_newline_cons` — a call is closed in
  front of a line break or not at all
* `Rule.apply_append_newline_cons` — a text and another one on the lines below are edited apart
* `Rule.apply_eq_intercalate` — a text is edited line by line

## Design Notes

The method may hold parentheses, so triggers may overlap here, and the edits are followed step by
step: each step finds the same trigger and the same end in the text with the lines below as in the
text without them.
-/

namespace CallMigration

/-! ### Ends of calls -/

namespace Paren

open Bytes

/-- A call has its first `)` in front of a line break or not at all. -/
theorem first?_append_newline_cons (x y : Bytes) : first? (x ++ newline :: y) = first? x := by
  induction x with
  | nil => rw [List.nil_append, first?_newline_cons]; rfl
  | cons b x ih =>
    by_cases hclose : b = closeParen
    · rw [hclose, List.cons_append, first?_closeParen_cons, first?_closeParen_cons]
    · by_cases hline : b = newline
      · rw [hline, List.cons_append, first?_newline_cons, first?_newline_cons]
      · rw [List.cons_append, first?_cons_of_ne hclose hline, first?_cons_of_ne hclose hline, ih]

theorem matchingFrom_append_newline_cons (depth offset : Nat) (x y : Bytes) :
    matchingFrom depth offset (x ++ newline :: y) = matchingFrom depth offset x := by
  fun_induction matchingFrom depth offset x with
  | case1 depth offset => simp [matchingFrom, show newline ≠ openParen by decide,
      show newline ≠ closeParen by decide]
  | case2 depth offset t ih => rw [List.cons_append, matchingFrom_openParen, ih]
  | case3 offset t => rw [List.cons_append, matchingFrom_zero_closeParen]
  | case4 offset t depth _ ih => rw [List.cons_append, matchingFrom_succ_closeParen, ih]
  | case5 depth offset t => simp [matchingFrom, *]
  | case6 depth offset b t hopen hclose hline ih =>
    rw [List.cons_append, matchingFrom_cons_of_ne hopen hclose hline, ih]

/-- A call has its matching `)` in front of a line break or not at all. -/
theorem matching?_append_newline_cons (x y : Bytes) :
    matching? (x ++ newline :: y) = matching? x :=
  matchingFrom_append_newline_cons 0 0 x y

end Paren

/-! ### Cuts -/

namespace Bytes

variable {w a b : Bytes} {c : UInt8}

/-- A byte that the word does not hold, and what follows it, leave the first cut where it is. -/
theorem cut?_append_cons_of_some (hc : c ∉ w) {before rest : Bytes}
    (hcut : cut? w a = some (before, rest)) (b : Bytes) :
    cut? w (a ++ c :: b) = some (before, rest ++ c :: b) := by
  have ha := eq_of_cut? hcut
  have hnot : ∀ p < before.length, ¬ w <+: (before ++ (w ++ (rest ++ c :: b))).drop p := by
    intro p hp hstart
    refine not_isPrefix_of_lt_cut? hcut hp ?_
    refine isPrefix_of_isPrefix_append_cons (b := b) ?_ hc
    rw [← List.drop_append_of_le_length (by rw [ha, List.length_append]; omega), ha]
    simpa using hstart
  rw [ha, List.append_assoc, List.append_assoc, cut?_append _ hnot, cut?_append_self]
  simp

/-- The word starts nowhere in a text that it cannot cut, nor at a byte behind it that the word does
not hold. -/
theorem not_isPrefix_drop_append_cons (hc : c ∉ w) (hcut : cut? w a = none) (b : Bytes)
    {p : Nat} (hp : p < (a ++ [c]).length) : ¬ w <+: (a ++ [c] ++ b).drop p := by
  intro hstart
  have hp : p ≤ a.length := by simpa using Nat.le_of_lt_succ (by simpa using hp)
  rw [List.append_assoc, List.drop_append_of_le_length hp] at hstart
  exact not_isPrefix_of_cut?_eq_none hcut p (isPrefix_of_isPrefix_append_cons hstart hc)

end Bytes

namespace Rule

variable {r : Rule}

/-! ### One step -/

/-- The method holds no line break. -/
def OneLine (r : Rule) : Prop := '\n' ∉ r.method.toList

instance oneLineDecidable (r : Rule) : Decidable r.OneLine :=
  inferInstanceAs (Decidable (_ ∉ _))

theorem OneLine.newline_notMem_trigger (h : r.OneLine) : Bytes.newline ∉ r.trigger :=
  notMem_trigger (Bytes.notMem_ofString (c := '\n') (by decide) h) (by decide) (by decide)

theorem OneLine.noTriggerIn (h : r.OneLine) {a : Bytes} (hcut : Bytes.cut? r.trigger a = none)
    (b : Bytes) : r.NoTriggerIn (a ++ [Bytes.newline]) b := fun _ hp =>
  Bytes.not_isPrefix_drop_append_cons h.newline_notMem_trigger hcut b hp

/-! ### Both modes -/

theorem OneLine.shallow_append_newline_cons (h : r.OneLine) (a b : Bytes) :
    r.shallow (a ++ Bytes.newline :: b) =
      r.shallow a ++ (.kept [Bytes.newline] ++ r.shallow b) := by
  fun_induction shallow r a with
  | case1 a hcut =>
    rw [List.append_cons, shallow_append (h.noTriggerIn hcut b), Edit.kept_append,
      Edit.append_assoc]
  | case2 a before rest hcut i hclose ih =>
    have hi : i + 1 ≤ rest.length := Paren.lt_of_first? hclose
    have hcut' := Bytes.cut?_append_cons_of_some h.newline_notMem_trigger hcut b
    have hclose' : Paren.first? (rest ++ Bytes.newline :: b) = some i := by
      rw [Paren.first?_append_newline_cons, hclose]
    rw [shallow_eq, hcut']
    simp only [hclose']
    rw [List.take_append_of_le_length (Nat.le_of_succ_le hi), List.drop_append_of_le_length hi, ih]
    simp only [Edit.append_assoc]
  | case3 a before rest hcut hclose ih =>
    have hcut' := Bytes.cut?_append_cons_of_some h.newline_notMem_trigger hcut b
    have hclose' : Paren.first? (rest ++ Bytes.newline :: b) = none := by
      rw [Paren.first?_append_newline_cons, hclose]
    rw [shallow_eq, hcut']
    simp only [hclose']
    rw [← List.append_assoc, ih]
    simp only [Edit.append_assoc]

theorem OneLine.balanced_append_newline_cons (h : r.OneLine) (a b : Bytes) :
    r.balanced (a ++ Bytes.newline :: b) =
      r.balanced a ++ (.kept [Bytes.newline] ++ r.balanced b) := by
  fun_induction balanced r a with
  | case1 a hcut =>
    rw [List.append_cons, balanced_append (h.noTriggerIn hcut b), Edit.kept_append,
      Edit.append_assoc]
  | case2 a before rest hcut i hclose _ ih =>
    -- the argument is the same text, so only what stands behind the call reaches the line break
    have hi : i + 1 ≤ rest.length := Paren.lt_of_matching? hclose
    have hcut' := Bytes.cut?_append_cons_of_some h.newline_notMem_trigger hcut b
    have hclose' : Paren.matching? (rest ++ Bytes.newline :: b) = some i := by
      rw [Paren.matching?_append_newline_cons, hclose]
    rw [balanced_eq, hcut']
    simp only [hclose']
    rw [List.take_append_of_le_length (Nat.le_of_succ_le hi), List.drop_append_of_le_length hi, ih]
    simp only [Edit.append_assoc]
  | case3 a before rest hcut hclose ih =>
    have hcut' := Bytes.cut?_append_cons_of_some h.newline_notMem_trigger hcut b
    have hclose' : Paren.matching? (rest ++ Bytes.newline :: b) = none := by
      rw [Paren.matching?_append_newline_cons, hclose]
    rw [balanced_eq, hcut']
    simp only [hclose']
    rw [ih]
    simp only [Edit.append_assoc]

/-- A text and another one on the lines below it are edited apart. -/
theorem OneLine.apply_append_newline_cons (h : r.OneLine) (mode : Mode) (a b : Bytes) :
    r.apply mode (a ++ Bytes.newline :: b) =
      r.apply mode a ++ (.kept [Bytes.newline] ++ r.apply mode b) := by
  cases mode with
  | shallow => exact h.shallow_append_newline_cons a b
  | balanced => exact h.balanced_append_newline_cons a b

/-! ### Line by line -/

theorem OneLine.apply_intercalate (h : r.OneLine) (mode : Mode) (lines : List Bytes) :
    (r.apply mode ([Bytes.newline].intercalate lines)).text =
        [Bytes.newline].intercalate (lines.map fun line => (r.apply mode line).text) ∧
      (r.apply mode ([Bytes.newline].intercalate lines)).replacements =
        (lines.map fun line => (r.apply mode line).replacements).sum := by
  induction lines with
  | nil =>
    rw [List.intercalate_nil, apply_nil]
    exact ⟨rfl, rfl⟩
  | cons line lines ih =>
    cases lines with
    | nil => simp [List.intercalate_singleton]
    | cons below lines =>
      obtain ⟨htext, hcount⟩ := ih
      rw [List.intercalate_cons_cons, List.append_assoc, List.singleton_append,
        h.apply_append_newline_cons]
      rw [List.map_cons] at htext hcount
      simp only [List.map_cons, List.intercalate_cons_cons, List.sum_cons, Edit.text_append,
        Edit.replacements_append, Edit.text_kept, Edit.replacements_kept, htext, hcount,
        List.append_assoc, Nat.zero_add, true_and]

/-- In both modes a line break parts a text: the text in front of it and the text behind it are
edited as if they stood alone, and their replacements add up. So a text is edited line by line. -/
theorem apply_eq_intercalate (h : r.OneLine) (mode : Mode) :
    (∀ a b : Bytes,
      (r.apply mode (a ++ [Bytes.newline] ++ b)).text =
          (r.apply mode a).text ++ [Bytes.newline] ++ (r.apply mode b).text ∧
        (r.apply mode (a ++ [Bytes.newline] ++ b)).replacements =
          (r.apply mode a).replacements + (r.apply mode b).replacements) ∧
      ∀ t : Bytes,
        (r.apply mode t).text =
            [Bytes.newline].intercalate
              ((t.splitOn Bytes.newline).map fun line => (r.apply mode line).text) ∧
          (r.apply mode t).replacements =
            ((t.splitOn Bytes.newline).map fun line => (r.apply mode line).replacements).sum := by
  constructor
  · intro a b
    rw [List.append_assoc, List.singleton_append, h.apply_append_newline_cons]
    simp
  · intro t
    have hlines := h.apply_intercalate mode (t.splitOn Bytes.newline)
    rwa [List.intercalate_splitOn] at hlines

/-- A call that is open at the end of its line is not closed by the `)` below it. -/
theorem apply_eq_intercalate_open_call :
    let a := Bytes.ofString "a.withOpacity(f(x)"
    let b := Bytes.ofString ");\nb.withOpacity(y)"
    withOpacity.OneLine ∧
      (withOpacity.apply .balanced (a ++ [Bytes.newline] ++ b)).text =
          Bytes.ofString "a.withOpacity(f(x)\n);\nb.withValues(alpha: y)" ∧
        (withOpacity.apply .balanced (a ++ [Bytes.newline] ++ b)).replacements = 1 := by
  intro a b
  have hline : withOpacity.OneLine := by decide
  have hparts := (apply_eq_intercalate hline .balanced).1 a b
  refine ⟨hline, ?_, ?_⟩
  · rw [hparts.1]
    decide +kernel
  · rw [hparts.2]
    decide +kernel

end Rule

end CallMigration
