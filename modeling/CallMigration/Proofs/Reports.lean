import Mathlib.Algebra.GroupWithZero.Nat
import Mathlib.Data.List.Induction
import CallMigration.Report

/-!
# The account that a report gives

A report is made outcome by outcome. Behind the last one it lists all but the files that needed no
change, and its summary counts them.

## Main Definitions

* `Summary.ofOutcomes` — the counts over outcomes

## Main Statements

* `Report.ofOutcomes_eq` — what a report lists and counts
* `Report.failed_ofOutcomes_eq_zero_iff` — no failure is counted exactly when there is none
* `Report.failedPaths_ofOutcomes` — which paths a report lists as failed

## Design Notes

The counts are words, so they are those of the outcomes modulo 2⁶⁴.
-/

namespace CallMigration

/-- What an outcome counts towards the replacements. -/
def Outcome.replacements (o : Outcome) : Nat :=
  match o.status with
  | .fixed n => n
  | _ => 0

/-- The counts over outcomes. -/
def Summary.ofOutcomes (outcomes : List Outcome) : Summary where
  scanned := .ofNat outcomes.length
  changed := .ofNat (outcomes.countP Outcome.isFixed)
  failed := .ofNat (outcomes.countP Outcome.isFailed)
  replacements := .ofNat (outcomes.map Outcome.replacements).sum

/-- One more outcome is counted in the same way. -/
theorem Summary.ofOutcomes_concat (outcomes : List Outcome) (o : Outcome) :
    ofOutcomes (outcomes ++ [o]) = (ofOutcomes outcomes).record o := by
  obtain ⟨path, status⟩ := o
  cases status <;>
    simp [ofOutcomes, record, Outcome.isFixed, Outcome.isFailed, Outcome.replacements,
      UInt64.ofNat_add]

/-- The order of the outcomes does not count. -/
theorem Summary.ofOutcomes_perm {outcomes outcomes' : List Outcome} (h : outcomes.Perm outcomes') :
    ofOutcomes outcomes = ofOutcomes outcomes' := by
  rw [ofOutcomes, ofOutcomes, h.length_eq, h.countP_eq, h.countP_eq, (h.map _).sum_nat]

namespace Report

variable {root : Bytes} {dryRun : Bool}

/-- A report lists the outcomes but those of unchanged files, in their order, and counts all. -/
theorem ofOutcomes_eq (root : Bytes) (dryRun : Bool) (outcomes : List Outcome) :
    ofOutcomes root dryRun outcomes =
      { root := root
        dryRun := dryRun
        files := outcomes.filter fun o => o.status ≠ .unchanged
        summary := .ofOutcomes outcomes } := by
  induction outcomes using List.reverseRecOn with
  | nil => rfl
  | append_singleton outcomes o ih =>
    rw [ofOutcomes, List.foldl_append, ← ofOutcomes, ih, Summary.ofOutcomes_concat]
    by_cases h : o.status = .unchanged <;> simp [record, h]

theorem failed_ofOutcomes_eq_zero_iff {outcomes : List Outcome} (h : outcomes.length < 2 ^ 64) :
    (ofOutcomes root dryRun outcomes).summary.failed = 0 ↔
      ∀ o ∈ outcomes, o.isFailed = false := by
  have hcount : outcomes.countP Outcome.isFailed < 2 ^ 64 :=
    Nat.lt_of_le_of_lt List.countP_le_length h
  rw [ofOutcomes_eq, Summary.ofOutcomes]
  simp only [← UInt64.toNat_inj, UInt64.toNat_ofNat', Nat.mod_eq_of_lt hcount, UInt64.toNat_zero,
    List.countP_eq_zero, Bool.not_eq_true]

/-- The failed paths of a report are those of the failed outcomes, in their order. -/
theorem failedPaths_ofOutcomes {outcomes : List Outcome} :
    (ofOutcomes root dryRun outcomes).failedPaths =
      (outcomes.filter Outcome.isFailed).map Outcome.shownPath := by
  rw [ofOutcomes_eq, failedPaths, List.filter_filter]
  congr 1
  refine List.filter_congr fun o _ => ?_
  obtain ⟨path, status⟩ := o
  cases status <;> simp [Outcome.isFailed]

end Report

end CallMigration
