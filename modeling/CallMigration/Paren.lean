import CallMigration.Bytes

/-!
# Closing parentheses

Two ways to find where the argument of a call ends, given the text after its opening parenthesis.
Neither looks beyond the line.

## Main Definitions

* `Paren.first?` — the offset of the first `)` on the line
* `Paren.matching?` — the offset of the `)` that closes the call when nesting is counted
* `Paren.WellNested` — the texts that `matching?` passes over

## Design Notes

Offsets count bytes. `)` and the newline are single bytes below `0x80`, so neither is ever part of
a longer character, and cutting at an offset found here never splits one.
-/

namespace CallMigration

namespace Paren

open Bytes

/-! ### The first closing parenthesis -/

/-- Scans for the first `)` before the end of the line. -/
def firstFrom (offset : Nat) : Bytes → Option Nat
  | [] => none
  | b :: t =>
    if b = closeParen then some offset
    else if b = newline then none
    else firstFrom (offset + 1) t

/-- The offset of the first `)` on the line. -/
def first? (t : Bytes) : Option Nat := firstFrom 0 t

/-! ### The matching closing parenthesis -/

/-- Scans with `depth` parentheses open inside the argument. -/
def matchingFrom (depth offset : Nat) : Bytes → Option Nat
  | [] => none
  | b :: t =>
    if b = openParen then matchingFrom (depth + 1) (offset + 1) t
    else if b = closeParen then
      match depth with
      | 0 => some offset
      | depth + 1 => matchingFrom depth (offset + 1) t
    else if b = newline then none
    else matchingFrom depth (offset + 1) t

/-- The offset of the `)` that closes a call which is open before `t`. -/
def matching? (t : Bytes) : Option Nat := matchingFrom 0 0 t

/-- Texts on one line whose parentheses pair up. -/
inductive WellNested : Bytes → Prop
  /-- Nothing is well nested. -/
  | nil : WellNested []
  /-- A byte that is no parenthesis and ends no line may stand in front. -/
  | cons {b : UInt8} {t : Bytes} (hopen : b ≠ openParen) (hclose : b ≠ closeParen)
      (hline : b ≠ newline) (ht : WellNested t) : WellNested (b :: t)
  /-- A well-nested text in parentheses may stand in front. -/
  | paren {s t : Bytes} (hs : WellNested s) (ht : WellNested t) :
      WellNested (openParen :: (s ++ closeParen :: t))

/-! ### Offsets lie in the text -/

theorem lt_of_firstFrom {offset : Nat} {t : Bytes} {i : Nat} (h : firstFrom offset t = some i) :
    i < offset + t.length := by
  fun_induction firstFrom offset t with
  | case1 => simp at h
  | case2 offset t => simp only [Option.some.injEq] at h; simp; omega
  | case3 => simp at h
  | case4 offset b t _ _ ih => have := ih h; simp; omega

theorem lt_of_first? {t : Bytes} {i : Nat} (h : first? t = some i) : i < t.length := by
  simpa using lt_of_firstFrom h

theorem lt_of_matchingFrom {depth offset : Nat} {t : Bytes} {i : Nat}
    (h : matchingFrom depth offset t = some i) : i < offset + t.length := by
  fun_induction matchingFrom depth offset t with
  | case1 => simp at h
  | case2 depth offset t ih => have := ih h; simp; omega
  | case3 offset t _ => simp only [Option.some.injEq] at h; simp; omega
  | case4 offset t depth _ ih => have := ih h; simp; omega
  | case5 => simp at h
  | case6 depth offset b t _ _ _ ih => have := ih h; simp; omega

theorem lt_of_matching? {t : Bytes} {i : Nat} (h : matching? t = some i) : i < t.length := by
  simpa using lt_of_matchingFrom h

end Paren

end CallMigration
