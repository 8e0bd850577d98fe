/-!
# Byte texts

File contents, paths, globs and arguments are sequences of bytes: a file may hold any bytes, and
an offset in a message counts bytes.

## Main Definitions

* `Bytes` — a sequence of bytes
* `Bytes.ofString` — the UTF-8 form of a string
* `Bytes.after?` — what follows a given beginning
* `Bytes.cut?` — the text on both sides of the first place where a word occurs

## Design Notes

`Bytes.cut?` collects what it passes over in an accumulator, so that a long text costs no stack.
`Bytes.cut?_cons` states it without the accumulator, and `Bytes.eq_of_cut?` says that nothing of
the text is lost.
-/

namespace CallMigration

/-- A sequence of bytes. -/
abbrev Bytes := List UInt8

namespace Bytes

/-- The UTF-8 form of a string. -/
def ofString (s : String) : Bytes := s.toUTF8.data.toList

/-- The string whose UTF-8 form these bytes are. -/
def toString? (t : Bytes) : Option String := String.fromUTF8? ⟨t.toArray⟩

/-! ### Bytes with a meaning -/

/-- The byte `.`. -/
def dot : UInt8 := 0x2E

/-- The byte `/`. -/
def slash : UInt8 := 0x2F

/-- The byte `(`. -/
def openParen : UInt8 := 0x28

/-- The byte `)`. -/
def closeParen : UInt8 := 0x29

/-- The byte that ends a line. -/
def newline : UInt8 := 0x0A

/-- The digits `0` to `9`. -/
def isDigit (b : UInt8) : Bool := 0x30 ≤ b && b ≤ 0x39

/-! ### Beginnings -/

/-- What follows `w` in a text that starts with `w`. -/
def after? : (w t : Bytes) → Option Bytes
  | [], t => some t
  | _ :: _, [] => none
  | a :: w, b :: t => if a = b then after? w t else none

/-- A text starts with `w` and continues with `rest` exactly when it is their concatenation. -/
theorem after?_eq_some_iff {w t rest : Bytes} : after? w t = some rest ↔ t = w ++ rest := by
  fun_induction after? w t with
  | case1 t => simp [eq_comm]
  | case2 => simp
  | case3 a w t ih => simpa using ih
  | case4 a w b t h => simp [Ne.symm h]

/-! ### The first occurrence of a word -/

/-- The first occurrence behind `before`, which holds what was passed over, last byte first. -/
def cutFrom (w before : Bytes) : Bytes → Option (Bytes × Bytes)
  | [] => if w = [] then some (before.reverse, []) else none
  | b :: t =>
    match after? w (b :: t) with
    | some rest => some (before.reverse, rest)
    | none => cutFrom w (b :: before) t

/-- The text before and the text after the first occurrence of `w`. -/
def cut? (w t : Bytes) : Option (Bytes × Bytes) := cutFrom w [] t

theorem cutFrom_eq (w before t : Bytes) :
    cutFrom w before t = (cut? w t).map fun p => (before.reverse ++ p.1, p.2) := by
  induction t generalizing before with
  | nil => unfold cut? cutFrom; split <;> simp
  | cons b t ih =>
    unfold cut? cutFrom
    cases after? w (b :: t) with
    | some rest => simp
    | none => simp [ih (b :: before), ih [b], Function.comp_def]

/-- A text that does not start with the word is cut where its tail is. -/
theorem cut?_cons (w : Bytes) (b : UInt8) (t : Bytes) :
    cut? w (b :: t) =
      match after? w (b :: t) with
      | some rest => some ([], rest)
      | none => (cut? w t).map fun p => (b :: p.1, p.2) := by
  conv => lhs; unfold cut? cutFrom
  cases after? w (b :: t) with
  | some rest => simp
  | none => simp [cutFrom_eq w [b] t]

/-- Cutting loses nothing: the text is what stands before the word, the word, and the rest. -/
theorem eq_of_cut? {w t before rest : Bytes} (h : cut? w t = some (before, rest)) :
    t = before ++ (w ++ rest) := by
  induction t generalizing before with
  | nil =>
    unfold cut? cutFrom at h
    split at h <;> simp_all
  | cons b t ih =>
    rw [cut?_cons] at h
    cases hb : after? w (b :: t) with
    | some r =>
      simp only [hb, Option.some.injEq, Prod.mk.injEq] at h
      obtain ⟨rfl, rfl⟩ := h
      simpa using after?_eq_some_iff.1 hb
    | none =>
      simp only [hb, Option.map_eq_some_iff, Prod.mk.injEq] at h
      obtain ⟨p, hp, rfl, rfl⟩ := h
      simp [ih hp]

/-- What follows an occurrence of a word is shorter than the text by at least the word. -/
theorem length_add_le_of_cut? {w t before rest : Bytes} (h : cut? w t = some (before, rest)) :
    rest.length + w.length ≤ t.length := by
  rw [eq_of_cut? h]
  simp only [List.length_append]
  omega

end Bytes

end CallMigration
