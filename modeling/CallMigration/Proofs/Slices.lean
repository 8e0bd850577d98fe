import CallMigration.Proofs.Balanced
import CallMigration.Proofs.Validity

/-!
# Balanced editing by slices

Balanced editing cuts its text at offsets: at the trigger, behind it, at the `)` and behind it. A
slice of a string has to lie in the string and to start and end between characters, a count of open
parentheses cannot go below zero, and a recursion has to end. Here the edit is made by slices that
are refused where this is not so, and on well-formed texts nothing is refused.

## Main Definitions

* `Utf8.IsBoundary` — an offset at which a slice may start or end
* `Utf8.slice?` — the slice between two offsets, if they are boundaries in order
* `Paren.closing?` — the matching `)`, unless the depth goes below zero
* `Rule.balancedBySlices?` — the balanced edit by slices

## Main Statements

* `Utf8.isBoundary_iff` — boundaries are the offsets with well-formed texts on both sides
* `Paren.closing?_eq` — the depth never goes below zero
* `Rule.balancedBySlices?_eq_none` — a text that is refused, as it is not well formed
* `Rule.apply_balanced_by_slices` — no slice is refused, and what comes out is well formed

## Design Notes

Whether an offset is a boundary is decided by the byte at the offset alone: it must not be one that
continues a character. An edit is refused as a whole if a part of it is, in the argument of a call
or in what follows the call. It is also refused where it would go on with a text that is not
shorter.
-/

namespace CallMigration

namespace Utf8

variable {a b c t : Bytes} {i j : Nat}

/-! ### Boundaries -/

/-- A slice of `t` may start or end at an offset: it is one of the two ends of `t`, or the byte
there does not continue a character. -/
def IsBoundary (t : Bytes) (i : Nat) : Prop :=
  i = 0 ∨ i = t.length ∨ ∃ x ∈ t[i]?, ¬ trailing.Holds x

instance isBoundaryDecidable (t : Bytes) (i : Nat) : Decidable (IsBoundary t i) :=
  inferInstanceAs (Decidable (_ ∨ _ ∨ _))

/-- The boundaries of a well-formed text are the offsets that divide it into two well-formed
ones. -/
theorem isBoundary_iff (h : Valid t) :
    IsBoundary t i ↔ i ≤ t.length ∧ Valid (t.take i) ∧ Valid (t.drop i) := by
  constructor
  · rintro (rfl | rfl | ⟨x, hx, hnot⟩)
    · exact ⟨Nat.zero_le _, rfl, h⟩
    · rw [List.take_length, List.drop_length]
      exact ⟨Nat.le_refl _, h, rfl⟩
    · obtain ⟨hlt, rfl⟩ := List.getElem?_eq_some_iff.1 hx
      rw [← List.take_append_drop i t, List.drop_eq_getElem_cons hlt] at h
      rw [List.drop_eq_getElem_cons hlt]
      exact ⟨Nat.le_of_lt hlt, h.of_append_cons hnot⟩
  · rintro ⟨hle, -, hdrop⟩
    obtain hlt | heq := Nat.lt_or_eq_of_le hle
    · rw [List.drop_eq_getElem_cons hlt] at hdrop
      exact .inr (.inr ⟨t[i], List.getElem?_eq_getElem hlt, hdrop.not_trailing_holds⟩)
    · exact .inr (.inl heq)

theorem isBoundary_append (ha : Valid a) (hb : Valid b) : IsBoundary (a ++ b) a.length := by
  rw [isBoundary_iff (ha.append hb), List.take_left, List.drop_left, List.length_append]
  exact ⟨Nat.le_add_right _ _, ha, hb⟩

/-! ### Slices -/

/-- The slice of `t` between two offsets, if they are boundaries of `t` and in order. -/
def slice? (t : Bytes) (i j : Nat) : Option Bytes :=
  if i ≤ j ∧ j ≤ t.length ∧ IsBoundary t i ∧ IsBoundary t j then some ((t.take j).drop i) else none

/-- A slice is given exactly between boundaries in order. -/
theorem slice?_eq_some_iff :
    slice? t i j = some b ↔
      (i ≤ j ∧ j ≤ t.length ∧ IsBoundary t i ∧ IsBoundary t j) ∧ (t.take j).drop i = b := by
  rw [slice?, Option.ite_none_right_eq_some, Option.some.injEq]

/-- Between well-formed texts a slice is given. -/
theorem slice?_append (ha : Valid a) (hb : Valid b) (hc : Valid c) (ht : t = a ++ (b ++ c))
    (hi : i = a.length) (hj : j = a.length + b.length) : slice? t i j = some b := by
  have hfirst : IsBoundary t i := by
    rw [ht, hi]
    exact isBoundary_append ha (hb.append hc)
  have hsecond : IsBoundary t j := by
    rw [ht, hj, ← List.append_assoc, ← List.length_append]
    exact isBoundary_append (ha.append hb) hc
  rw [slice?_eq_some_iff]
  refine ⟨⟨by omega, ?_, hfirst, hsecond⟩, ?_⟩
  · rw [ht, hj]
    simp only [List.length_append]
    omega
  · rw [ht, hi, hj, ← List.append_assoc, ← List.length_append, List.take_left, List.drop_left]

end Utf8

/-! ### The depth -/

namespace Paren

open Bytes

/-- Scans with `depth` parentheses open inside the argument. Nothing comes out when `depth` goes
below zero. -/
def closingFrom? (depth : Int) (offset : Nat) : Bytes → Option (Option Nat)
  | [] => if depth < 0 then none else some none
  | b :: t =>
    if depth < 0 then none
    else if b = openParen then closingFrom? (depth + 1) (offset + 1) t
    else if b = closeParen ∧ depth = 0 then some (some offset)
    else if b = closeParen then closingFrom? (depth - 1) (offset + 1) t
    else if b = newline then some none
    else closingFrom? depth (offset + 1) t

/-- The offset of the `)` that closes a call which is open before `t`. -/
def closing? (t : Bytes) : Option (Option Nat) := closingFrom? 0 0 t

theorem closingFrom?_eq (depth offset : Nat) (t : Bytes) :
    closingFrom? depth offset t = some (matchingFrom depth offset t) := by
  have hnonneg : ∀ depth : Nat, ¬ (depth : Int) < 0 := fun depth => by omega
  fun_induction matchingFrom depth offset t with
  | case1 depth offset => rw [closingFrom?, if_neg (hnonneg depth)]
  | case2 depth offset t ih =>
    rw [closingFrom?, if_neg (hnonneg depth), if_pos rfl]
    exact ih
  | case3 offset t hopen =>
    rw [closingFrom?, if_neg (hnonneg 0), if_neg hopen, if_pos ⟨rfl, rfl⟩]
  | case4 offset t depth hopen ih =>
    -- the depth is counted down where it is positive
    rw [closingFrom?, if_neg (hnonneg _), if_neg hopen, if_neg (by omega), if_pos rfl,
      Int.natCast_succ, Int.add_sub_cancel]
    exact ih
  | case5 depth offset t hopen hclose =>
    rw [closingFrom?, if_neg (hnonneg depth), if_neg hopen, if_neg (mt And.left hclose),
      if_neg hclose, if_pos rfl]
  | case6 depth offset b t hopen hclose hline ih =>
    rw [closingFrom?, if_neg (hnonneg depth), if_neg hopen, if_neg (mt And.left hclose),
      if_neg hclose, if_neg hline]
    exact ih

/-- The depth never goes below zero, in any text. -/
theorem closing?_eq (t : Bytes) : closing? t = some (matching? t) := closingFrom?_eq 0 0 t

end Paren

/-! ### Editing -/

/-- The offset at which a word occurs first. -/
def Bytes.find? (w t : Bytes) : Option Nat := (cut? w t).map fun p => p.1.length

namespace Rule

/-- The balanced edit of a text by slices of it. Nothing comes out unless all of them are given, the
depth does not go below zero, and the edit goes on with shorter texts only. -/
def balancedBySlices? (r : Rule) (t : Bytes) : Option Edit :=
  match Bytes.find? r.trigger t with
  | none => some (.kept t)
  | some start => do
    let openEnd := start + r.trigger.length
    let before ← Utf8.slice? t 0 start
    let behind ← Utf8.slice? t openEnd t.length
    match ← Paren.closing? behind with
    | some close =>
      let argument ← Utf8.slice? t openEnd (openEnd + close)
      let rest ← Utf8.slice? t (openEnd + close + 1) t.length
      if _hshorter : argument.length < t.length ∧ rest.length < t.length then
        let edited ← balancedBySlices? r argument
        let more ← balancedBySlices? r rest
        some (.kept before ++ (.call r edited ++ more))
      else none
    | none =>
      let unclosed ← Utf8.slice? t start openEnd
      if _hshorter : behind.length < t.length then
        let more ← balancedBySlices? r behind
        some (.kept (before ++ unclosed) ++ more)
      else none
  termination_by t.length
  decreasing_by all_goals omega

variable {r : Rule} {t : Bytes}

theorem valid_trigger (r : Rule) : Utf8.Valid r.trigger := by
  rw [trigger, Utf8.valid_cons_iff (by decide), Utf8.valid_append_cons_iff (by decide)]
  exact ⟨Utf8.valid_ofString r.method, rfl⟩

/-- A text that is not well formed is refused where the slice behind a trigger would start with a
byte that continues a character. -/
theorem balancedBySlices?_eq_none {x : UInt8} (hx : Utf8.trailing.Holds x) (rest : Bytes) :
    r.balancedBySlices? (r.trigger ++ x :: rest) = none := by
  have hnot : ¬ Utf8.IsBoundary (r.trigger ++ x :: rest) r.trigger.length := by
    rintro (hzero | hend | ⟨y, hy, hnot⟩)
    · exact Nat.ne_of_gt r.length_trigger_pos hzero
    · simp at hend
    · obtain rfl : x = y := by simpa using hy
      exact hnot hx
  have hbehind : Utf8.slice? (r.trigger ++ x :: rest) r.trigger.length
      (r.trigger ++ x :: rest).length = none :=
    if_neg fun hslice => hnot hslice.2.2.1
  rw [balancedBySlices?, Bytes.find?, Bytes.cut?_append_self]
  simp only [Option.map_some, List.length_nil, Nat.zero_add, Option.bind_eq_bind, hbehind,
    Option.bind_none, Option.bind_fun_none]

/-! ### Slices at a trigger -/

section

variable {before rest : Bytes} (h : Utf8.Valid (before ++ (r.trigger ++ rest)))
include h

theorem slice?_before :
    Utf8.slice? (before ++ (r.trigger ++ rest)) 0 before.length = some before := by
  obtain ⟨hbefore, hrest⟩ := valid_append_trigger_append h
  exact Utf8.slice?_append (a := []) rfl hbefore (r.valid_trigger.append hrest) rfl rfl
    (Nat.zero_add _).symm

theorem slice?_trigger :
    Utf8.slice? (before ++ (r.trigger ++ rest)) before.length
      (before.length + r.trigger.length) = some r.trigger := by
  obtain ⟨hbefore, hrest⟩ := valid_append_trigger_append h
  exact Utf8.slice?_append hbefore r.valid_trigger hrest rfl rfl rfl

theorem slice?_behind :
    Utf8.slice? (before ++ (r.trigger ++ rest)) (before.length + r.trigger.length)
      (before ++ (r.trigger ++ rest)).length = some rest := by
  obtain ⟨hbefore, hrest⟩ := valid_append_trigger_append h
  refine Utf8.slice?_append (a := before ++ r.trigger) (c := []) (hbefore.append r.valid_trigger)
    hrest rfl ?_ ?_ ?_ <;> simp [Nat.add_assoc]

end

section

variable {before u v : Bytes}
  (h : Utf8.Valid (before ++ (r.trigger ++ (u ++ Bytes.closeParen :: v))))
include h

theorem slice?_argument :
    Utf8.slice? (before ++ (r.trigger ++ (u ++ Bytes.closeParen :: v)))
      (before.length + r.trigger.length) (before.length + r.trigger.length + u.length) =
        some u := by
  obtain ⟨hbefore, hbehind⟩ := valid_append_trigger_append h
  obtain ⟨hu, hv⟩ := (Utf8.valid_append_cons_iff (by decide)).1 hbehind
  refine Utf8.slice?_append (a := before ++ r.trigger) (c := Bytes.closeParen :: v)
    (hbefore.append r.valid_trigger) hu ((Utf8.valid_cons_iff (by decide)).2 hv) ?_ ?_ ?_ <;> simp

theorem slice?_rest :
    Utf8.slice? (before ++ (r.trigger ++ (u ++ Bytes.closeParen :: v)))
      (before.length + r.trigger.length + u.length + 1)
      (before ++ (r.trigger ++ (u ++ Bytes.closeParen :: v))).length = some v := by
  obtain ⟨hbefore, hbehind⟩ := valid_append_trigger_append h
  obtain ⟨hu, hv⟩ := (Utf8.valid_append_cons_iff (by decide)).1 hbehind
  have hcall : Utf8.Valid (before ++ (r.trigger ++ (u ++ [Bytes.closeParen]))) :=
    hbefore.append (r.valid_trigger.append (hu.append rfl))
  refine Utf8.slice?_append (c := []) hcall hv rfl ?_ ?_ ?_ <;>
    simp [Nat.add_assoc, Nat.add_comm 1]

end

/-- Of a well-formed text nothing is refused. -/
theorem balancedBySlices?_eq_some (h : Utf8.Valid t) :
    r.balancedBySlices? t = some (r.balanced t) := by
  fun_induction Rule.balanced r t with
  | case1 t hcut =>
    rw [balancedBySlices?, Bytes.find?, hcut]
    rfl
  | case2 t before rest hcut i hclose ihargument ihrest =>
    obtain ⟨u, v, rfl, rfl, -⟩ := Paren.matching?_eq_some_iff.1 hclose
    rw [List.take_left] at ihargument ⊢
    rw [Bytes.drop_append_cons] at ihrest ⊢
    obtain rfl := Bytes.eq_of_cut? hcut
    obtain ⟨-, hbehind⟩ := valid_append_trigger_append h
    obtain ⟨hu, hv⟩ := (Utf8.valid_append_cons_iff (by decide)).1 hbehind
    have hshorter : u.length < (before ++ (r.trigger ++ (u ++ Bytes.closeParen :: v))).length ∧
        v.length < (before ++ (r.trigger ++ (u ++ Bytes.closeParen :: v))).length := by
      simp only [List.length_append, List.length_cons]
      omega
    rw [balancedBySlices?, Bytes.find?, hcut]
    simp only [Option.map_some, Option.bind_eq_bind, slice?_before h, slice?_behind h,
      slice?_argument h, slice?_rest h, Option.bind_some, Paren.closing?_eq, hclose]
    rw [dif_pos hshorter, ihargument hu, ihrest hv]
    rfl
  | case3 t before rest hcut hclose ih =>
    obtain rfl := Bytes.eq_of_cut? hcut
    obtain ⟨-, hrest⟩ := valid_append_trigger_append h
    have hshorter : rest.length < (before ++ (r.trigger ++ rest)).length := by
      have := r.length_trigger_pos
      simp only [List.length_append]
      omega
    rw [balancedBySlices?, Bytes.find?, hcut]
    simp only [Option.map_some, Option.bind_eq_bind, slice?_before h, slice?_behind h,
      slice?_trigger h, Option.bind_some, Paren.closing?_eq, hclose]
    rw [dif_pos hshorter, ih hrest]
    rfl

/-- On every well-formed text, balanced editing takes slices only that lie in the text and start and
end between characters, in the loop and in every argument. The depth never goes below zero, each
step of the loop and each argument is a shorter text, and the edit is well formed. -/
theorem apply_balanced_by_slices (r : Rule) (h : Utf8.Valid t) :
    r.balancedBySlices? t = some (r.apply .balanced t) ∧
      Utf8.Valid (r.apply .balanced t).text :=
  ⟨balancedBySlices?_eq_some h, valid_text_apply r .balanced h⟩

/-- Characters of several bytes stand before a call, in its argument, and behind an unclosed one. -/
theorem apply_balanced_by_slices_accented :
    let t := Bytes.ofString "é.withOpacity(f(\"ü\"));\n✓.withOpacity(é"
    Utf8.Valid t ∧
      withOpacity.balancedBySlices? t =
        some ⟨Bytes.ofString "é.withValues(alpha: f(\"ü\"));\n✓.withOpacity(é", 1⟩ := by
  intro t
  have ht : Utf8.Valid t := by decide
  refine ⟨ht, (apply_balanced_by_slices withOpacity ht).1.trans ?_⟩
  decide +kernel

end Rule

end CallMigration
