import CallMigration.Proofs.Splice
import CallMigration.Rule.Edit

/-!
# The calls in a text

A call is a trigger whose end is found, whichever way ends are looked for. The offsets of all calls
give an edit of their own: it replaces every call in its place. The two modes are measured against
it.

## Main Definitions

* `Rule.ParenFree` — the method holds no parenthesis
* `Rule.NoTriggerIn` — no trigger starts in a part of a text
* `Rule.CallAt` — a call stands at an offset
* `Rule.calls` — the offsets of all calls in a text
* `Rule.editCalls` — the edit that replaces all calls in their places

## Main Statements

* `Rule.not_isPrefix_drop_trigger_append` — no trigger starts inside a trigger
* `Rule.calls_pairwise` — the places of two calls are apart
* `Rule.editCalls_append_of_iff` — texts whose calls do not depend on each other are edited apart
* `Rule.editCalls_append_trigger_append` — all calls are replaced trigger by trigger

## Design Notes

How the end of a call is found is a parameter, a function from the text behind the trigger to the
offset of the end, if there is one. Only whether there is one matters for the calls.
-/

namespace CallMigration

/-! ### Joining edits -/

namespace Edit

theorem eq_of_text_of_replacements {a b : Edit} (htext : a.text = b.text)
    (hcount : a.replacements = b.replacements) : a = b := by
  cases a
  cases b
  simp_all

theorem append_assoc (a b c : Edit) : a ++ b ++ c = a ++ (b ++ c) :=
  eq_of_text_of_replacements (List.append_assoc _ _ _) (Nat.add_assoc _ _ _)

@[simp] theorem kept_nil_append (a : Edit) : kept [] ++ a = a :=
  eq_of_text_of_replacements rfl (Nat.zero_add _)

@[simp] theorem append_kept_nil (a : Edit) : a ++ kept [] = a :=
  eq_of_text_of_replacements (List.append_nil _) rfl

theorem kept_cons (b : UInt8) (t : Bytes) : kept (b :: t) = kept [b] ++ kept t := rfl

theorem kept_append (s t : Bytes) : kept (s ++ t) = kept s ++ kept t := rfl

/-- The head that replaces a trigger. -/
def opened (r : Rule) : Edit := ⟨r.head, 1⟩

@[simp] theorem replacements_opened (r : Rule) : (opened r).replacements = 1 := rfl

/-- A replaced call is its head, its edited argument, and its `)`. -/
theorem call_eq (r : Rule) (e : Edit) :
    call r e = opened r ++ (e ++ kept [Bytes.closeParen]) :=
  eq_of_text_of_replacements rfl (Nat.add_comm _ 1)

end Edit

namespace Rule

/-! ### Triggers -/

/-- The method holds no parenthesis. -/
def ParenFree (r : Rule) : Prop := '(' ∉ r.method.toList ∧ ')' ∉ r.method.toList

instance parenFreeDecidable (r : Rule) : Decidable r.ParenFree :=
  inferInstanceAs (Decidable (_ ∧ _))

/-- The trigger without its parenthesis. -/
def opening (r : Rule) : Bytes := Bytes.dot :: Bytes.ofString r.method

theorem trigger_eq_opening (r : Rule) : r.trigger = r.opening ++ [Bytes.openParen] := rfl

theorem length_trigger (r : Rule) : r.trigger.length = r.opening.length + 1 := by
  rw [trigger_eq_opening, List.length_append, List.length_singleton]

variable {r : Rule}

theorem openParen_notMem_opening (h : r.ParenFree) : Bytes.openParen ∉ r.opening := by
  have hmethod := Bytes.notMem_ofString (by decide) h.1
  simp only [opening, List.mem_cons, not_or]
  exact ⟨by decide, hmethod⟩

theorem notMem_trigger {b : UInt8} (hmethod : b ∉ Bytes.ofString r.method) (hdot : b ≠ Bytes.dot)
    (hopen : b ≠ Bytes.openParen) : b ∉ r.trigger := by
  simp only [trigger, List.mem_cons, List.mem_append, List.not_mem_nil, or_false, not_or]
  exact ⟨hdot, hmethod, hopen⟩

theorem closeParen_notMem_trigger (h : r.ParenFree) : Bytes.closeParen ∉ r.trigger :=
  notMem_trigger (Bytes.notMem_ofString (by decide) h.2) (by decide) (by decide)

/-- No trigger starts inside a trigger: a trigger holds one opening parenthesis, its last byte. -/
theorem not_isPrefix_drop_trigger_append (h : r.ParenFree) (rest : Bytes) {p : Nat} (hpos : 0 < p)
    (hlt : p < r.trigger.length) : ¬ r.trigger <+: (r.trigger ++ rest).drop p := by
  have hp : p ≤ r.opening.length := by
    rw [length_trigger] at hlt
    exact Nat.le_of_lt_succ hlt
  rw [trigger_eq_opening, List.append_assoc, List.drop_append_of_le_length hp]
  intro hstart
  have hopening := Bytes.isPrefix_of_isPrefix_append_cons
    ((List.prefix_append _ _).trans hstart) (openParen_notMem_opening h)
  have hlen := hopening.length_le
  rw [List.length_drop] at hlen
  omega

/-- No trigger starts in `a` when `b` follows. -/
def NoTriggerIn (r : Rule) (a b : Bytes) : Prop := ∀ p < a.length, ¬ r.trigger <+: (a ++ b).drop p

/-- No trigger starts before the first one. -/
theorem noTriggerIn_of_cut? {t before rest : Bytes}
    (hcut : Bytes.cut? r.trigger t = some (before, rest)) :
    r.NoTriggerIn before (r.trigger ++ rest) := by
  intro p hp
  rw [← Bytes.eq_of_cut? hcut]
  exact Bytes.not_isPrefix_of_lt_cut? hcut hp

/-- No trigger starts in the tail of a trigger. -/
theorem noTriggerIn_triggerTail (h : r.ParenFree) (rest : Bytes) :
    r.NoTriggerIn r.triggerTail rest := by
  intro p hp
  have hlt : p + 1 < r.trigger.length := by
    rw [trigger_eq, List.length_cons]
    exact Nat.succ_lt_succ hp
  exact not_isPrefix_drop_trigger_append h rest (Nat.succ_pos p) hlt

theorem noTriggerIn_closeParen (b : Bytes) : r.NoTriggerIn [Bytes.closeParen] b := by
  intro p hp
  obtain rfl : p = 0 := Nat.lt_one_iff.1 hp
  rintro ⟨x, hx⟩
  cases (List.cons.inj hx).1

/-- No trigger reaches over a `)`. -/
theorem isPrefix_drop_append_closeParen_cons_iff (h : r.ParenFree) {u : Bytes} (v : Bytes) {p : Nat}
    (hp : p ≤ u.length) :
    r.trigger <+: (u ++ Bytes.closeParen :: v).drop p ↔ r.trigger <+: u.drop p := by
  rw [List.drop_append_of_le_length hp]
  constructor
  · exact fun hstart => Bytes.isPrefix_of_isPrefix_append_cons hstart
      (closeParen_notMem_trigger h)
  · exact fun hstart => hstart.trans (List.prefix_append _ _)

/-- Whether a trigger starts in front of a `)` does not depend on what follows the `)`. -/
theorem noTriggerIn_closeParen_cons_iff (h : r.ParenFree) {u : Bytes} (v w : Bytes) :
    r.NoTriggerIn u (Bytes.closeParen :: v) ↔ r.NoTriggerIn u (Bytes.closeParen :: w) := by
  refine forall₂_congr fun p hp => not_congr ?_
  rw [isPrefix_drop_append_closeParen_cons_iff h v hp.le,
    isPrefix_drop_append_closeParen_cons_iff h w hp.le]

/-! ### Calls -/

/-- A call stands at an offset: a trigger is there, and behind it the end is found. -/
def CallAt (r : Rule) (close? : Bytes → Option Nat) (t : Bytes) (p : Nat) : Prop :=
  r.trigger <+: t.drop p ∧ (close? (t.drop (p + r.trigger.length))).isSome

instance callAtDecidable (r : Rule) (close? : Bytes → Option Nat) (t : Bytes) (p : Nat) :
    Decidable (r.CallAt close? t p) :=
  inferInstanceAs (Decidable (_ ∧ _))

/-- The offsets of all calls in a text, in ascending order. -/
def calls (r : Rule) (close? : Bytes → Option Nat) (t : Bytes) : List Nat :=
  (List.range t.length).filter fun p => r.CallAt close? t p

variable {close? : Bytes → Option Nat}

/-- The trigger of a call lies in the text. -/
theorem le_length_of_callAt {t : Bytes} {p : Nat} (h : r.CallAt close? t p) :
    p + r.trigger.length ≤ t.length := by
  have hlen := h.1.length_le
  have hpos := r.length_trigger_pos
  rw [List.length_drop] at hlen
  omega

theorem mem_calls_iff {t : Bytes} {p : Nat} : p ∈ r.calls close? t ↔ r.CallAt close? t p := by
  rw [calls, List.mem_filter, List.mem_range, decide_eq_true_eq]
  refine ⟨And.right, fun h => ⟨?_, h⟩⟩
  have := le_length_of_callAt h
  have := r.length_trigger_pos
  omega

theorem calls_eq_nil_iff {t : Bytes} : r.calls close? t = [] ↔ ∀ p, ¬ r.CallAt close? t p := by
  rw [List.eq_nil_iff_forall_not_mem]
  simp only [mem_calls_iff]

/-- The triggers of two calls do not overlap. -/
theorem calls_pairwise (h : r.ParenFree) (t : Bytes) :
    (r.calls close? t).Pairwise fun p q => p + r.trigger.length ≤ q := by
  have hsorted : (r.calls close? t).Pairwise (· < ·) := List.pairwise_lt_range.filter _
  refine hsorted.imp_of_mem fun {p q} hp hq hlt => ?_
  rw [mem_calls_iff] at hp hq
  by_contra hover
  obtain ⟨rest, hrest⟩ := hp.1
  have hdrop : t.drop q = (r.trigger ++ rest).drop (q - p) := by
    rw [hrest, List.drop_drop]
    congr 1
    omega
  exact not_isPrefix_drop_trigger_append h rest (by omega) (by omega) (hdrop ▸ hq.1)

/-- Whether a call stands behind a text does not depend on the text. -/
theorem callAt_append_add (a b : Bytes) (p : Nat) :
    r.CallAt close? (a ++ b) (a.length + p) ↔ r.CallAt close? b p := by
  unfold CallAt
  rw [Nat.add_assoc, List.drop_length_add_append, List.drop_length_add_append]

theorem callAt_trigger_append_zero (rest : Bytes) :
    r.CallAt close? (r.trigger ++ rest) 0 ↔ (close? rest).isSome := by
  unfold CallAt
  rw [Nat.zero_add, List.drop_left, List.drop_zero]
  exact and_iff_right (List.prefix_append _ _)

/-- Up to a `)`, a call is a trigger before the `)` whose end is found. -/
theorem callAt_append_closeParen_cons_iff (h : r.ParenFree) {u : Bytes} (v : Bytes) {p : Nat}
    (hp : p ≤ u.length) :
    r.CallAt close? (u ++ Bytes.closeParen :: v) p ↔
      r.trigger <+: u.drop p ∧
        (close? (u.drop (p + r.trigger.length) ++ Bytes.closeParen :: v)).isSome := by
  unfold CallAt
  rw [isPrefix_drop_append_closeParen_cons_iff h v hp]
  refine and_congr_right fun hin => ?_
  have hlen := hin.length_le
  have hpos := r.length_trigger_pos
  rw [List.length_drop] at hlen
  rw [List.drop_append_of_le_length (by omega)]

/-- The calls of a concatenation start in its first part or are those of its second. -/
theorem calls_append (a b : Bytes) :
    r.calls close? (a ++ b) =
      ((List.range a.length).filter fun p => r.CallAt close? (a ++ b) p) ++
        (r.calls close? b).map (a.length + ·) := by
  unfold calls
  rw [List.length_append, List.range_add, List.filter_append, List.filter_map]
  simp only [Function.comp_def, callAt_append_add]

/-- A text in front in which no trigger starts holds no call. -/
theorem calls_append_eq_nil_iff {a b : Bytes} (ha : r.NoTriggerIn a b) :
    r.calls close? (a ++ b) = [] ↔ r.calls close? b = [] := by
  rw [calls_append, List.append_eq_nil_iff, List.map_eq_nil_iff]
  refine and_iff_right (List.filter_eq_nil_iff.2 fun p hp hcall => ?_)
  exact ha p (List.mem_range.1 hp) (of_decide_eq_true hcall).1

/-- A trigger in front holds a call exactly when its end is found. -/
theorem calls_trigger_append_eq_nil_iff (h : r.ParenFree) (rest : Bytes) :
    r.calls close? (r.trigger ++ rest) = [] ↔ close? rest = none ∧ r.calls close? rest = [] := by
  simp only [calls_eq_nil_iff]
  constructor
  · intro hnot
    refine ⟨?_, fun p hcall => hnot _ ((callAt_append_add r.trigger rest p).2 hcall)⟩
    rw [← Option.not_isSome_iff_eq_none, ← callAt_trigger_append_zero (r := r)]
    exact hnot 0
  · rintro ⟨hclose, hnot⟩ p hcall
    rcases Nat.lt_or_ge p r.trigger.length with hlt | hge
    · obtain rfl | hpos := Nat.eq_zero_or_pos p
      · rw [callAt_trigger_append_zero, hclose] at hcall
        cases hcall
      · exact not_isPrefix_drop_trigger_append h rest hpos hlt hcall.1
    · obtain ⟨p, rfl⟩ := Nat.exists_eq_add_of_le hge
      exact hnot p ((callAt_append_add r.trigger rest p).1 hcall)

/-! ### Replacing all calls -/

/-- The edit that replaces all calls in their places. -/
def editCalls (r : Rule) (close? : Bytes → Option Nat) (t : Bytes) : Edit :=
  ⟨Bytes.splice r.trigger.length r.head (r.calls close? t) t, (r.calls close? t).length⟩

@[simp] theorem editCalls_nil : r.editCalls close? [] = .kept [] := rfl

/-- A concatenation is edited part by part when no call reaches over the seam. -/
theorem editCalls_append {a b : Bytes}
    (hfit : ∀ p < a.length, r.CallAt close? (a ++ b) p → p + r.trigger.length ≤ a.length) :
    r.editCalls close? (a ++ b) =
      ⟨Bytes.splice r.trigger.length r.head
          ((List.range a.length).filter fun p => r.CallAt close? (a ++ b) p) a,
        ((List.range a.length).filter fun p => r.CallAt close? (a ++ b) p).length⟩ ++
        r.editCalls close? b := by
  have hsorted := (List.pairwise_lt_range (n := a.length)).filter
    fun p => decide (r.CallAt close? (a ++ b) p)
  unfold editCalls
  rw [calls_append, Bytes.splice_append _ _ b _ hsorted ?_, List.length_append, List.length_map]
  · rfl
  · intro p hp
    rw [List.mem_filter, List.mem_range] at hp
    exact hfit p hp.1 (of_decide_eq_true hp.2)

/-- A text in front in which no call starts is kept. -/
theorem editCalls_append_of_forall_not {a b : Bytes}
    (hnot : ∀ p < a.length, ¬ r.CallAt close? (a ++ b) p) :
    r.editCalls close? (a ++ b) = .kept a ++ r.editCalls close? b := by
  have hnone : ((List.range a.length).filter fun p => r.CallAt close? (a ++ b) p) = [] := by
    rw [List.filter_eq_nil_iff]
    intro p hp
    simpa using hnot p (List.mem_range.1 hp)
  rw [editCalls_append fun p hp hcall => absurd hcall (hnot p hp), hnone]
  rfl

/-- A text in front whose calls are the same without what follows is edited apart. -/
theorem editCalls_append_of_iff {a b : Bytes}
    (hiff : ∀ p < a.length, r.CallAt close? (a ++ b) p ↔ r.CallAt close? a p) :
    r.editCalls close? (a ++ b) = r.editCalls close? a ++ r.editCalls close? b := by
  have hsame : ((List.range a.length).filter fun p => r.CallAt close? (a ++ b) p) =
      r.calls close? a := by
    refine List.filter_congr fun p hp => ?_
    exact decide_eq_decide.2 (hiff p (List.mem_range.1 hp))
  rw [editCalls_append fun p hp hcall => le_length_of_callAt ((hiff p hp).1 hcall), hsame]
  rfl

/-- A text without calls is kept. -/
theorem editCalls_eq_kept {t : Bytes} (hnot : ∀ p, ¬ r.CallAt close? t p) :
    r.editCalls close? t = .kept t := by
  have h := editCalls_append_of_forall_not (a := t) (b := []) fun p _ => by
    simpa using hnot p
  simpa using h

/-- A trigger in front is replaced if it opens a call, and kept otherwise. -/
theorem editCalls_trigger_append (h : r.ParenFree) (rest : Bytes) :
    r.editCalls close? (r.trigger ++ rest) =
      (if (close? rest).isSome then .opened r else .kept r.trigger) ++ r.editCalls close? rest := by
  have hzero : ∀ p < r.trigger.length, r.CallAt close? (r.trigger ++ rest) p → p = 0 := by
    intro p hp hcall
    by_contra hne
    exact not_isPrefix_drop_trigger_append h rest (Nat.pos_of_ne_zero hne) hp hcall.1
  -- the trigger itself is the only place in it where a call can stand
  have hcalls : ((List.range r.trigger.length).filter
      fun p => r.CallAt close? (r.trigger ++ rest) p) =
        if (close? rest).isSome then [0] else [] := by
    rw [r.length_trigger, List.range_succ_eq_map, List.filter_cons, List.filter_eq_nil_iff.2]
    · simp only [decide_eq_true_eq, callAt_trigger_append_zero]
    · intro q hq hcall
      obtain ⟨p, hp, rfl⟩ := List.mem_map.1 hq
      have hlt : p.succ < r.trigger.length := by
        rw [r.length_trigger]
        exact Nat.succ_lt_succ (List.mem_range.1 hp)
      exact Nat.succ_ne_zero p (hzero p.succ hlt (of_decide_eq_true hcall))
  rw [editCalls_append fun p hp hcall => by rw [hzero p hp hcall, Nat.zero_add], hcalls]
  split
  · simp [Bytes.splice, Bytes.spliceFrom, Edit.opened]
  · rfl

/-- A text in front in which no trigger starts is kept. -/
theorem editCalls_append_of_noTriggerIn {a b : Bytes} (ha : r.NoTriggerIn a b) :
    r.editCalls close? (a ++ b) = .kept a ++ r.editCalls close? b :=
  editCalls_append_of_forall_not fun p hp hcall => ha p hp hcall.1

theorem editCalls_closeParen_cons (t : Bytes) :
    r.editCalls close? (Bytes.closeParen :: t) =
      .kept [Bytes.closeParen] ++ r.editCalls close? t :=
  editCalls_append_of_noTriggerIn (noTriggerIn_closeParen t)

/-- The text before the first trigger is kept. What happens to the trigger depends on whether it
opens a call, and what happens behind it does not depend on the trigger. -/
theorem editCalls_append_trigger_append (h : r.ParenFree) {before rest : Bytes}
    (hbefore : r.NoTriggerIn before (r.trigger ++ rest)) :
    r.editCalls close? (before ++ (r.trigger ++ rest)) =
      .kept before ++ ((if (close? rest).isSome then .opened r else .kept r.trigger) ++
        r.editCalls close? rest) := by
  rw [editCalls_append_of_noTriggerIn hbefore, editCalls_trigger_append h]

end Rule

end CallMigration
