import Mathlib.Data.List.Sort
import CallMigration.Proofs.Shallow

/-!
# The calls that shallow editing takes

Shallow editing takes calls from left to right: a call is taken exactly when it lies behind every
call that was taken before it, up to and with its first `)`. This says which calls are taken, and
nothing about how they are found. It holds for every method, also for one with parentheses, where a
trigger may start inside another one.

## Main Definitions

* `Rule.Behind` — an offset lies behind the `)` of a call
* `Rule.TakenFromLeft` — the offsets of the calls that are taken
* `Rule.editAt` — the edit that replaces the triggers at given offsets

## Main Statements

* `Rule.TakenFromLeft.eq` — there is one way to take calls from the left
* `Rule.TakenFromLeft.append`, `Rule.TakenFromLeft.call` — what one step of the scan takes
* `Rule.exists_takenFromLeft` — shallow editing replaces the calls that are taken
* `Rule.apply_shallow_eq_splice` — the same as a splice of the text
-/

namespace CallMigration

namespace Rule

variable {r : Rule} {t a b : Bytes} {ps qs : List Nat}

/-! ### Taking calls from the left -/

/-- An offset lies behind the first `)` of the call at another offset. -/
def Behind (r : Rule) (t : Bytes) (call p : Nat) : Prop :=
  ∀ i ∈ Paren.first? (t.drop (call + r.trigger.length)), call + r.trigger.length + i < p

/-- The ascending offsets of the calls that lie behind all of those taken before them. -/
structure TakenFromLeft (r : Rule) (t : Bytes) (ps : List Nat) : Prop where
  ascending : ps.Pairwise (· < ·)
  mem_iff : ∀ p, p ∈ ps ↔ r.CallAt Paren.first? t p ∧ ∀ q ∈ ps, q < p → r.Behind t q p

namespace TakenFromLeft

/-- Whether a call is taken depends on the calls before it. -/
theorem mem_iff_mem (hp : r.TakenFromLeft t ps) (hq : r.TakenFromLeft t qs) (p : Nat) :
    p ∈ ps ↔ p ∈ qs := by
  induction p using Nat.strong_induction_on with
  | _ p ih =>
    rw [hp.mem_iff, hq.mem_iff]
    refine and_congr_right fun _ => ?_
    constructor
    · exact fun hbehind q hmem hlt => hbehind q ((ih q hlt).2 hmem) hlt
    · exact fun hbehind q hmem hlt => hbehind q ((ih q hlt).1 hmem) hlt

/-- There is one way to take calls from the left. -/
theorem eq (hp : r.TakenFromLeft t ps) (hq : r.TakenFromLeft t qs) : ps = qs :=
  hp.ascending.eq_of_mem_iff hq.ascending fun {p} => hp.mem_iff_mem hq p

/-- The trigger of a call that is taken ends before the next one starts. -/
theorem apart (h : r.TakenFromLeft t ps) : ps.Pairwise fun p q => p + r.trigger.length ≤ q := by
  refine h.ascending.imp_of_mem fun {p q} hp hq hlt => ?_
  obtain ⟨i, hi⟩ := Option.isSome_iff_exists.1 ((h.mem_iff p).1 hp).1.2
  have := ((h.mem_iff q).1 hq).2 p hp hlt i hi
  omega

end TakenFromLeft

/-! ### One step of the scan -/

/-- Which offsets lie behind a call does not depend on the text before the call. -/
theorem behind_append_add (a b : Bytes) (q p : Nat) :
    r.Behind (a ++ b) (a.length + q) (a.length + p) ↔ r.Behind b q p := by
  unfold Behind
  rw [Nat.add_assoc, List.drop_length_add_append]
  refine forall₂_congr fun i _ => ?_
  omega

namespace TakenFromLeft

theorem nil (hnot : ∀ p, ¬ r.CallAt Paren.first? t p) : r.TakenFromLeft t [] where
  ascending := .nil
  mem_iff p := iff_of_false List.not_mem_nil fun h => hnot p h.1

/-- A text in front in which no call starts moves the calls that are taken. -/
theorem append (h : r.TakenFromLeft b ps)
    (hnot : ∀ p < a.length, ¬ r.CallAt Paren.first? (a ++ b) p) :
    r.TakenFromLeft (a ++ b) (ps.map (a.length + ·)) where
  ascending := h.ascending.map _ fun _ _ hlt => Nat.add_lt_add_left hlt _
  mem_iff p := by
    rcases Nat.lt_or_ge p a.length with hlt | hge
    · refine iff_of_false (fun hmem => ?_) fun hp => hnot p hlt hp.1
      obtain ⟨q, -, rfl⟩ := List.mem_map.1 hmem
      exact absurd hlt (Nat.not_lt.2 (Nat.le_add_right _ _))
    · obtain ⟨p, rfl⟩ := Nat.exists_eq_add_of_le hge
      rw [callAt_append_add, List.mem_map_of_injective fun _ _ => Nat.add_left_cancel, h.mem_iff,
        List.forall_mem_map]
      refine and_congr_right fun _ => forall₂_congr fun q _ => ?_
      rw [behind_append_add, Nat.add_lt_add_iff_left]

/-- A call in front is taken, and behind its `)` calls are taken as if nothing stood before. -/
theorem call {u v : Bytes} (h : r.TakenFromLeft v ps) (hclose : Bytes.closeParen ∉ u)
    (hline : Bytes.newline ∉ u) :
    r.TakenFromLeft (r.trigger ++ (u ++ Bytes.closeParen :: v))
      (0 :: ps.map (r.trigger.length + (u.length + 1) + ·)) := by
  have hfirst : Paren.first? (u ++ Bytes.closeParen :: v) = some u.length :=
    Paren.first?_eq_some_iff.2 ⟨u, v, rfl, rfl, hclose, hline⟩
  -- `c` is the call with its `)`
  generalize hc : r.trigger ++ (u ++ [Bytes.closeParen]) = c
  have htext : r.trigger ++ (u ++ Bytes.closeParen :: v) = c ++ v := by
    rw [← hc]
    simp
  have hlength : r.trigger.length + (u.length + 1) = c.length := by
    rw [← hc]
    simp
  have hzero : r.CallAt Paren.first? (c ++ v) 0 := by
    rw [← htext, callAt_trigger_append_zero, hfirst]
    rfl
  have hbehind : ∀ p, r.Behind (c ++ v) 0 p ↔ c.length ≤ p := by
    intro p
    unfold Behind
    rw [← htext, Nat.zero_add, List.drop_left, hfirst, ← hlength]
    simp only [Option.mem_some_iff, forall_eq']
    omega
  rw [htext, hlength]
  refine ⟨List.pairwise_cons.2 ⟨fun q hq => ?_, ?_⟩, fun p => ?_⟩
  · obtain ⟨q, -, rfl⟩ := List.mem_map.1 hq
    omega
  · exact h.ascending.map _ fun _ _ hlt => Nat.add_lt_add_left hlt _
  · rw [List.forall_mem_cons, hbehind, List.mem_cons]
    obtain rfl | hpos := Nat.eq_zero_or_pos p
    · simp [hzero]
    · rcases Nat.lt_or_ge p c.length with hlt | hge
      · refine iff_of_false ?_ fun hp => absurd (hp.2.1 hpos) (Nat.not_le.2 hlt)
        rintro (rfl | hmem)
        · exact absurd hpos (Nat.lt_irrefl 0)
        · obtain ⟨q, -, rfl⟩ := List.mem_map.1 hmem
          omega
      · obtain ⟨p, rfl⟩ := Nat.exists_eq_add_of_le hge
        rw [or_iff_right hpos.ne', callAt_append_add,
          List.mem_map_of_injective fun _ _ => Nat.add_left_cancel, h.mem_iff, List.forall_mem_map]
        refine and_congr_right fun _ => ?_
        rw [and_iff_right fun _ => hge]
        refine forall₂_congr fun q _ => ?_
        rw [behind_append_add, Nat.add_lt_add_iff_left]

end TakenFromLeft

/-! ### Replacing triggers at given offsets -/

/-- The edit that replaces the triggers at the ascending offsets. -/
def editAt (r : Rule) (ps : List Nat) (t : Bytes) : Edit :=
  ⟨Bytes.splice r.trigger.length r.head ps t, ps.length⟩

theorem editAt_append_map (a b : Bytes) (qs : List Nat) :
    r.editAt (qs.map (a.length + ·)) (a ++ b) = .kept a ++ r.editAt qs b := by
  have hfit : ∀ p ∈ ([] : List Nat), p + r.trigger.length ≤ a.length :=
    fun p hp => absurd hp List.not_mem_nil
  have hsplice := Bytes.splice_append r.trigger.length r.head b qs .nil hfit
  refine Edit.eq_of_text_of_replacements hsplice ?_
  simp [editAt]

theorem editAt_trigger_append (rest : Bytes) (qs : List Nat) :
    r.editAt (0 :: qs.map (r.trigger.length + ·)) (r.trigger ++ rest) =
      .opened r ++ r.editAt qs rest := by
  have hfit : ∀ p ∈ [0], p + r.trigger.length ≤ r.trigger.length := by simp
  have hsplice := Bytes.splice_append r.trigger.length r.head rest qs (List.pairwise_singleton _ _)
    hfit
  refine Edit.eq_of_text_of_replacements (hsplice.trans ?_) ?_
  · simp [Bytes.splice, Bytes.spliceFrom, Edit.opened, editAt]
  · simp [editAt, Nat.add_comm]

theorem editAt_call (u v : Bytes) (qs : List Nat) :
    r.editAt (0 :: qs.map (r.trigger.length + (u.length + 1) + ·))
        (r.trigger ++ (u ++ Bytes.closeParen :: v)) =
      .opened r ++ (.kept u ++ (.kept [Bytes.closeParen] ++ r.editAt qs v)) := by
  have hmap : qs.map (r.trigger.length + (u.length + 1) + ·) =
      (qs.map ((u ++ [Bytes.closeParen]).length + ·)).map (r.trigger.length + ·) := by
    simp [Function.comp_def, Nat.add_assoc]
  rw [hmap, List.append_cons u _ v, editAt_trigger_append, editAt_append_map, Edit.kept_append,
    Edit.append_assoc]

/-! ### Shallow editing -/

/-- No call starts in a text up to and with the dot of its first trigger, when that trigger has no
`)` on its line. -/
theorem not_callAt_of_first?_eq_none {before rest : Bytes}
    (hbefore : r.NoTriggerIn before (r.trigger ++ rest)) (hclose : Paren.first? rest = none)
    {p : Nat} (hp : p < (before ++ [Bytes.dot]).length) :
    ¬ r.CallAt Paren.first? (before ++ (r.trigger ++ rest)) p := by
  intro hcall
  rw [List.length_append, List.length_singleton] at hp
  obtain hlt | rfl := Nat.lt_or_eq_of_le (Nat.le_of_lt_succ hp)
  · exact hbefore p hlt hcall.1
  · have hzero := (callAt_append_add before (r.trigger ++ rest) 0).1 hcall
    rw [callAt_trigger_append_zero, hclose] at hzero
    cases hzero

/-- Shallow editing replaces the triggers of the calls that are taken from the left. -/
theorem exists_takenFromLeft (r : Rule) (t : Bytes) :
    ∃ ps, r.TakenFromLeft t ps ∧ r.shallow t = r.editAt ps t := by
  fun_induction shallow r t with
  | case1 t hcut =>
    exact ⟨[], .nil fun p hcall => Bytes.not_isPrefix_of_cut?_eq_none hcut p hcall.1, rfl⟩
  | case2 t before rest hcut i hclose ih =>
    obtain ⟨u, v, rfl, rfl, hu, hl⟩ := Paren.first?_eq_some_iff.1 hclose
    rw [Bytes.drop_append_cons] at ih ⊢
    obtain ⟨ps, htaken, hedit⟩ := ih
    have hbefore := noTriggerIn_of_cut? hcut
    have hcall := (htaken.call hu hl).append fun p hp hcall => hbefore p hp hcall.1
    rw [Bytes.eq_of_cut? hcut]
    refine ⟨_, hcall, ?_⟩
    rw [editAt_append_map, editAt_call, hedit, List.take_left, Edit.call_eq]
    simp only [Edit.append_assoc]
  | case3 t before rest hcut hclose ih =>
    -- the search goes on behind the dot, where another trigger may start
    obtain ⟨ps, htaken, hedit⟩ := ih
    have htext : t = (before ++ [Bytes.dot]) ++ (r.triggerTail ++ rest) := by
      rw [Bytes.eq_of_cut? hcut, trigger_eq, List.cons_append, List.append_cons before]
    have hmoved := htaken.append (a := before ++ [Bytes.dot]) fun p hp => by
      rw [← htext, Bytes.eq_of_cut? hcut]
      exact not_callAt_of_first?_eq_none (noTriggerIn_of_cut? hcut) hclose hp
    rw [htext]
    exact ⟨_, hmoved, by rw [editAt_append_map, hedit]⟩

/-- There is one way to take calls from the left, each behind the first `)` of those before it.
Shallow editing puts the head of the replacement in the place of the triggers of these calls, keeps
every other byte, and counts them. The triggers are apart. -/
theorem apply_shallow_eq_splice (r : Rule) (t : Bytes) :
    ∃ ps, (∀ qs, r.TakenFromLeft t qs ↔ qs = ps) ∧
      ps.Pairwise (fun p q => p + r.trigger.length ≤ q) ∧
      (r.apply .shallow t).text = Bytes.splice r.trigger.length r.head ps t ∧
      (r.apply .shallow t).replacements = ps.length := by
  obtain ⟨ps, htaken, hedit⟩ := r.exists_takenFromLeft t
  have hunique : ∀ qs, r.TakenFromLeft t qs ↔ qs = ps := by
    intro qs
    constructor
    · exact fun hqs => hqs.eq htaken
    · rintro rfl
      exact htaken
  have happly : r.apply .shallow t = r.editAt ps t := hedit
  rw [happly]
  exact ⟨ps, hunique, htaken.apart, rfl, rfl⟩

end Rule

end CallMigration
