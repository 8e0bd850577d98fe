import CallMigration.Proofs.Balanced

/-!
# What shallow editing does

Shallow editing ends a call at the first `)` on the line. It replaces every call in which no trigger
starts, and swallows the triggers that start in the argument of another call.

## Main Definitions

* `Rule.Unnested` — no trigger starts in a call, up to the first `)` behind it

## Main Statements

* `Rule.shallow_induction` — a text is one without triggers, or a call or a trigger without `)`
  comes first
* `Rule.shallow_eq_editCalls` — a text without nesting has all its calls replaced in their places
* `Rule.shallow_replacements_eq_zero_iff` — nothing is replaced exactly when there is no call
* `Rule.apply_shallow_eq_apply_balanced` — both modes agree on calls that are neither nested nor
  unclosed

## Design Notes

After a trigger without a `)` the search goes on one byte later, in the rest of the trigger. No
trigger starts there, so the induction passes over the whole trigger at once.
-/

namespace CallMigration

namespace Rule

variable {r : Rule}

/-! ### One step -/

theorem shallow_eq (r : Rule) (t : Bytes) :
    r.shallow t =
      match Bytes.cut? r.trigger t with
      | none => .kept t
      | some (before, rest) =>
        match Paren.first? rest with
        | some i => .kept before ++ (.call r (.kept (rest.take i)) ++ r.shallow (rest.drop (i + 1)))
        | none => .kept (before ++ [Bytes.dot]) ++ r.shallow (r.triggerTail ++ rest) := by
  rw [shallow]
  split
  · simp [*]
  · split <;> simp [*]

/-- A text in front in which no trigger starts is kept. -/
theorem shallow_append {a b : Bytes} (ha : r.NoTriggerIn a b) :
    r.shallow (a ++ b) = .kept a ++ r.shallow b := by
  rw [shallow_eq r (a ++ b), shallow_eq r b, Bytes.cut?_append b ha]
  cases Bytes.cut? r.trigger b with
  | none => rfl
  | some q =>
    simp only [Option.map_some]
    cases Paren.first? q.2 with
    | none => simp only [List.append_assoc, Edit.kept_append a, Edit.append_assoc]
    | some i => simp only [Edit.kept_append, Edit.append_assoc]

/-- A text without triggers is kept. -/
theorem shallow_eq_kept {t : Bytes} (hnot : ∀ p, ¬ r.trigger <+: t.drop p) :
    r.shallow t = .kept t := by
  have hnil : r.shallow [] = .kept [] := by
    rw [shallow_eq]
    rfl
  have h := shallow_append (r := r) (a := t) (b := []) fun p _ => by simpa using hnot p
  rwa [List.append_nil, hnil, Edit.append_kept_nil] at h

/-- A call ends at the first `)`, and its argument is kept. -/
theorem shallow_call {u : Bytes} (hclose : Bytes.closeParen ∉ u) (hline : Bytes.newline ∉ u)
    (v : Bytes) :
    r.shallow (r.trigger ++ (u ++ Bytes.closeParen :: v)) =
      .opened r ++ (.kept u ++ (.kept [Bytes.closeParen] ++ r.shallow v)) := by
  have hfirst : Paren.first? (u ++ Bytes.closeParen :: v) = some u.length :=
    Paren.first?_eq_some_iff.2 ⟨u, v, rfl, rfl, hclose, hline⟩
  rw [shallow_eq, Bytes.cut?_append_self]
  simp only [hfirst]
  rw [Bytes.drop_append_cons, List.take_left, Edit.call_eq, Edit.kept_nil_append]
  simp only [Edit.append_assoc]

/-- A trigger without a `)` on its line is kept. -/
theorem shallow_pass (h : r.ParenFree) {rest : Bytes} (hclose : Paren.first? rest = none) :
    r.shallow (r.trigger ++ rest) = .kept r.trigger ++ r.shallow rest := by
  rw [shallow_eq, Bytes.cut?_append_self]
  simp only [hclose]
  rw [shallow_append (noTriggerIn_triggerTail h rest), ← Edit.append_assoc, List.nil_append,
    trigger_eq, Edit.kept_cons _ r.triggerTail]

/-- A text has no trigger, or its first trigger opens a call, or that trigger has no `)` on its
line. -/
theorem shallow_induction (r : Rule) {motive : Bytes → Prop}
    (plain : ∀ t, (∀ p, ¬ r.trigger <+: t.drop p) → motive t)
    (call : ∀ before u v,
      r.NoTriggerIn before (r.trigger ++ (u ++ Bytes.closeParen :: v)) →
        Bytes.closeParen ∉ u → Bytes.newline ∉ u → motive v →
          motive (before ++ (r.trigger ++ (u ++ Bytes.closeParen :: v))))
    (pass : ∀ before rest, r.NoTriggerIn before (r.trigger ++ rest) → Paren.first? rest = none →
      motive rest → motive (before ++ (r.trigger ++ rest)))
    (t : Bytes) : motive t := by
  -- both what follows a call and what follows a trigger are shorter than the text
  induction hn : t.length using Nat.strong_induction_on generalizing t with
  | _ n ih =>
    cases hcut : Bytes.cut? r.trigger t with
    | none => exact plain t (Bytes.not_isPrefix_of_cut?_eq_none hcut)
    | some q =>
      obtain ⟨before, rest⟩ := q
      have hbefore := noTriggerIn_of_cut? hcut
      have hlen := Bytes.length_add_le_of_cut? hcut
      have hpos := r.length_trigger_pos
      rw [Bytes.eq_of_cut? hcut]
      cases hclose : Paren.first? rest with
      | none => exact pass before rest hbefore hclose (ih rest.length (by omega) rest rfl)
      | some i =>
        obtain ⟨u, v, rfl, -, hu, hl⟩ := Paren.first?_eq_some_iff.1 hclose
        refine call before u v hbefore hu hl (ih v.length ?_ v rfl)
        simp only [List.length_append, List.length_cons] at hlen
        omega

/-- In front of a `)` on the line, every trigger opens a call. -/
theorem calls_append_closeParen_cons_eq_nil_iff (h : r.ParenFree) {u : Bytes}
    (hline : Bytes.newline ∉ u) (v : Bytes) :
    r.calls Paren.first? (u ++ Bytes.closeParen :: v) = [] ↔
      r.NoTriggerIn u (Bytes.closeParen :: v) ∧ r.calls Paren.first? v = [] := by
  have hrest : r.calls Paren.first? (Bytes.closeParen :: v) = [] ↔ _ :=
    calls_append_eq_nil_iff (noTriggerIn_closeParen v)
  constructor
  · intro hnil
    have hu : r.NoTriggerIn u (Bytes.closeParen :: v) := by
      intro p hp hstart
      rw [isPrefix_drop_append_closeParen_cons_iff h v hp.le] at hstart
      refine calls_eq_nil_iff.1 hnil p ?_
      rw [callAt_append_closeParen_cons_iff h v hp.le]
      exact ⟨hstart, Paren.isSome_first?_append (mt List.mem_of_mem_drop hline) v⟩
    rw [calls_append_eq_nil_iff hu, hrest] at hnil
    exact ⟨hu, hnil⟩
  · rintro ⟨hu, hv⟩
    rw [calls_append_eq_nil_iff hu, hrest]
    exact hv

/-! ### Nesting -/

/-- No trigger starts between the trigger of a call and the first `)` behind it. -/
def Unnested (r : Rule) (t : Bytes) : Prop :=
  ∀ p ∈ r.calls Paren.first? t, ∀ i ∈ Paren.first? (t.drop (p + r.trigger.length)),
    ∀ q < p + r.trigger.length + i, p < q → ¬ r.trigger <+: t.drop q

instance unnestedDecidable (r : Rule) (t : Bytes) : Decidable (r.Unnested t) := by
  unfold Unnested
  infer_instance

theorem unnested_of_calls_eq_nil {t : Bytes} (hcalls : r.calls Paren.first? t = []) :
    r.Unnested t := by
  intro p hp
  rw [hcalls] at hp
  exact absurd hp List.not_mem_nil

/-- Nesting behind a text does not depend on the text. -/
theorem Unnested.of_append {a b : Bytes} (h : r.Unnested (a ++ b)) : r.Unnested b := by
  intro p hp i hi q hq hpq
  have hcall := (callAt_append_add a b p).2 (mem_calls_iff.1 hp)
  have hend : i ∈ Paren.first? ((a ++ b).drop (a.length + p + r.trigger.length)) := by
    rwa [Nat.add_assoc, List.drop_length_add_append]
  have hnot := h _ (mem_calls_iff.2 hcall) i hend (a.length + q) (by omega) (by omega)
  rwa [List.drop_length_add_append] at hnot

/-- A call behind a text in which no call starts is a call of what follows. -/
theorem Unnested.append {a b : Bytes} (hb : r.Unnested b)
    (ha : ∀ p < a.length, r.CallAt Paren.first? (a ++ b) p →
      ∀ i ∈ Paren.first? ((a ++ b).drop (p + r.trigger.length)),
        ∀ q < p + r.trigger.length + i, p < q → ¬ r.trigger <+: (a ++ b).drop q) :
    r.Unnested (a ++ b) := by
  intro p hp i hi q hq hpq
  rcases Nat.lt_or_ge p a.length with hlt | hge
  · exact ha p hlt (mem_calls_iff.1 hp) i hi q hq hpq
  · obtain ⟨p, rfl⟩ := Nat.exists_eq_add_of_le hge
    obtain ⟨q, rfl⟩ := Nat.exists_eq_add_of_le (hge.trans hpq.le)
    rw [mem_calls_iff, callAt_append_add, ← mem_calls_iff] at hp
    rw [Nat.add_assoc, List.drop_length_add_append] at hi
    rw [List.drop_length_add_append]
    exact hb p hp i hi q (by omega) (by omega)

/-- A text in front in which no trigger starts nests nothing. -/
theorem unnested_append_iff {a b : Bytes} (ha : r.NoTriggerIn a b) :
    r.Unnested (a ++ b) ↔ r.Unnested b :=
  ⟨Unnested.of_append, fun hb => hb.append fun p hp hcall => absurd hcall.1 (ha p hp)⟩

/-- A trigger in front nests the triggers up to the first `)` behind it. -/
theorem unnested_trigger_append_iff (h : r.ParenFree) (rest : Bytes) :
    r.Unnested (r.trigger ++ rest) ↔
      (∀ i ∈ Paren.first? rest, ∀ q < i, ¬ r.trigger <+: rest.drop q) ∧ r.Unnested rest := by
  have hpos := r.length_trigger_pos
  constructor
  · intro hunnested
    refine ⟨fun i hi q hq => ?_, hunnested.of_append⟩
    have hcall : 0 ∈ r.calls Paren.first? (r.trigger ++ rest) :=
      mem_calls_iff.2 ((callAt_trigger_append_zero rest).2 (Option.isSome_of_mem hi))
    have hend : i ∈ Paren.first? ((r.trigger ++ rest).drop (0 + r.trigger.length)) := by
      rwa [Nat.zero_add, List.drop_left]
    have hnot := hunnested 0 hcall i hend (r.trigger.length + q) (by omega) (by omega)
    rwa [List.drop_length_add_append] at hnot
  · rintro ⟨hnot, hrest⟩
    refine hrest.append fun p hp hcall i hi q hq hpq => ?_
    obtain rfl | hne := Nat.eq_zero_or_pos p
    · rw [Nat.zero_add, List.drop_left] at hi
      rcases Nat.lt_or_ge q r.trigger.length with hlt | hge
      · exact not_isPrefix_drop_trigger_append h rest hpq hlt
      · obtain ⟨q, rfl⟩ := Nat.exists_eq_add_of_le hge
        rw [List.drop_length_add_append]
        exact hnot i hi q (by omega)
    · exact absurd hcall.1 (not_isPrefix_drop_trigger_append h rest hne hp)

/-- A call is unnested when no trigger starts in its argument. -/
theorem unnested_call_iff (h : r.ParenFree) {u : Bytes} (hclose : Bytes.closeParen ∉ u)
    (hline : Bytes.newline ∉ u) (v : Bytes) :
    r.Unnested (r.trigger ++ (u ++ Bytes.closeParen :: v)) ↔
      r.NoTriggerIn u (Bytes.closeParen :: v) ∧ r.Unnested v := by
  have hfirst : Paren.first? (u ++ Bytes.closeParen :: v) = some u.length :=
    Paren.first?_eq_some_iff.2 ⟨u, v, rfl, rfl, hclose, hline⟩
  rw [unnested_trigger_append_iff h, hfirst]
  simp only [Option.mem_def, Option.some.injEq, forall_eq']
  refine and_congr_right fun hu => ?_
  rw [unnested_append_iff hu]
  exact unnested_append_iff (noTriggerIn_closeParen v)

/-- A trigger without a `)` on its line nests nothing. -/
theorem unnested_pass_iff (h : r.ParenFree) {rest : Bytes} (hclose : Paren.first? rest = none) :
    r.Unnested (r.trigger ++ rest) ↔ r.Unnested rest := by
  rw [unnested_trigger_append_iff h, hclose]
  exact and_iff_right fun i hi => absurd hi (Option.not_mem_none i)

/-! ### Shallow editing -/

/-- Without nesting, shallow editing replaces each call that has a `)` on its line, and no other. -/
theorem shallow_eq_editCalls (h : r.ParenFree) {t : Bytes} (hunnested : r.Unnested t) :
    r.shallow t = r.editCalls Paren.first? t := by
  induction t using shallow_induction r with
  | plain t hnot =>
    rw [shallow_eq_kept hnot, editCalls_eq_kept fun p hcall => hnot p hcall.1]
  | call before u v hbefore hclose hline ih =>
    rw [unnested_append_iff hbefore, unnested_call_iff h hclose hline] at hunnested
    rw [shallow_append hbefore, shallow_call hclose hline, ih hunnested.2,
      editCalls_append_trigger_append h hbefore,
      if_pos (Paren.isSome_first?_append hline v), editCalls_append_of_noTriggerIn hunnested.1,
      editCalls_closeParen_cons]
  | pass before rest hbefore hclose ih =>
    rw [unnested_append_iff hbefore, unnested_pass_iff h hclose] at hunnested
    rw [shallow_append hbefore, shallow_pass h hclose, ih hunnested,
      editCalls_append_trigger_append h hbefore, hclose]
    rfl

/-- Shallow editing replaces nothing exactly when the text has no call. -/
theorem shallow_replacements_eq_zero_iff (h : r.ParenFree) (t : Bytes) :
    (r.shallow t).replacements = 0 ↔ r.calls Paren.first? t = [] := by
  induction t using shallow_induction r with
  | plain t hnot =>
    rw [shallow_eq_kept hnot, calls_eq_nil_iff]
    exact iff_of_true rfl fun p hcall => hnot p hcall.1
  | call before u v hbefore hclose hline ih =>
    rw [shallow_append hbefore, shallow_call hclose hline, calls_append_eq_nil_iff hbefore,
      calls_eq_nil_iff]
    refine iff_of_false (fun hzero => ?_) fun hnot => hnot 0 ?_
    · simp only [Edit.replacements_append, Edit.replacements_kept, Edit.replacements_opened]
        at hzero
      omega
    · exact (callAt_trigger_append_zero _).2 (Paren.isSome_first?_append hline v)
  | pass before rest hbefore hclose ih =>
    rw [shallow_append hbefore, shallow_pass h hclose, calls_append_eq_nil_iff hbefore,
      calls_trigger_append_eq_nil_iff h, hclose, ← ih]
    simp

/-- Without a call, shallow editing keeps the text. -/
theorem shallow_eq_kept_of_calls_eq_nil (h : r.ParenFree) {t : Bytes}
    (hcalls : r.calls Paren.first? t = []) : r.shallow t = .kept t := by
  rw [shallow_eq_editCalls h (unnested_of_calls_eq_nil hcalls)]
  exact editCalls_eq_kept (calls_eq_nil_iff.1 hcalls)

/-! ### Both modes -/

/-- Nothing is made of no text. -/
theorem apply_nil (r : Rule) (mode : Mode) : r.apply mode [] = .kept [] := by
  have hcut : Bytes.cut? r.trigger [] = none := by simp [Bytes.cut?, Bytes.cutFrom, trigger]
  cases mode with
  | shallow => exact shallow_eq_kept fun p => by simp [trigger]
  | balanced =>
    rw [apply, balanced]
    split <;> simp_all

/-- Both modes do the same on a text in which every call with a `)` on its line is closed there, and
no trigger starts before that `)`. -/
theorem apply_shallow_eq_apply_balanced (h : r.ParenFree) {t : Bytes} (hunnested : r.Unnested t)
    (hclosed : ∀ p ∈ r.calls Paren.first? t,
      (Paren.matching? (t.drop (p + r.trigger.length))).isSome) :
    r.apply .shallow t = r.apply .balanced t := by
  have hcalls : r.calls Paren.matching? t = r.calls Paren.first? t := by
    refine List.filter_congr fun p _ => decide_eq_decide.2 ?_
    constructor
    · rintro ⟨hstart, hmatching⟩
      exact ⟨hstart, Paren.isSome_first?_of_matching? hmatching⟩
    · intro hcall
      exact ⟨hcall.1, hclosed p (mem_calls_iff.2 hcall)⟩
  have hedit : r.editCalls Paren.first? t = r.editCalls Paren.matching? t := by
    unfold editCalls
    rw [hcalls]
  calc r.apply .shallow t = r.editCalls Paren.first? t := shallow_eq_editCalls h hunnested
    _ = r.editCalls Paren.matching? t := hedit
    _ = r.apply .balanced t := (balanced_eq_editCalls h t).symm

/-- An argument with parentheses, a chained call, and a call that is open at the end of its line. -/
theorem apply_shallow_eq_apply_balanced_chained :
    let t := Bytes.ofString "a.withOpacity(f(x) * 2).withOpacity(y);\nb.withOpacity(\nz)"
    withOpacity.ParenFree ∧ withOpacity.Unnested t ∧
      withOpacity.apply .shallow t = withOpacity.apply .balanced t := by
  have hfree : withOpacity.ParenFree := by decide
  have hunnested : withOpacity.Unnested (Bytes.ofString
      "a.withOpacity(f(x) * 2).withOpacity(y);\nb.withOpacity(\nz)") := by
    decide
  exact ⟨hfree, hunnested, apply_shallow_eq_apply_balanced hfree hunnested (by decide)⟩

end Rule

end CallMigration
