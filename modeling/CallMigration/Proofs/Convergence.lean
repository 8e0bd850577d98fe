import CallMigration.Proofs.Repetition

/-!
# Repeating the shallow edit until nothing is left

A shallow pass leaves the calls that start in the arguments of others, and the next pass finds some
of them. For a plain rule this comes to an end, and at the end all calls of the first text have been
replaced in their places, each of them once and in one of the passes.

## Main Definitions

* `Edit.andThen` — an edit, and another one of its text
* `Rule.passes` — a text after some shallow passes, with the replacements of all of them

## Main Statements

* `Rule.editCalls_append_closeParen_cons` — in front of a `)` on the line every trigger is replaced
* `Rule.Plain.shallow_andThen_editCalls` — what a pass leaves are the calls that it did not replace
* `Rule.Plain.passes_andThen_editCalls` — and so it is with several passes
* `Rule.passes_converge` — the passes come to an end, and to which text

## Design Notes

The edit that replaces all calls at once is what the passes keep: after any number of them, to
replace the calls that are left comes to the same text and the same count. How many calls are left
falls with every pass that replaces anything.
-/

namespace CallMigration

/-! ### One edit after another -/

/-- An edit, and another one of the text that it leaves. Their replacements add up. -/
def Edit.andThen (e : Edit) (next : Bytes → Edit) : Edit :=
  ⟨(next e.text).text, e.replacements + (next e.text).replacements⟩

theorem Edit.andThen_assoc (e : Edit) (f g : Bytes → Edit) :
    (e.andThen f).andThen g = e.andThen fun t => (f t).andThen g :=
  eq_of_text_of_replacements rfl (Nat.add_assoc _ _ _)

/-- What the first edit keeps in front is left to the second one. -/
theorem Edit.kept_append_andThen {s : Bytes} {e x : Edit} {next : Bytes → Edit}
    (hnext : next (s ++ e.text) = x ++ next e.text) :
    (kept s ++ e).andThen next = x ++ e.andThen next := by
  have htext := congrArg text hnext
  have hcount := congrArg replacements hnext
  refine eq_of_text_of_replacements htext ?_
  simp only [andThen, replacements_append, replacements_kept, text_append, text_kept] at hcount ⊢
  omega

/-- A head that the second edit keeps is still the replacement of a trigger. -/
theorem Edit.opened_append_andThen {r : Rule} {e : Edit} {next : Bytes → Edit}
    (hnext : next (r.head ++ e.text) = kept r.head ++ next e.text) :
    (opened r ++ e).andThen next = opened r ++ e.andThen next := by
  have htext := congrArg text hnext
  have hcount := congrArg replacements hnext
  refine eq_of_text_of_replacements htext ?_
  simp only [andThen, replacements_append, replacements_kept, replacements_opened, text_append]
    at hcount ⊢
  show 1 + e.replacements + (next (r.head ++ e.text)).replacements = _
  omega

namespace Rule

variable {r : Rule}

/-! ### All calls in front of a `)` -/

/-- In front of a `)` on the line every trigger is replaced, and what stands behind the `)` is
edited as if it stood alone. -/
theorem editCalls_append_closeParen_cons (h : r.ParenFree) {u : Bytes}
    (hline : Bytes.newline ∉ u) (v : Bytes) :
    r.editCalls Paren.first? (u ++ Bytes.closeParen :: v) =
      r.editCalls (fun _ => some 0) u ++
        (.kept [Bytes.closeParen] ++ r.editCalls Paren.first? v) := by
  have hcalls : ∀ p < u.length, r.CallAt Paren.first? (u ++ Bytes.closeParen :: v) p ↔
      r.CallAt (fun _ => some 0) u p := by
    intro p hp
    rw [callAt_append_closeParen_cons_iff h v hp.le]
    refine and_congr_right fun _ => ?_
    exact iff_of_true (Paren.isSome_first?_append (mt List.mem_of_mem_drop hline) v) rfl
  have hsame : ((List.range u.length).filter
      fun p => r.CallAt Paren.first? (u ++ Bytes.closeParen :: v) p) =
        r.calls (fun _ => some 0) u :=
    List.filter_congr fun p hp => decide_eq_decide.2 (hcalls p (List.mem_range.1 hp))
  rw [editCalls_append fun p hp hcall => le_length_of_callAt ((hcalls p hp).1 hcall), hsame,
    editCalls_closeParen_cons]
  rfl

/-! ### Passes -/

/-- A pass, and then all calls that it leaves, are all calls of the text. -/
theorem Plain.shallow_andThen_editCalls (h : r.Plain) (t : Bytes) :
    (r.shallow t).andThen (r.editCalls Paren.first?) = r.editCalls Paren.first? t := by
  have hfree := h.parenFree
  induction t using shallow_induction r with
  | plain t hnot =>
    rw [shallow_eq_kept hnot]
    exact Edit.eq_of_text_of_replacements rfl (Nat.zero_add _)
  | call before u v hbefore hclose hline ih =>
    have hsome : (Paren.first? (u ++ Bytes.closeParen :: v)).isSome :=
      Paren.isSome_first?_append hline v
    rw [shallow_append hbefore, shallow_call hclose hline,
      editCalls_append_trigger_append hfree hbefore, if_pos hsome,
      editCalls_append_closeParen_cons hfree hline, ← ih]
    -- the head is no trigger, and the triggers in the argument are left
    rw [Edit.kept_append_andThen
        (editCalls_append_of_noTriggerIn (h.noTriggerIn_before_head hbefore _)),
      Edit.opened_append_andThen (editCalls_append_of_noTriggerIn (h.noTriggerIn_head _)),
      ← Edit.append_assoc (.kept u), ← Edit.append_assoc (r.editCalls _ u), ← Edit.kept_append]
    refine congrArg (Edit.kept before ++ ·) (congrArg (Edit.opened r ++ ·) ?_)
    refine Edit.kept_append_andThen ?_
    rw [← List.append_cons, editCalls_append_closeParen_cons hfree hline, Edit.append_assoc]
  | pass before rest hbefore hclose ih =>
    have hnone : Paren.first? (r.shallow rest).text = none := by
      rw [← Option.not_isSome_iff_eq_none, isSome_first?_text_shallow h, hclose]
      exact Bool.false_ne_true
    rw [shallow_append hbefore, shallow_pass hfree hclose,
      editCalls_append_trigger_append hfree hbefore, hclose, ← ih]
    -- the trigger is as open as before
    rw [Edit.kept_append_andThen
      (editCalls_append_of_noTriggerIn (h.noTriggerIn_before_trigger hbefore _))]
    refine congrArg (Edit.kept before ++ ·) (Edit.kept_append_andThen ?_)
    rw [editCalls_trigger_append hfree, hnone]

/-- A text after a number of shallow passes, with the replacements of all of them. -/
def passes (r : Rule) (t : Bytes) : Nat → Edit
  | 0 => .kept t
  | n + 1 => (r.passes t n).andThen (r.apply .shallow)

/-- After any number of passes, the calls that are left make up for those that were replaced. -/
theorem Plain.passes_andThen_editCalls (h : r.Plain) (t : Bytes) (n : Nat) :
    (r.passes t n).andThen (r.editCalls Paren.first?) = r.editCalls Paren.first? t := by
  induction n with
  | zero => exact Edit.eq_of_text_of_replacements rfl (Nat.zero_add _)
  | succ n ih =>
    calc (r.passes t (n + 1)).andThen (r.editCalls Paren.first?)
        = (r.passes t n).andThen fun s =>
            (r.shallow s).andThen (r.editCalls Paren.first?) := Edit.andThen_assoc _ _ _
      _ = (r.passes t n).andThen (r.editCalls Paren.first?) := by
        simp only [h.shallow_andThen_editCalls]
      _ = r.editCalls Paren.first? t := ih

/-- As many calls are left as have not been replaced. -/
theorem Plain.replacements_passes_add (h : r.Plain) (t : Bytes) (n : Nat) :
    (r.passes t n).replacements + (r.calls Paren.first? (r.passes t n).text).length =
      (r.calls Paren.first? t).length :=
  congrArg Edit.replacements (h.passes_andThen_editCalls t n)

/-- Every pass replaces a call, as long as one is left. -/
theorem Plain.min_le_replacements_passes (h : r.Plain) (t : Bytes) (n : Nat) :
    min n (r.calls Paren.first? t).length ≤ (r.passes t n).replacements := by
  induction n with
  | zero => simp
  | succ n ih =>
    have hadd := h.replacements_passes_add t n
    show _ ≤ (r.passes t n).replacements + (r.shallow (r.passes t n).text).replacements
    by_cases hnone : (r.shallow (r.passes t n).text).replacements = 0
    · rw [shallow_replacements_eq_zero_iff h.parenFree] at hnone
      rw [hnone, List.length_nil, Nat.add_zero] at hadd
      omega
    · omega

/-- After as many shallow passes as the text has calls, and possibly after fewer, a pass replaces
nothing. When it is so far, every call has been replaced in its place, whether it was nested or not,
each of them in one of the passes, and everything else is as it was. -/
theorem passes_converge (h : r.Plain) (t : Bytes) :
    let all := r.calls Paren.first? t
    (∀ n, all.length ≤ n → (r.apply .shallow (r.passes t n).text).replacements = 0) ∧
      ∀ n, (r.apply .shallow (r.passes t n).text).replacements = 0 →
        (r.passes t n).text = Bytes.splice r.trigger.length r.head all t ∧
          (r.passes t n).replacements = all.length := by
  intro all
  have hnone : ∀ n, (r.apply .shallow (r.passes t n).text).replacements = 0 ↔
      r.calls Paren.first? (r.passes t n).text = [] :=
    fun n => shallow_replacements_eq_zero_iff h.parenFree _
  constructor
  · intro n hn
    have hadd : _ = all.length := h.replacements_passes_add t n
    have hmin : min n all.length ≤ _ := h.min_le_replacements_passes t n
    rw [hnone, ← List.length_eq_zero_iff]
    omega
  · intro n hn
    have hleft := calls_eq_nil_iff.1 ((hnone n).1 hn)
    have hall := h.passes_andThen_editCalls t n
    rw [Edit.andThen, editCalls_eq_kept hleft] at hall
    have htext := congrArg Edit.text hall
    have hcount := congrArg Edit.replacements hall
    exact ⟨htext, hcount⟩

/-- Of three calls in one another, each pass replaces the outermost one that is left. -/
theorem passes_converge_nested :
    let t := Bytes.ofString "a.withOpacity(b.withOpacity(c.withOpacity(d)))"
    withOpacity.Plain ∧
      withOpacity.calls Paren.first? t = [1, 15, 29] ∧
      (withOpacity.passes t 3).text = Bytes.ofString
        "a.withValues(alpha: b.withValues(alpha: c.withValues(alpha: d)))" ∧
      (withOpacity.passes t 3).replacements = 3 := by
  intro t
  have hplain := plain_withOpacity
  have hcalls : withOpacity.calls Paren.first? t = [1, 15, 29] := by decide
  obtain ⟨hdone, hall⟩ := passes_converge hplain t
  have hthree := hall 3 (hdone 3 (by rw [hcalls]; decide))
  rw [hcalls] at hthree
  refine ⟨hplain, hcalls, ?_, hthree.2⟩
  rw [hthree.1]
  decide +kernel

end Rule

end CallMigration
