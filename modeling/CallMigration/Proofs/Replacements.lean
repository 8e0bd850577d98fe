import CallMigration.Proofs.Shallow

/-!
# What replacements add to a text

In both modes some triggers of a text become heads, each of them is counted, and everything else
stays. So the length of the edited text follows from the count, and a text without any replacement
is as it was.

## Main Definitions

* `Rule.Rewrites` — an edit replaces triggers of a text and counts them

## Main Statements

* `Rule.rewrites_apply` — both modes do that
* `Rule.Rewrites.length_text` — the length of the edited text
* `Rule.length_lt_of_text_apply_ne` — what a rule with a longer head changes gets longer

## Design Notes

The lengths are compared with the triggers on one side and the heads on the other, so that no
length is subtracted.
-/

namespace CallMigration

namespace Rule

variable {r : Rule}

/-- The edit puts heads for some triggers of the text, counts them, and keeps everything else. -/
inductive Rewrites (r : Rule) : Bytes → Edit → Prop
  | kept (t : Bytes) : Rewrites r t (.kept t)
  | opened : Rewrites r r.trigger (.opened r)
  | append {s t : Bytes} {a b : Edit} (ha : Rewrites r s a) (hb : Rewrites r t b) :
      Rewrites r (s ++ t) (a ++ b)

/-- The argument of a call may be edited, and so may what stands behind the call. -/
theorem Rewrites.call_append {u v : Bytes} {a b : Edit}
    (ha : r.Rewrites ((u ++ Bytes.closeParen :: v).take u.length) a)
    (hb : r.Rewrites ((u ++ Bytes.closeParen :: v).drop (u.length + 1)) b) :
    r.Rewrites (r.trigger ++ (u ++ Bytes.closeParen :: v)) (.call r a ++ b) := by
  rw [List.take_left] at ha
  rw [Bytes.drop_append_cons] at hb
  rw [Edit.call_eq, Edit.append_assoc, Edit.append_assoc]
  exact .append .opened (.append ha (.append (.kept [Bytes.closeParen]) hb))

/-! ### Both modes -/

theorem rewrites_shallow (r : Rule) (t : Bytes) : r.Rewrites t (r.shallow t) := by
  fun_induction shallow r t with
  | case1 t hcut => exact .kept t
  | case2 t before rest hcut i hclose ih =>
    obtain ⟨u, v, rfl, rfl, -⟩ := Paren.first?_eq_some_iff.1 hclose
    rw [Bytes.eq_of_cut? hcut]
    exact .append (.kept before) (.call_append (.kept _) ih)
  | case3 t before rest hcut hclose ih =>
    rw [Bytes.eq_of_cut? hcut, trigger_eq, List.cons_append, List.append_cons before]
    exact .append (.kept _) ih

theorem rewrites_balanced (r : Rule) (t : Bytes) : r.Rewrites t (r.balanced t) := by
  fun_induction balanced r t with
  | case1 t hcut => exact .kept t
  | case2 t before rest hcut i hclose ihargument ihrest =>
    obtain ⟨u, v, rfl, rfl, -⟩ := Paren.matching?_eq_some_iff.1 hclose
    rw [Bytes.eq_of_cut? hcut]
    exact .append (.kept before) (.call_append ihargument ihrest)
  | case3 t before rest hcut hclose ih =>
    rw [Bytes.eq_of_cut? hcut, ← List.append_assoc]
    exact .append (.kept _) ih

theorem rewrites_apply (r : Rule) (mode : Mode) (t : Bytes) : r.Rewrites t (r.apply mode t) := by
  cases mode with
  | shallow => exact rewrites_shallow r t
  | balanced => exact rewrites_balanced r t

/-! ### Lengths -/

/-- Each replacement takes the bytes of a trigger and puts the bytes of a head. -/
theorem Rewrites.length_text {t : Bytes} {e : Edit} (h : r.Rewrites t e) :
    e.text.length + e.replacements * r.trigger.length =
      t.length + e.replacements * r.head.length := by
  induction h with
  | kept t => simp
  | opened => simp [Edit.opened, Nat.add_comm]
  | append ha hb iha ihb =>
    simp only [Edit.text_append, Edit.replacements_append, List.length_append, Nat.add_mul]
    omega

/-- A text in which nothing is replaced stays as it is. -/
theorem Rewrites.text_eq {t : Bytes} {e : Edit} (h : r.Rewrites t e) (hnone : e.replacements = 0) :
    e.text = t := by
  induction h with
  | kept t => rfl
  | opened => cases hnone
  | append ha hb iha ihb =>
    rw [Edit.replacements_append, Nat.add_eq_zero_iff] at hnone
    rw [Edit.text_append, iha hnone.1, ihb hnone.2]

/-- What a rule changes whose head is longer than its trigger gets longer. -/
theorem length_lt_of_text_apply_ne (hlonger : r.trigger.length < r.head.length) {mode : Mode}
    {t : Bytes} (h : (r.apply mode t).text ≠ t) : t.length < (r.apply mode t).text.length := by
  have hrewrites := rewrites_apply r mode t
  have hlength := hrewrites.length_text
  have hpos : 0 < (r.apply mode t).replacements := Nat.pos_of_ne_zero fun hnone =>
    h (hrewrites.text_eq hnone)
  have hmore := Nat.mul_lt_mul_of_pos_left hlonger hpos
  omega

end Rule

end CallMigration
