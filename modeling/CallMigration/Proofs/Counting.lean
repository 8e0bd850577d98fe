import Mathlib.Tactic.Linarith
import CallMigration.Proofs.Following
import CallMigration.Proofs.Processing
import CallMigration.Proofs.Replacements

/-!
# What the count of replacements tells

How many calls an edit has replaced shows in its text: the length of the text follows from the
count, and the text has stayed the same exactly when the count is zero. So a file is reported as
fixed exactly when something in it was replaced.

## Main Definitions

* `Status.Tells` — a status says what an edit has made of a text

## Main Statements

* `Rule.Rewrites.text_eq_iff` — a text stays the same only when nothing is replaced in it
* `Rule.replacements_apply_exact` — the count, the text and the status of a file agree

## Design Notes

Where the head and the trigger have different lengths, the length of the text tells the count. Where
they have the same length, every piece of the text stays at its place, so nothing can make up for a
replaced trigger; and no head is a trigger, because they end with different bytes.
-/

namespace CallMigration

/-- A status says what an edit has made of a text. -/
inductive Status.Tells (t : Bytes) (e : Edit) : Status → Prop
  /-- Nothing was replaced, and the text is the same. -/
  | unchanged (hnone : e.replacements = 0) (hsame : e.text = t) : Tells t e .unchanged
  /-- The status has the count of what was replaced, and the text is another one. -/
  | fixed (hsome : 0 < e.replacements) (hother : e.text ≠ t) : Tells t e (.fixed e.replacements)

namespace Rule

variable {r : Rule}

/-! ### Heads and triggers -/

theorem length_ofString (s : String) : (Bytes.ofString s).length = s.utf8ByteSize := rfl

theorem length_trigger_eq (r : Rule) : r.trigger.length = r.method.utf8ByteSize + 2 := by
  simp [trigger, length_ofString]

theorem length_head_eq (r : Rule) :
    r.head.length = r.replacement.utf8ByteSize + r.label.utf8ByteSize + 4 := by
  have hsigns : (".".utf8ByteSize = 1 ∧ "(".utf8ByteSize = 1) ∧ ": ".utf8ByteSize = 2 := by decide
  simp only [head, length_ofString, String.utf8ByteSize_append, hsigns]
  omega

/-- A head ends with a space and a trigger with a parenthesis. -/
theorem head_ne_trigger (r : Rule) : r.head ≠ r.trigger := by
  intro h
  have hhead : r.head.getLast? = some 0x20 := by
    rw [head, Bytes.ofString_append, show Bytes.ofString ": " = [0x3A] ++ [0x20] by decide,
      ← List.append_assoc, List.getLast?_concat]
  have htrigger : r.trigger.getLast? = some Bytes.openParen := by
    rw [trigger, ← List.cons_append, List.getLast?_concat]
  rw [h, htrigger] at hhead
  exact absurd hhead (by decide)

/-! ### Edited texts -/

/-- Among heads that are as long as the trigger, every piece stays at its place. -/
theorem Rewrites.replacements_eq_zero_of_length_eq {t : Bytes} {e : Edit} (h : r.Rewrites t e)
    (hlength : r.head.length = r.trigger.length) (hsame : e.text = t) : e.replacements = 0 := by
  induction h with
  | kept t => rfl
  | opened => exact absurd hsame r.head_ne_trigger
  | append ha hb iha ihb =>
    have hpiece := ha.length_text
    rw [hlength] at hpiece
    obtain ⟨hfirst, hsecond⟩ := List.append_inj hsame (by omega)
    rw [Edit.replacements_append, iha hfirst, ihb hsecond]

/-- A text stays the same exactly when nothing is replaced in it. -/
theorem Rewrites.text_eq_iff {t : Bytes} {e : Edit} (h : r.Rewrites t e) :
    e.text = t ↔ e.replacements = 0 := by
  refine ⟨fun hsame => ?_, h.text_eq⟩
  by_cases hlength : r.head.length = r.trigger.length
  · exact h.replacements_eq_zero_of_length_eq hlength hsame
  · have hcount := h.length_text
    rw [hsame, Nat.add_left_cancel_iff, mul_eq_mul_left_iff] at hcount
    exact hcount.resolve_left (Ne.symm hlength)

/-- The bytes that an edit adds, negative when a head is shorter than the trigger. -/
theorem Rewrites.length_text_eq {t : Bytes} {e : Edit} (h : r.Rewrites t e) :
    (e.text.length : Int) = t.length + e.replacements *
      ((r.replacement.utf8ByteSize : Int) + r.label.utf8ByteSize + 2 - r.method.utf8ByteSize) := by
  have hcount := congrArg (Nat.cast (R := Int)) h.length_text
  rw [length_trigger_eq, length_head_eq] at hcount
  push_cast at hcount
  linarith

/-- The count of replacements tells how much longer the text has got and whether it has stayed the
same, in both modes and for all texts; and what is reported about a file says the same. -/
theorem replacements_apply_exact (r : Rule) :
    (∀ mode t,
      ((r.apply mode t).text.length : Int) = t.length + (r.apply mode t).replacements *
        ((r.replacement.utf8ByteSize : Int) + r.label.utf8ByteSize + 2 - r.method.utf8ByteSize) ∧
      ((r.apply mode t).text = t ↔ (r.apply mode t).replacements = 0)) ∧
    ∀ host c v path status, (processFile host r c v path).1 = .ok status →
      ∃ t, v.readText host.disk path = .ok t ∧ status.Tells t (r.apply c.mode t) := by
  refine ⟨fun mode t => ?_, fun host c v path status hstatus => ?_⟩
  · have hrewrites := rewrites_apply r mode t
    exact ⟨hrewrites.length_text_eq, hrewrites.text_eq_iff⟩
  · unfold processFile at hstatus
    cases hread : v.readText host.disk path with
    | error e =>
      rw [hread] at hstatus
      cases hstatus
    | ok t =>
      have hiff := (rewrites_apply r c.mode t).text_eq_iff
      refine ⟨t, rfl, ?_⟩
      rw [hread] at hstatus
      simp only at hstatus
      by_cases hsame : (r.apply c.mode t).text = t
      · rw [if_pos hsame] at hstatus
        cases hstatus
        exact .unchanged (hiff.1 hsame) hsame
      · rw [if_neg hsame] at hstatus
        have hfixed : Status.Tells t (r.apply c.mode t) (.fixed (r.apply c.mode t).replacements) :=
          .fixed (Nat.pos_of_ne_zero (mt hiff.2 hsame)) hsame
        split at hstatus
        · cases hstatus
          exact hfixed
        · split at hstatus
          · cases hstatus
          · cases hstatus
            exact hfixed

/-- Two calls, one in the other, get heads that are as long as their triggers: the text is as long
as before and still another one. -/
theorem replacements_apply_exact_same_length :
    let r : Rule := ⟨"ab", "", ""⟩
    let c : Config := { mode := .balanced }
    let path := Bytes.ofString "a.dart"
    let f : File := ⟨Bytes.ofString "x.ab(y.ab(z))", {}⟩
    let v : Volume := ⟨⟨⟨{}, [(path, .file 0)]⟩, []⟩, [f]⟩
    let edit := r.apply .balanced f.content
    (processFile { home := [] } r c v path).1 = .ok (.fixed 2) ∧
      (∃ t, v.readText .sound path = .ok t ∧ (Status.fixed 2).Tells t (r.apply .balanced t)) ∧
      edit.text.length = f.content.length ∧ edit.text ≠ f.content := by
  intro r c path f v edit
  obtain ⟨hedit, hreport⟩ := replacements_apply_exact r
  have hcount : edit.replacements = 2 := by decide +kernel
  have hid : v.tree.fileAt? path = some 0 :=
    Tree.fileAt?_eq_of_followWithin (n := 1) (by decide) (by decide) (by decide) rfl
  have hwrites : WritesBack { home := [] } r c 0 f :=
    ⟨rfl, rfl, by decide, by decide +kernel, rfl, rfl, rfl⟩
  have hstatus : (processFile { home := [] } r c v path).1 = .ok (.fixed 2) := by
    rw [processFile_of_writesBack hid rfl hwrites, ← hcount]
    rfl
  obtain ⟨hlength, hsame⟩ := hedit .balanced f.content
  refine ⟨hstatus, hreport _ _ _ _ _ hstatus, ?_, fun h => ?_⟩
  · have hnothing : (r.replacement.utf8ByteSize : Int) + r.label.utf8ByteSize + 2 -
        r.method.utf8ByteSize = 0 := by decide
    rw [hnothing, mul_zero, add_zero] at hlength
    exact Int.ofNat.inj hlength
  · have hzero : edit.replacements = 0 := hsame.1 h
    rw [hcount] at hzero
    cases hzero

end Rule

end CallMigration
