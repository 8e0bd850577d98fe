import CallMigration.Proofs.Shallow

/-!
# Repeating the shallow edit

What a second shallow pass does to the text of the first. A replacement never makes a new call, so
a second pass finds the calls that the first one swallowed, and those only.

## Main Definitions

* `Rule.Plain` — no name of the rule holds a mark of a call, and the rule changes the method

## Main Statements

* `Rule.Plain.noTriggerIn_head` — no trigger starts in the head of a replacement
* `Rule.isSome_first?_text_shallow` — a pass leaves the lines with a `)` what they are
* `Rule.calls_text_shallow_eq_nil_iff` — a pass leaves no call exactly when no call was nested
* `Rule.withOpacity_apply_shallow_twice_iff` — when a second pass changes nothing

## Design Notes

The text of a pass is read as the text before it: what was a trigger is a head or still a trigger.
A trigger has a single dot, its first byte, and no trigger starts in a head. So the triggers in the
text of a pass are those that the pass kept.
-/

namespace CallMigration

namespace Rule

variable {r : Rule}

/-! ### Plain rules -/

/-- The characters that begin, open and close a call, and the one that ends a line. -/
def callMarks : List Char := ['.', '(', ')', '\n']

/-- The name holds no mark of a call. -/
def Unmarked (name : String) : Prop := ∀ c ∈ callMarks, c ∉ name.toList

instance unmarkedDecidable (name : String) : Decidable (Unmarked name) :=
  List.decidableBAll _ callMarks

/-- An unmarked name holds no byte of a mark. -/
theorem Unmarked.notMem_ofString {name : String} (h : Unmarked name) {c : Char}
    (hmark : c ∈ callMarks) : UInt8.ofNat c.toNat ∉ Bytes.ofString name := by
  have hlow : c.toNat < 0x80 := by
    simp only [callMarks, List.mem_cons, List.not_mem_nil, or_false] at hmark
    rcases hmark with rfl | rfl | rfl | rfl <;> decide
  exact Bytes.notMem_ofString hlow (h c hmark)

/-- No name of the rule holds a mark of a call, and the method is replaced by another one. -/
structure Plain (r : Rule) : Prop where
  method : Unmarked r.method
  replacement : Unmarked r.replacement
  label : Unmarked r.label
  ne : r.method ≠ r.replacement

theorem plain_withOpacity : withOpacity.Plain :=
  ⟨by decide, by decide, by decide, by decide⟩

theorem Plain.parenFree (h : r.Plain) : r.ParenFree :=
  ⟨h.method _ (by decide), h.method _ (by decide)⟩

theorem Plain.dot_notMem_triggerTail (h : r.Plain) : Bytes.dot ∉ r.triggerTail := by
  have hmethod : Bytes.dot ∉ Bytes.ofString r.method :=
    h.method.notMem_ofString (c := '.') (by decide)
  simp only [triggerTail, List.mem_append, List.mem_singleton, not_or]
  exact ⟨hmethod, by decide⟩

/-- The head without its dot. -/
def headTail (r : Rule) : Bytes :=
  Bytes.ofString r.replacement ++
    Bytes.openParen :: (Bytes.ofString r.label ++ Bytes.ofString ": ")

theorem head_eq (r : Rule) : r.head = Bytes.dot :: r.headTail := by
  simp only [head, headTail, Bytes.ofString_append, List.append_assoc]
  rfl

theorem notMem_headTail {b : UInt8} (hreplacement : b ∉ Bytes.ofString r.replacement)
    (hlabel : b ∉ Bytes.ofString r.label) (hopen : b ≠ Bytes.openParen)
    (hcolon : b ∉ Bytes.ofString ": ") : b ∉ r.headTail := by
  simp only [headTail, List.mem_append, List.mem_cons, not_or]
  exact ⟨hreplacement, hopen, hlabel, hcolon⟩

theorem Plain.dot_notMem_headTail (h : r.Plain) : Bytes.dot ∉ r.headTail :=
  notMem_headTail (h.replacement.notMem_ofString (c := '.') (by decide))
    (h.label.notMem_ofString (c := '.') (by decide)) (by decide) (by decide)

theorem Plain.newline_notMem_trigger (h : r.Plain) : Bytes.newline ∉ r.trigger :=
  notMem_trigger (h.method.notMem_ofString (c := '\n') (by decide)) (by decide) (by decide)

theorem Plain.newline_notMem_head (h : r.Plain) : Bytes.newline ∉ r.head := by
  rw [head_eq, List.mem_cons, not_or]
  exact ⟨by decide, notMem_headTail (h.replacement.notMem_ofString (c := '\n') (by decide))
    (h.label.notMem_ofString (c := '\n') (by decide)) (by decide) (by decide)⟩

/-! ### Triggers around a head -/

/-- A trigger and a head differ in the name behind the dot. -/
theorem Plain.not_isPrefix_head_append (h : r.Plain) (z : Bytes) :
    ¬ r.trigger <+: r.head ++ z := by
  rw [trigger_eq, head_eq, List.cons_append, List.cons_prefix_cons, triggerTail, headTail,
    List.append_assoc, List.cons_append]
  rintro ⟨-, hstart⟩
  have hmethod : Bytes.ofString r.method <+: Bytes.ofString r.replacement :=
    Bytes.isPrefix_of_isPrefix_append_cons ((List.prefix_append _ _).trans hstart)
      (h.method.notMem_ofString (c := '(') (by decide))
  obtain ⟨x, hx⟩ := hmethod
  cases x with
  | nil => exact h.ne (Bytes.ofString_inj.1 (by simpa using hx))
  | cons b x =>
    -- the name that goes on holds the parenthesis of the trigger
    rw [← hx, List.append_assoc, List.prefix_append_right_inj, List.cons_append,
      List.cons_prefix_cons] at hstart
    have hopen : Bytes.openParen ∈ Bytes.ofString r.replacement := by
      rw [← hx, hstart.1]
      simp
    exact h.replacement.notMem_ofString (c := '(') (by decide) hopen

/-- No trigger starts in the head of a replacement. -/
theorem Plain.noTriggerIn_head (h : r.Plain) (z : Bytes) : r.NoTriggerIn r.head z := by
  intro p hp
  cases p with
  | zero => exact h.not_isPrefix_head_append z
  | succ p =>
    rw [head_eq, List.length_cons] at hp
    have hp' := Nat.lt_of_succ_lt_succ hp
    rw [head_eq, List.cons_append, List.drop_succ_cons, List.drop_append_of_le_length hp'.le,
      List.drop_eq_getElem_cons hp', trigger_eq, List.cons_append, List.cons_prefix_cons]
    rintro ⟨hdot, -⟩
    have hmem : Bytes.dot ∈ r.headTail := hdot ▸ List.getElem_mem hp'
    exact h.dot_notMem_headTail hmem

/-- Whether a trigger starts in front of a dot does not depend on what follows the dot. -/
theorem Plain.noTriggerIn_dot_cons (h : r.Plain) {a y : Bytes}
    (ha : r.NoTriggerIn a (Bytes.dot :: y)) (z : Bytes) :
    r.NoTriggerIn a (Bytes.dot :: z) := by
  intro p hp
  have hshort : ¬ r.trigger <+: a.drop p := by
    intro hstart
    refine ha p hp ?_
    rw [List.drop_append_of_le_length hp.le]
    exact hstart.trans (List.prefix_append _ _)
  rw [List.drop_append_of_le_length hp.le, List.drop_eq_getElem_cons hp, trigger_eq,
    List.cons_append, List.cons_prefix_cons]
  rw [List.drop_eq_getElem_cons hp, trigger_eq, List.cons_prefix_cons] at hshort
  rintro ⟨hdot, hstart⟩
  exact hshort ⟨hdot, Bytes.isPrefix_of_isPrefix_append_cons hstart h.dot_notMem_triggerTail⟩

theorem Plain.noTriggerIn_before_head (h : r.Plain) {before rest : Bytes}
    (hbefore : r.NoTriggerIn before (r.trigger ++ rest)) (z : Bytes) :
    r.NoTriggerIn before (r.head ++ z) := by
  rw [head_eq]
  exact h.noTriggerIn_dot_cons hbefore _

theorem Plain.noTriggerIn_before_trigger (h : r.Plain) {before rest : Bytes}
    (hbefore : r.NoTriggerIn before (r.trigger ++ rest)) (z : Bytes) :
    r.NoTriggerIn before (r.trigger ++ z) :=
  h.noTriggerIn_dot_cons hbefore _

/-! ### What a pass leaves -/

/-- A pass moves no `)` to another line. -/
theorem isSome_first?_text_shallow (h : r.Plain) (t : Bytes) :
    (Paren.first? (r.shallow t).text).isSome = (Paren.first? t).isSome := by
  induction t using shallow_induction r with
  | plain t hnot => rw [shallow_eq_kept hnot, Edit.text_kept]
  | call before u v hbefore hclose hline ih =>
    rw [shallow_append hbefore, shallow_call hclose hline]
    refine Paren.isSome_first?_append_congr before ?_
    -- the `)` of the call is on the line, behind the head as behind the trigger
    have hhead : Bytes.newline ∉ r.head ++ u :=
      List.not_mem_append h.newline_notMem_head hline
    have htrigger : Bytes.newline ∉ r.trigger ++ u :=
      List.not_mem_append h.newline_notMem_trigger hline
    have hafter := Paren.isSome_first?_append hhead (r.shallow v).text
    have hbehind := Paren.isSome_first?_append htrigger v
    rw [List.append_assoc] at hafter hbehind
    exact hafter.trans hbehind.symm
  | pass before rest hbefore hclose ih =>
    rw [shallow_append hbefore, shallow_pass h.parenFree hclose]
    exact Paren.isSome_first?_append_congr before (Paren.isSome_first?_append_congr r.trigger ih)

/-- A pass leaves no call exactly when no call was nested in another one. -/
theorem calls_text_shallow_eq_nil_iff (h : r.Plain) (t : Bytes) :
    r.calls Paren.first? (r.shallow t).text = [] ↔ r.Unnested t := by
  have hfree := h.parenFree
  induction t using shallow_induction r with
  | plain t hnot =>
    have hcalls : r.calls Paren.first? t = [] := calls_eq_nil_iff.2 fun p hcall => hnot p hcall.1
    rw [shallow_eq_kept hnot, Edit.text_kept]
    exact iff_of_true hcalls (unnested_of_calls_eq_nil hcalls)
  | call before u v hbefore hclose hline ih =>
    rw [shallow_append hbefore, shallow_call hclose hline, unnested_append_iff hbefore,
      unnested_call_iff hfree hclose hline]
    show r.calls Paren.first? (before ++ (r.head ++ (u ++ Bytes.closeParen :: _))) = [] ↔ _
    rw [calls_append_eq_nil_iff (h.noTriggerIn_before_head hbefore _),
      calls_append_eq_nil_iff (h.noTriggerIn_head _),
      calls_append_closeParen_cons_eq_nil_iff hfree hline]
    exact and_congr (noTriggerIn_closeParen_cons_iff hfree _ v) ih
  | pass before rest hbefore hclose ih =>
    have hnone : Paren.first? (r.shallow rest).text = none := by
      rw [← Option.not_isSome_iff_eq_none, isSome_first?_text_shallow h, hclose]
      exact Bool.false_ne_true
    rw [shallow_append hbefore, shallow_pass hfree hclose, unnested_append_iff hbefore,
      unnested_pass_iff hfree hclose]
    show r.calls Paren.first? (before ++ (r.trigger ++ _)) = [] ↔ _
    rw [calls_append_eq_nil_iff (h.noTriggerIn_before_trigger hbefore _),
      calls_trigger_append_eq_nil_iff hfree, and_iff_right hnone]
    exact ih

/-- A second pass changes nothing exactly when no call was nested in another one. -/
theorem shallow_text_shallow_iff (h : r.Plain) (t : Bytes) :
    r.shallow (r.shallow t).text = .kept (r.shallow t).text ↔ r.Unnested t := by
  have hfree := h.parenFree
  rw [← calls_text_shallow_eq_nil_iff h]
  constructor
  · intro hkept
    rw [← shallow_replacements_eq_zero_iff hfree, hkept, Edit.replacements_kept]
  · exact shallow_eq_kept_of_calls_eq_nil hfree

/-! ### The built-in rule -/

/-- A second pass of the built-in rule replaces nothing and keeps the text exactly when no call was
nested in another one. -/
theorem withOpacity_apply_shallow_twice_iff (t : Bytes) :
    let once := withOpacity.apply .shallow t
    let twice := withOpacity.apply .shallow once.text
    (twice.replacements = 0 ∧ twice.text = once.text) ↔ withOpacity.Unnested t := by
  rw [← shallow_text_shallow_iff plain_withOpacity]
  constructor
  · rintro ⟨hcount, htext⟩
    exact Edit.eq_of_text_of_replacements htext hcount
  · intro hkept
    have htext := congrArg Edit.text hkept
    exact ⟨congrArg Edit.replacements hkept, htext⟩

/-- A call in the argument of a call is only replaced by the second pass. -/
theorem withOpacity_apply_shallow_twice_nested :
    let once := withOpacity.apply .shallow (Bytes.ofString "a.withOpacity(b.withOpacity(c))")
    let twice := withOpacity.apply .shallow once.text
    once.text = Bytes.ofString "a.withValues(alpha: b.withOpacity(c))" ∧
      twice.text = Bytes.ofString "a.withValues(alpha: b.withValues(alpha: c))" ∧
      twice.replacements = 1 := by
  decide +kernel

end Rule

end CallMigration
