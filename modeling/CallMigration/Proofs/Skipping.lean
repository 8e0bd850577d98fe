import CallMigration.Proofs.Grammar

/-!
# Values that nobody asks for

A value that does not matter is passed over, whatever it contains and however deep it is nested: the
text behind it is what is left.

## Main Definitions

* `Json.enter` — the text behind what an element has in front of its value

## Main Statements

* `Json.skipFrom_of_isValue` — a value inside of open containers is passed over
* `Json.skipValue_of_isValue` — so is a whole value

## Design Notes

The open containers are on a stack that a value does not touch, so what is said about a value is
said for every stack. The induction is over the grammar: values, their elements, and one element.
-/

namespace CallMigration

namespace Json

variable {t rest : Bytes} {stack : List Container} {c : Container}

/-! ### Strings and numbers -/

theorem skipEscape_letter {b : UInt8} {ch : Char} (h : (b, ch) ∈ escapeLetters) (rest : Bytes) :
    skipEscape (b :: rest) = .ok rest := by
  rw [skipEscape, letterEscape?_of_mem _ h]

theorem skipEscape_number {ds : Bytes} {n : Nat} (h : FourDigits ds n) (rest : Bytes) :
    skipEscape (letterU :: (ds ++ rest)) = .ok rest := by
  rw [skipEscape, show letterEscape? letterU = none by decide, if_pos rfl, readFourHex_append h]

theorem skipString_backslash (h : skipEscape t = .ok rest) :
    skipString (backslash :: t) = skipString rest := by
  rw [skipString, if_neg (by decide), if_pos rfl]
  split
  next e he =>
    rw [h] at he
    cases he
  next rest' he =>
    rw [h] at he
    cases he
    rfl

/-- A string is passed over up to the quote behind it. -/
theorem skipString_of_isQuoted (h : IsQuoted t) (rest : Bytes) :
    skipString (t ++ quote :: rest) = .ok rest := by
  induction h with
  | nil => rw [List.nil_append, skipString, if_pos rfl]
  | plain hquote hbackslash hcontrol ht ih =>
    rw [List.cons_append, skipString, if_neg hquote, if_neg hbackslash,
      if_neg (UInt8.not_lt.2 hcontrol), ih]
  | letter hletter ht ih =>
    rw [List.cons_append, List.cons_append, skipString_backslash (skipEscape_letter hletter _), ih]
  | number hds ht ih =>
    rw [List.cons_append, List.cons_append, List.append_assoc,
      skipString_backslash (skipEscape_number hds _), ih]

/-- The sign of a number does not count when it is passed over. -/
theorem skipNumber_of_isUnsigned {negative : Bool} {l : Literal} (h : IsUnsigned negative t l)
    (hrest : EndsNumber rest) : skipNumber (t ++ rest) = .ok rest := by
  obtain ⟨hinteger, hfraction, hexponent⟩ := h
  have hnumber : IsUnsigned false _ _ := .mk hinteger hfraction hexponent
  rw [skipNumber, readNumber_of_isUnsigned hnumber hrest]

/-! ### Starts of values -/

theorem skipOpening_digit {b : UInt8} (hb : Bytes.isDigit b = true) (t : Bytes) :
    skipOpening (b :: t) = Opening.whole (skipNumber (b :: t)) := by
  have hne {x : UInt8} (hx : Bytes.isDigit x = false) : b ≠ x := Bytes.ne_of_isDigit hb hx
  rw [skipOpening, if_neg (hne rfl), if_neg (hne rfl), if_neg (hne rfl), if_neg (hne rfl),
    if_neg (hne rfl), if_neg (hne rfl), if_neg (hne rfl), if_pos hb]

/-! ### Steps of the scan -/

/-- The text behind what an element has in front of its value: nothing, or a key and a colon. -/
def enter : Container → Bytes → Except Fault Bytes
  | .array, t => .ok t
  | .object, t => skipKey t

theorem skipFrom_value_of_over (h : skipOpening (skipBlanks t) = .ok (.over, rest)) :
    skipFrom stack .value t = skipFrom stack .next rest := by
  rw [skipFrom]
  split <;> simp_all

theorem skipFrom_value_of_contains (h : skipOpening (skipBlanks t) = .ok (.contains c, rest)) :
    skipFrom stack .value t = skipFrom (c :: stack) .first rest := by
  rw [skipFrom]
  split <;> simp_all

/-- White space in front of a value does not count. -/
theorem skipFrom_value_congr {u : Bytes} (h : skipBlanks t = skipBlanks u) :
    skipFrom stack .value t = skipFrom stack .value u := by
  rw [skipFrom, skipFrom, h]

theorem skipKey_congr {u : Bytes} (h : skipBlanks t = skipBlanks u) : skipKey t = skipKey u := by
  rw [skipKey, skipKey, h]

/-- Where the first element may come, the container may end as well. -/
theorem skipFrom_first {b : UInt8} (h : skipBlanks t = b :: rest) :
    skipFrom (c :: stack) .first t =
      if b = c.close then skipFrom stack .next rest
      else
        match enter c (b :: rest) with
        | .error e => .error e
        | .ok rest => skipFrom (c :: stack) .value rest := by
  conv => lhs; rw [skipFrom]
  split
  · simp_all
  next b' rest' hb' =>
    obtain ⟨rfl, rfl⟩ := List.cons.inj (h.symm.trans hb')
    cases c with
    | array => rfl
    | object =>
      simp only [if_true, enter]
      split
      · rfl
      · split <;> simp_all

/-- Behind an element comes another one, behind a comma, or the end of the container. -/
theorem skipFrom_next {b : UInt8} (h : skipBlanks t = b :: rest) :
    skipFrom (c :: stack) .next t =
      if b = c.close then skipFrom stack .next rest
      else if b = comma then
        match enter c rest with
        | .error e => .error e
        | .ok rest => skipFrom (c :: stack) .value rest
      else .error (.ahead (b :: rest) c.separatorCause) := by
  conv => lhs; rw [skipFrom]
  split
  · simp_all
  next b' rest' hb' =>
    obtain ⟨rfl, rfl⟩ := List.cons.inj (h.symm.trans hb')
    cases c with
    | array => rfl
    | object =>
      simp only [if_true, enter]
      split
      · rfl
      · split
        · split <;> simp_all
        · rfl

theorem isBlank_close (c : Container) : isBlank c.close = false := by
  cases c <;> rfl

/-- A container may be closed at once. -/
theorem skipFrom_first_close {w : Bytes} (hw : Blank w) (rest : Bytes) :
    skipFrom (c :: stack) .first (w ++ c.close :: rest) = skipFrom stack .next rest := by
  rw [skipFrom_first (skipBlanks_append_cons hw (isBlank_close c) rest), if_pos rfl]

/-- The first element starts behind white space with no end of the container. -/
theorem skipFrom_first_of_enter {w : Bytes} {b : UInt8} (hw : Blank w) (hb : StartsElement b)
    (h : enter c (w ++ b :: t) = .ok rest) :
    skipFrom (c :: stack) .first (w ++ b :: t) = skipFrom (c :: stack) .value rest := by
  have hblanks : skipBlanks (w ++ b :: t) = b :: t := skipBlanks_append_cons hw hb.1 t
  have hsame : skipBlanks (b :: t) = skipBlanks (w ++ b :: t) := by
    rw [hblanks, skipBlanks_cons hb.1]
  rw [skipFrom_first hblanks, if_neg (hb.ne_close c)]
  cases c with
  | array =>
    cases h
    exact skipFrom_value_congr hsame
  | object =>
    have hkey : skipKey (b :: t) = .ok rest := (skipKey_congr hsame).trans h
    simp only [enter, hkey]

theorem skipFrom_next_close (rest : Bytes) :
    skipFrom (c :: stack) .next (c.close :: rest) = skipFrom stack .next rest := by
  rw [skipFrom_next (skipBlanks_cons (isBlank_close c) rest), if_pos rfl]

/-- Every other element starts behind a comma. -/
theorem skipFrom_next_of_enter (h : enter c t = .ok rest) :
    skipFrom (c :: stack) .next (comma :: t) = skipFrom (c :: stack) .value rest := by
  have hclose : comma ≠ c.close := by cases c <;> decide
  rw [skipFrom_next (skipBlanks_cons rfl t), if_neg hclose, if_pos rfl, h]

theorem skipFrom_next_append {w : Bytes} (hw : Blank w) (t : Bytes) :
    skipFrom (c :: stack) .next (w ++ t) = skipFrom (c :: stack) .next t := by
  rw [skipFrom, skipFrom, skipBlanks_append hw]

/-! ### Values -/

theorem skipOpening_literal {word : String} (hword : word ∈ ["null", "true", "false"])
    (rest : Bytes) : skipOpening (Bytes.ofString word ++ rest) = .ok (.over, rest) := by
  simp only [List.mem_cons, List.not_mem_nil, or_false] at hword
  obtain rfl | rfl | rfl := hword <;> rfl

/-- The key of a member is passed over with its colon. -/
theorem skipKey_of_isQuoted {w k x : Bytes} (hw : Blank w) (hk : IsQuoted k) (hx : Blank x)
    (rest : Bytes) : skipKey (w ++ quote :: (k ++ quote :: (x ++ colon :: rest))) = .ok rest := by
  rw [skipKey, skipBlanks_append_cons hw (by decide)]
  simp only [ne_eq, not_true_eq_false, if_false, skipString_of_isQuoted hk,
    skipBlanks_append_cons hx (show isBlank colon = false by decide), if_true]

theorem skipOpening_opening (c : Container) (t : Bytes) :
    skipOpening (c.opening :: t) = .ok (.contains c, t) := by
  cases c <;> rfl

/-- A value that is over at once inside of open containers. -/
theorem skipFrom_of_skipOpening {v : Bytes} (hv : IsValue v)
    (h : skipOpening (v ++ rest) = .ok (.over, rest)) :
    skipFrom stack .value (v ++ rest) = skipFrom stack .next rest := by
  obtain ⟨b, u, rfl, hb⟩ := hv.exists_cons
  refine skipFrom_value_of_over ?_
  rw [List.cons_append] at h ⊢
  rw [skipBlanks_cons hb.1, h]

/-- A container opens inside of open containers. -/
theorem skipFrom_opening (c : Container) (stack : List Container) (t : Bytes) :
    skipFrom stack .value (c.opening :: t) = skipFrom (c :: stack) .first t := by
  refine skipFrom_value_of_contains ?_
  have hblank : isBlank c.opening = false := by cases c <;> rfl
  rw [skipBlanks_cons hblank, skipOpening_opening]

mutual

/-- A value inside of open containers is passed over up to what is behind it. -/
theorem skipFrom_of_isValue {v : Bytes} : IsValue v → ∀ (stack : List Container) {rest : Bytes},
    EndsNumber rest → skipFrom stack .value (v ++ rest) = skipFrom stack .next rest
  | .literal hword, stack, rest, _ =>
    skipFrom_of_skipOpening (.literal hword) (skipOpening_literal hword rest)
  | .number ht, stack, rest, hrest => by
    refine skipFrom_of_skipOpening (.number ht) ?_
    have hskip := skipNumber_of_isUnsigned ht hrest
    obtain ⟨b, u, rfl, hb⟩ := exists_digit_of_isUnsigned ht
    rw [List.cons_append] at hskip ⊢
    rw [skipOpening_digit hb, hskip]
    rfl
  | .negative ht, stack, rest, hrest => by
    refine skipFrom_of_skipOpening (.negative ht) ?_
    show Opening.whole (skipNumber (_ ++ rest)) = _
    rw [skipNumber_of_isUnsigned ht hrest]
    rfl
  | .string ht, stack, rest, _ => by
    refine skipFrom_of_skipOpening (.string ht) ?_
    rw [List.cons_append, List.append_assoc, List.singleton_append]
    show Opening.whole (skipString _) = _
    rw [skipString_of_isQuoted ht]
    rfl
  | .empty c hw, stack, rest, _ => by
    rw [List.cons_append, List.append_assoc, List.singleton_append, skipFrom_opening,
      skipFrom_first_close hw]
  | .container c ht, stack, rest, _ => by
    obtain ⟨w, b, u, rest', hsplit, hw, hb, henter, hskip⟩ :=
      exists_enter_of_isElements ht stack rest
    rw [List.cons_append, List.append_assoc, List.singleton_append, skipFrom_opening]
    rw [hsplit] at henter ⊢
    rw [skipFrom_first_of_enter hw hb henter, hskip]

/-- The elements of a container are passed over with its end. -/
theorem exists_enter_of_isElements {c : Container} {ts : Bytes} : IsElements c ts →
    ∀ (stack : List Container) (rest : Bytes),
      ∃ w b u rest', ts ++ c.close :: rest = w ++ b :: u ∧ Blank w ∧ StartsElement b ∧
        enter c (ts ++ c.close :: rest) = .ok rest' ∧
        skipFrom (c :: stack) .value rest' = skipFrom stack .next rest
  | .one ht, stack, rest => by
    obtain ⟨rest', henter, hskip⟩ :=
      exists_enter_of_isElement ht stack (endsNumber_close c rest)
    obtain ⟨w, b, u, rfl, hw, hb⟩ := ht.exists_cons
    refine ⟨w, b, _, rest', List.append_assoc .., hw, hb, henter, ?_⟩
    rw [hskip, skipFrom_next_close]
  | @IsElements.more _ _ ts ht hts, stack, rest => by
    obtain ⟨-, -, -, rest'', -, -, -, henter', hskip'⟩ := exists_enter_of_isElements hts stack rest
    obtain ⟨rest', henter, hskip⟩ := exists_enter_of_isElement ht stack
      (endsNumber_comma (ts ++ c.close :: rest))
    obtain ⟨w, b, u, rfl, hw, hb⟩ := ht.exists_cons
    rw [List.append_assoc, List.cons_append]
    refine ⟨w, b, _, rest', List.append_assoc .., hw, hb, henter, ?_⟩
    rw [hskip, skipFrom_next_of_enter henter', hskip']

/-- An element is passed over up to what is behind it. -/
theorem exists_enter_of_isElement {c : Container} {t : Bytes} : IsElement c t →
    ∀ (stack : List Container) {rest : Bytes}, EndsNumber rest →
      ∃ rest', enter c (t ++ rest) = .ok rest' ∧
        skipFrom (c :: stack) .value rest' = skipFrom (c :: stack) .next rest
  | .item hw hv hu, stack, rest, hrest => by
    refine ⟨_, rfl, ?_⟩
    rw [List.append_assoc, List.append_assoc, skipFrom_value_congr (skipBlanks_append hw _),
      skipFrom_of_isValue hv _ (endsNumber_append hu hrest), skipFrom_next_append hu]
  | .member (y := y) (v := v) (u := u) hw hk hx hy hv hu, stack, rest, hrest => by
    refine ⟨y ++ (v ++ (u ++ rest)), ?_, ?_⟩
    · simp only [List.append_assoc, List.cons_append]
      exact skipKey_of_isQuoted hw hk hx _
    · rw [skipFrom_value_congr (skipBlanks_append hy _),
        skipFrom_of_isValue hv _ (endsNumber_append hu hrest), skipFrom_next_append hu]

end

/-- A value that does not matter is passed over up to what is behind it. -/
theorem skipValue_of_isValue {w v : Bytes} (hw : Blank w) (hv : IsValue v)
    (hrest : EndsNumber rest) : skipValue (w ++ (v ++ rest)) = .ok rest := by
  rw [skipValue, skipFrom_value_congr (skipBlanks_append hw _), skipFrom_of_isValue hv [] hrest]
  rw [skipFrom]
  decide

end Json

end CallMigration
