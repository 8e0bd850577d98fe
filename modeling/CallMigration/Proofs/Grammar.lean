import CallMigration.Proofs.Spelling

/-!
# The grammar of JSON values

A value is a literal, a number, a string, or an array or object of values, with white space around
the items and members. Numbers have a grammar of their own, and the reader of numbers follows it.

## Main Definitions

* `Json.Blank` — white space
* `Json.IsUnsigned` — a number behind its sign
* `Json.IsValue` — a JSON value

## Main Statements

* `Json.readNumber_of_isUnsigned` — a number is read up to what cannot continue it
* `Json.IsValue.exists_cons` — how values start

## Design Notes

The grammar is about texts, not about what they stand for: an escape of a lone surrogate stands for
no character, and still a string may hold it that nobody reads. White space belongs to the item or
member that it stands around, so that a value starts and ends with bytes of its own.

A number has no end of its own. It ends where a byte follows that cannot continue it, and in an
array or object such a byte always follows.
-/

namespace CallMigration

theorem Bytes.ne_of_isDigit {b x : UInt8} (hb : isDigit b = true) (hx : isDigit x = false) :
    b ≠ x := by
  rintro rfl
  exact Bool.false_ne_true (hx.symm.trans hb)

namespace Json

/-! ### White space -/

/-- White space between lexemes. -/
def Blank (w : Bytes) : Prop := ∀ b ∈ w, isBlank b = true

theorem Blank.nil : Blank [] := fun _ h => absurd h List.not_mem_nil

theorem skipBlanks_append {w : Bytes} (hw : Blank w) (t : Bytes) :
    skipBlanks (w ++ t) = skipBlanks t :=
  List.dropWhile_append_of_pos hw

theorem skipBlanks_cons {b : UInt8} (hb : isBlank b = false) (t : Bytes) :
    skipBlanks (b :: t) = b :: t := by
  rw [skipBlanks, List.dropWhile_cons_of_neg]
  simp [hb]

theorem skipBlanks_append_cons {w : Bytes} (hw : Blank w) {b : UInt8} (hb : isBlank b = false)
    (t : Bytes) : skipBlanks (w ++ b :: t) = b :: t := by
  rw [skipBlanks_append hw, skipBlanks_cons hb]

theorem Blank.skipBlanks_eq_nil {w : Bytes} (hw : Blank w) : skipBlanks w = [] := by
  have hskip := skipBlanks_append hw []
  rwa [List.append_nil] at hskip

/-! ### Numbers -/

/-- A digit or more. -/
def IsDigits (ds : Bytes) : Prop := ds ≠ [] ∧ ∀ d ∈ ds, Bytes.isDigit d = true

theorem IsDigits.exists_cons {ds : Bytes} (h : IsDigits ds) :
    ∃ d u, ds = d :: u ∧ Bytes.isDigit d = true ∧ ∀ b ∈ u, Bytes.isDigit b = true := by
  obtain ⟨hne, hdigits⟩ := h
  obtain ⟨d, u, rfl⟩ := List.exists_cons_of_ne_nil hne
  exact ⟨d, u, rfl, List.forall_mem_cons.1 hdigits⟩

/-- The digits in front of the point: a zero alone, or digits that start with another one. -/
inductive IsInteger : Bytes → Prop
  | zero : IsInteger [0x30]
  | digits {ds : Bytes} (hds : IsDigits ds) (hzero : ds.head? ≠ some 0x30) : IsInteger ds

/-- A point and digits behind it, or neither. -/
inductive IsFraction : Bytes → Option Bytes → Prop
  | absent : IsFraction [] none
  | present {ds : Bytes} (hds : IsDigits ds) : IsFraction (Bytes.dot :: ds) (some ds)

/-- A sign of an exponent, and whether it is a minus. -/
inductive IsSign : Bytes → Bool → Prop
  | absent : IsSign [] false
  | plus : IsSign [0x2B] false
  | minus : IsSign [minus] true

/-- An exponent, with its letter and sign, or none. -/
inductive IsExponent : Bytes → Option (Bool × Bytes) → Prop
  | absent : IsExponent [] none
  | present {letter : UInt8} {sign ds : Bytes} {negative : Bool}
      (hletter : letter = 0x65 ∨ letter = 0x45) (hsign : IsSign sign negative)
      (hds : IsDigits ds) : IsExponent (letter :: (sign ++ ds)) (some (negative, ds))

/-- A number behind its sign, and the parts that it has. -/
inductive IsUnsigned (negative : Bool) : Bytes → Literal → Prop
  | mk {integer fraction exponent : Bytes} {f : Option Bytes} {e : Option (Bool × Bytes)}
      (hinteger : IsInteger integer) (hfraction : IsFraction fraction f)
      (hexponent : IsExponent exponent e) :
      IsUnsigned negative (integer ++ (fraction ++ exponent)) ⟨negative, integer, f, e⟩

/-- A byte that can continue a number: a digit, a point, or the letter of an exponent. -/
def continuesNumber (b : UInt8) : Bool :=
  Bytes.isDigit b || b == Bytes.dot || b == 0x65 || b == 0x45

/-- What follows cannot continue a number. -/
def EndsNumber (t : Bytes) : Prop := ∀ b ∈ t.head?, continuesNumber b = false

theorem endsNumber_cons {b : UInt8} (hb : continuesNumber b = false) (t : Bytes) :
    EndsNumber (b :: t) := by
  simpa [EndsNumber] using hb

/-- White space does not continue a number. -/
theorem endsNumber_append {w t : Bytes} (hw : Blank w) (ht : EndsNumber t) :
    EndsNumber (w ++ t) := by
  cases w with
  | nil => exact ht
  | cons b w =>
    have hb := (List.forall_mem_cons.1 hw).1
    refine endsNumber_cons ?_ _
    simp only [isBlank, Bool.or_eq_true, beq_iff_eq] at hb
    obtain ((rfl | rfl) | rfl) | rfl := hb <;> decide

theorem Blank.endsNumber {w : Bytes} (hw : Blank w) : EndsNumber w := by
  have hnil : EndsNumber [] := nofun
  simpa using endsNumber_append hw hnil

theorem endsNumber_comma (t : Bytes) : EndsNumber (comma :: t) := endsNumber_cons rfl t

variable {t rest : Bytes}

/-- What ends a number starts with none of the bytes that a number may have. -/
theorem EndsNumber.cases (h : EndsNumber t) :
    t = [] ∨ ∃ b u, t = b :: u ∧ Bytes.isDigit b = false ∧ b ≠ Bytes.dot ∧ b ≠ 0x65 ∧ b ≠ 0x45 := by
  cases t with
  | nil => exact .inl rfl
  | cons b u =>
    have hb := h b rfl
    simp only [continuesNumber, Bool.or_eq_false_iff, beq_eq_false_iff_ne] at hb
    obtain ⟨⟨⟨hdigit, hdot⟩, he⟩, hE⟩ := hb
    exact .inr ⟨b, u, rfl, hdigit, hdot, he, hE⟩

/-- No digit comes next. -/
theorem startsWithDigit_of_endsNumber (h : EndsNumber t) : startsWithDigit t = false := by
  obtain rfl | ⟨b, u, rfl, hdigit, -⟩ := h.cases
  · rfl
  · exact hdigit

/-- Digits are taken up to where none comes next. -/
theorem takeWhile_isDigit_append {ds : Bytes} (hds : ∀ d ∈ ds, Bytes.isDigit d = true)
    (ht : startsWithDigit t = false) :
    (ds ++ t).takeWhile Bytes.isDigit = ds ∧ (ds ++ t).dropWhile Bytes.isDigit = t := by
  rw [List.takeWhile_append_of_pos hds, List.dropWhile_append_of_pos hds]
  cases t with
  | nil => simp
  | cons b t =>
    have hb : Bytes.isDigit b = false := ht
    simp [hb]

theorem startsWithDigit_append {ds : Bytes} (hds : IsDigits ds) (t : Bytes) :
    startsWithDigit (ds ++ t) = true := by
  obtain ⟨d, u, rfl, hd, -⟩ := hds.exists_cons
  exact hd

theorem readInteger_of_isInteger {ds : Bytes} (h : IsInteger ds)
    (ht : startsWithDigit t = false) (cut : Cause) :
    readInteger cut (ds ++ t) = .ok (ds, t) := by
  cases h with
  | zero =>
    rw [List.singleton_append, readInteger, if_neg (by decide), if_pos rfl, ht]
    rfl
  | digits hds hzero =>
    obtain ⟨d, ds, rfl, hd, hds⟩ := hds.exists_cons
    obtain ⟨htake, hdrop⟩ := takeWhile_isDigit_append hds ht
    have hd0 : d ≠ 0x30 := fun h => hzero (congrArg some h)
    rw [List.cons_append, readInteger, if_neg (not_not_intro hd), if_neg hd0, htake, hdrop]

theorem readFraction_of_isFraction {fraction : Bytes} {f : Option Bytes}
    (h : IsFraction fraction f) (hdigit : startsWithDigit t = false)
    (hdot : t.head? ≠ some Bytes.dot) (cut : Cause) :
    readFraction cut (fraction ++ t) = .ok (f, t) := by
  cases h with
  | absent =>
    cases t with
    | nil => rfl
    | cons b t => exact if_pos fun h => hdot (congrArg some h)
  | present hds =>
    obtain ⟨htake, hdrop⟩ := takeWhile_isDigit_append hds.2 hdigit
    rw [List.cons_append, readFraction, if_neg (not_not_intro rfl),
      if_pos (startsWithDigit_append hds t), htake, hdrop]

theorem readSign_of_isSign {sign ds : Bytes} {negative : Bool} (h : IsSign sign negative)
    (hds : IsDigits ds) (t : Bytes) : readSign (sign ++ (ds ++ t)) = (negative, ds ++ t) := by
  cases h with
  | absent =>
    obtain ⟨d, ds, rfl, hd, -⟩ := hds.exists_cons
    rw [List.nil_append, List.cons_append, readSign, if_neg (Bytes.ne_of_isDigit hd rfl),
      if_neg (Bytes.ne_of_isDigit hd rfl)]
  | plus => rfl
  | minus => rfl

theorem readExponent_of_isExponent {exponent : Bytes} {e : Option (Bool × Bytes)}
    (h : IsExponent exponent e) (ht : EndsNumber t) (cut : Cause) :
    readExponent cut (exponent ++ t) = .ok (e, t) := by
  cases h with
  | absent =>
    obtain rfl | ⟨b, u, rfl, -, -, he, hE⟩ := ht.cases
    · rfl
    · exact if_pos ⟨he, hE⟩
  | present hletter hsign hds =>
    have hread := readSign_of_isSign hsign hds t
    obtain ⟨d, ds, rfl, hd, hds⟩ := hds.exists_cons
    obtain ⟨htake, hdrop⟩ := takeWhile_isDigit_append hds (startsWithDigit_of_endsNumber ht)
    have hnot : ¬ (_ ≠ (0x65 : UInt8) ∧ _ ≠ (0x45 : UInt8)) := fun h =>
      hletter.elim h.1 h.2
    rw [List.cons_append, List.append_assoc, readExponent, if_neg hnot, hread, List.cons_append]
    simp only [hd, if_true, htake, hdrop]

/-- A number is read up to what cannot continue it. -/
theorem readNumber_of_isUnsigned {negative : Bool} {l : Literal} (h : IsUnsigned negative t l)
    (hrest : EndsNumber rest) (cut : Cause) :
    readNumber cut negative (t ++ rest) = .ok (l, rest) := by
  obtain ⟨hinteger, hfraction, hexponent⟩ := h
  rename_i integer fraction exponent f e
  have hexponents : startsWithDigit (exponent ++ rest) = false ∧
      (exponent ++ rest).head? ≠ some Bytes.dot := by
    cases hexponent with
    | absent =>
      refine ⟨startsWithDigit_of_endsNumber hrest, ?_⟩
      obtain rfl | ⟨b, u, rfl, -, hdot, -⟩ := hrest.cases
      · simp
      · simpa using hdot
    | present hletter hsign hds => obtain rfl | rfl := hletter <;> exact ⟨rfl, by simp [Bytes.dot]⟩
  have hfractions : startsWithDigit (fraction ++ (exponent ++ rest)) = false := by
    cases hfraction with
    | absent => exact hexponents.1
    | present hds => rfl
  rw [readNumber, List.append_assoc, List.append_assoc,
    readInteger_of_isInteger hinteger hfractions]
  simp only [readFraction_of_isFraction hfraction hexponents.1 hexponents.2,
    readExponent_of_isExponent hexponent hrest]

/-! ### Values -/

/-- A text between quotes, whatever it stands for. -/
inductive IsQuoted : Bytes → Prop
  | nil : IsQuoted []
  | plain {b : UInt8} {t : Bytes} (hquote : b ≠ quote) (hbackslash : b ≠ backslash)
      (hcontrol : 0x20 ≤ b) (ht : IsQuoted t) : IsQuoted (b :: t)
  | letter {b : UInt8} {c : Char} {t : Bytes} (hletter : (b, c) ∈ escapeLetters)
      (ht : IsQuoted t) : IsQuoted (backslash :: b :: t)
  | number {ds t : Bytes} {n : Nat} (hds : FourDigits ds n) (ht : IsQuoted t) :
      IsQuoted (backslash :: letterU :: (ds ++ t))

/-- The byte that opens a container. -/
def Container.opening : Container → UInt8
  | array => openBracket
  | object => openBrace

mutual

/-- A JSON value. -/
inductive IsValue : Bytes → Prop
  | literal {word : String} (hword : word ∈ ["null", "true", "false"]) :
      IsValue (Bytes.ofString word)
  | number {t : Bytes} {l : Literal} (ht : IsUnsigned false t l) : IsValue t
  | negative {t : Bytes} {l : Literal} (ht : IsUnsigned true t l) : IsValue (minus :: t)
  | string {t : Bytes} (ht : IsQuoted t) : IsValue (quote :: (t ++ [quote]))
  /-- Nothing but white space in a container. -/
  | empty (c : Container) {w : Bytes} (hw : Blank w) : IsValue (c.opening :: (w ++ [c.close]))
  | container (c : Container) {t : Bytes} (ht : IsElements c t) :
      IsValue (c.opening :: (t ++ [c.close]))

/-- Items or members with a comma between any two. -/
inductive IsElements : Container → Bytes → Prop
  | one {c : Container} {t : Bytes} (ht : IsElement c t) : IsElements c t
  | more {c : Container} {t ts : Bytes} (ht : IsElement c t) (hts : IsElements c ts) :
      IsElements c (t ++ comma :: ts)

/-- An item or a member with the white space around it. -/
inductive IsElement : Container → Bytes → Prop
  | item {w v u : Bytes} (hw : Blank w) (hv : IsValue v) (hu : Blank u) :
      IsElement .array (w ++ (v ++ u))
  | member {w k x y v u : Bytes} (hw : Blank w) (hk : IsQuoted k) (hx : Blank x) (hy : Blank y)
      (hv : IsValue v) (hu : Blank u) :
      IsElement .object (w ++ quote :: (k ++ quote :: (x ++ colon :: (y ++ (v ++ u)))))

end

/-! ### Starts and ends of values -/

theorem endsNumber_close (c : Container) (rest : Bytes) : EndsNumber (c.close :: rest) :=
  endsNumber_cons (by cases c <;> rfl) rest

theorem exists_digit_of_isUnsigned {negative : Bool} {l : Literal} (h : IsUnsigned negative t l) :
    ∃ b u, t = b :: u ∧ Bytes.isDigit b = true := by
  obtain ⟨hinteger, -, -⟩ := h
  cases hinteger with
  | zero => exact ⟨0x30, _, rfl, rfl⟩
  | digits hds hzero =>
    obtain ⟨d, ds, rfl, hd, -⟩ := hds.exists_cons
    exact ⟨d, _, rfl, hd⟩

/-- A byte that a value or the key of a member starts with: no white space, and no end of a
container. -/
def StartsElement (b : UInt8) : Prop := isBlank b = false ∧ b ≠ closeBracket ∧ b ≠ closeBrace

theorem StartsElement.ne_close {b : UInt8} (h : StartsElement b) (c : Container) : b ≠ c.close := by
  cases c with
  | array => exact h.2.1
  | object => exact h.2.2

theorem startsElement_of_isDigit {b : UInt8} (h : Bytes.isDigit b = true) : StartsElement b := by
  have hne {x : UInt8} (hx : Bytes.isDigit x = false) : b ≠ x := Bytes.ne_of_isDigit h hx
  refine ⟨?_, hne rfl, hne rfl⟩
  simp only [isBlank, Bool.or_eq_false_iff, beq_eq_false_iff_ne]
  exact ⟨⟨⟨hne rfl, hne rfl⟩, hne rfl⟩, hne rfl⟩

theorem IsValue.exists_cons (h : IsValue t) : ∃ b u, t = b :: u ∧ StartsElement b := by
  cases h with
  | literal hword =>
    simp only [List.mem_cons, List.not_mem_nil, or_false] at hword
    obtain rfl | rfl | rfl := hword <;> exact ⟨_, _, rfl, by decide, by decide, by decide⟩
  | number ht =>
    obtain ⟨b, u, rfl, hb⟩ := exists_digit_of_isUnsigned ht
    exact ⟨b, u, rfl, startsElement_of_isDigit hb⟩
  | negative ht => exact ⟨_, _, rfl, by decide, by decide, by decide⟩
  | string ht => exact ⟨_, _, rfl, by decide, by decide, by decide⟩
  | empty c hw => cases c <;> exact ⟨_, _, rfl, by decide, by decide, by decide⟩
  | container c ht => cases c <;> exact ⟨_, _, rfl, by decide, by decide, by decide⟩

theorem IsElement.exists_cons {c : Container} (h : IsElement c t) :
    ∃ w b u, t = w ++ b :: u ∧ Blank w ∧ StartsElement b := by
  cases h with
  | item hw hv hu =>
    obtain ⟨b, u, rfl, hb⟩ := hv.exists_cons
    exact ⟨_, b, _, rfl, hw, hb⟩
  | member hw hk hx hy hv hu => exact ⟨_, quote, _, rfl, hw, by decide, by decide, by decide⟩

end Json

end CallMigration
