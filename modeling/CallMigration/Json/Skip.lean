import CallMigration.Json.Number

/-!
# Skipping JSON values

A value that nobody asks for still has to be well formed. It is passed over without being built,
with the open brackets on a stack, so nesting has no limit.

## Main Definitions

* `Json.skipValue` — the text behind a value that does not matter
-/

namespace CallMigration

namespace Json

/-- The kinds of value that contain others. -/
inductive Container
  | array
  | object
  deriving DecidableEq, Repr

namespace Container

/-- The byte that closes a container. -/
def close : Container → UInt8
  | array => closeBracket
  | object => closeBrace

/-- Why a text is refused that ends inside a container. -/
def endCause : Container → Cause
  | array => .endInList
  | object => .endInObject

/-- Why a text is refused that goes on with something else behind a value. -/
def separatorCause : Container → Cause
  | array => .expectedListCommaOrEnd
  | object => .expectedObjectCommaOrEnd

end Container

/-- What the start of a value leads to. -/
inductive Opening
  /-- The value is over. -/
  | over
  /-- It contains others. -/
  | contains (c : Container)

/-- A value without others in it, given how reading it ended. -/
def Opening.whole : Except Fault Bytes → Except Fault (Opening × Bytes)
  | .error e => .error e
  | .ok rest => .ok (.over, rest)

/-- The text behind a number, given the text behind its sign. -/
def skipNumber (t : Bytes) : Except Fault Bytes :=
  match readNumber .invalidNumber false t with
  | .error e => .error e
  | .ok (_, rest) => .ok rest

/-- The text behind a value without others in it, or behind the bracket that opens one. -/
def skipOpening : Bytes → Except Fault (Opening × Bytes)
  | [] => .error (.ahead [] .endInValue)
  | b :: t =>
    if b = openBracket then .ok (.contains .array, t)
    else if b = openBrace then .ok (.contains .object, t)
    else if b = quote then Opening.whole (skipString t)
    else if b = 0x6E then Opening.whole (readLiteral [0x75, 0x6C, 0x6C] t)
    else if b = 0x74 then Opening.whole (readLiteral [0x72, 0x75, 0x65] t)
    else if b = 0x66 then Opening.whole (readLiteral [0x61, 0x6C, 0x73, 0x65] t)
    else if b = minus then Opening.whole (skipNumber t)
    else if Bytes.isDigit b then Opening.whole (skipNumber (b :: t))
    else .error (.ahead (b :: t) .expectedValue)

/-- The text behind a key and its colon, with nothing but the key's quote read before. -/
def skipKey (t : Bytes) : Except Fault Bytes :=
  match skipBlanks t with
  | [] => .error (.ahead [] .endInObject)
  | b :: t =>
    if b ≠ quote then .error (.ahead (b :: t) .keyMustBeString)
    else
      match skipString t with
      | .error e => .error e
      | .ok t =>
        match skipBlanks t with
        | [] => .error (.ahead [] .endInObject)
        | c :: t => if c = colon then .ok t else .error (.ahead (c :: t) .expectedColon)

theorem Opening.whole_eq_ok {r : Except Fault Bytes} {o : Opening} {rest : Bytes}
    (h : Opening.whole r = .ok (o, rest)) : r = .ok rest := by
  unfold Opening.whole at h
  grind

theorem length_lt_of_skipNumber {t rest : Bytes} (h : skipNumber t = .ok rest) :
    rest.length < t.length := by
  unfold skipNumber at h
  grind [→ length_lt_of_readNumber]

theorem length_lt_of_skipOpening {t rest : Bytes} {o : Opening}
    (h : skipOpening t = .ok (o, rest)) : rest.length < t.length := by
  unfold skipOpening at h
  grind [→ Opening.whole_eq_ok, → length_lt_of_skipString, → length_le_of_readLiteral,
    → length_lt_of_skipNumber]

theorem length_lt_of_skipKey {t rest : Bytes} (h : skipKey t = .ok rest) :
    rest.length < t.length := by
  have := length_skipBlanks_le t
  unfold skipKey at h
  grind [→ length_lt_of_skipString, length_skipBlanks_le]

/-- What is being passed over: the containers that are open, the innermost first, and what may
come next. -/
inductive Expectation
  /-- A value. -/
  | value
  /-- The first item or member of the innermost container, or its end. -/
  | first
  /-- A comma and another item or member, or the end of the innermost container. -/
  | next
  deriving DecidableEq, Repr

/-- What remains to be counted down besides the text: steps that read nothing. -/
def Expectation.rank : Expectation → Nat
  | .value => 0
  | .first => 1
  | .next => 0

/-- Passes over what is expected and over the containers that are open. -/
def skipFrom (stack : List Container) (expected : Expectation) (t : Bytes) :
    Except Fault Bytes :=
  match expected, stack with
  | .value, stack =>
    match _h : skipOpening (skipBlanks t) with
    | .error e => .error e
    | .ok (.over, rest) => skipFrom stack .next rest
    | .ok (.contains c, rest) => skipFrom (c :: stack) .first rest
  | _, [] => .ok t
  | .first, c :: stack =>
    match _h : skipBlanks t with
    | [] => .error (.ahead [] c.endCause)
    | b :: rest =>
      if b = c.close then skipFrom stack .next rest
      else if c = .object then
        match _h : skipKey (b :: rest) with
        | .error e => .error e
        | .ok rest => skipFrom (c :: stack) .value rest
      else skipFrom (c :: stack) .value (b :: rest)
  | .next, c :: stack =>
    match _h : skipBlanks t with
    | [] => .error (.ahead [] c.endCause)
    | b :: rest =>
      if b = c.close then skipFrom stack .next rest
      else if b = comma then
        if c = .object then
          match _h : skipKey rest with
          | .error e => .error e
          | .ok rest => skipFrom (c :: stack) .value rest
        else skipFrom (c :: stack) .value rest
      else .error (.ahead (b :: rest) c.separatorCause)
  termination_by 2 * t.length + expected.rank
  decreasing_by
    all_goals
      have := length_skipBlanks_le t
      simp only [Expectation.rank]
      grind [→ length_lt_of_skipOpening, → length_lt_of_skipKey, length_skipBlanks_le]

/-- The text behind a value that does not matter. -/
def skipValue (t : Bytes) : Except Fault Bytes := skipFrom [] .value t

theorem length_lt_of_skipFrom {stack : List Container} {expected : Expectation} {t rest : Bytes}
    (h : skipFrom stack expected t = .ok rest) :
    rest.length ≤ t.length ∧ (expected = .value → rest.length < t.length) := by
  fun_induction skipFrom stack expected t <;>
    grind [→ length_lt_of_skipOpening, → length_lt_of_skipKey, length_skipBlanks_le]

theorem length_lt_of_skipValue {t rest : Bytes} (h : skipValue t = .ok rest) :
    rest.length < t.length :=
  (length_lt_of_skipFrom h).2 rfl

end Json

end CallMigration
