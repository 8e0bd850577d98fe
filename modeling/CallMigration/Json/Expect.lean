import CallMigration.Json.Skip
import CallMigration.Text.Quoted

/-!
# Reading values of an expected shape

## Main Definitions

* `Json.misfit` — the fault of a value that is not of the expected shape
* `Json.expectString`, `Json.expectBool`, `Json.expectNull`, `Json.expectStrings` — values of simple
  shapes
* `Json.expectChoice` — one of several names, alone or as the only key of an object around `null`

## Design Notes

A value of another shape is read far enough to say what it is: a scalar to its end, an array or
object not at all. If the scalar itself is malformed, that is its fault.
-/

namespace CallMigration

namespace Json

/-! ### Misfits -/

/-- What a number is called in messages. -/
def Value.describe : Value → String
  | natural n => "integer `" ++ toString n ++ "`"
  | negative n => "integer `-" ++ toString n ++ "`"
  | float neg x => "floating point `" ++ (if neg then "-" else "") ++ x.text ++ "`"

/-- The cause that names what was found and what was wanted. -/
def unfitCause (found wanted : String) : Cause :=
  .unfit ("invalid type: " ++ found ++ ", expected " ++ wanted)

/-- The string of bytes that were read as one. -/
def stringOf (s : Bytes) : String := (Bytes.toString? s).getD ""

/-- The fault of a number, the text behind its sign given. -/
def misfitNumber (wanted : String) (negative : Bool) (t : Bytes) : Fault :=
  match readNumber .endInValue negative t with
  | .error e => e
  | .ok (l, rest) =>
    match l.value rest with
    | .error e => e
    | .ok v => .here rest (unfitCause v.describe wanted)

/-- The fault of a literal, the text behind its first letter given. -/
def misfitLiteral (wanted found : String) (letters t : Bytes) : Fault :=
  match readLiteral letters t with
  | .error e => e
  | .ok rest => .here rest (unfitCause found wanted)

/-- The fault of a value that is not of the wanted shape. -/
def misfit (wanted : String) : Bytes → Fault
  | [] => .ahead [] .endInValue
  | b :: t =>
    if b = 0x6E then misfitLiteral wanted "null" [0x75, 0x6C, 0x6C] t
    else if b = 0x74 then misfitLiteral wanted "boolean `true`" [0x72, 0x75, 0x65] t
    else if b = 0x66 then misfitLiteral wanted "boolean `false`" [0x61, 0x6C, 0x73, 0x65] t
    else if b = minus then misfitNumber wanted true t
    else if Bytes.isDigit b then misfitNumber wanted false (b :: t)
    else if b = quote then
      match readString t with
      | .error e => e
      | .ok (s, rest) =>
        .here rest (unfitCause ("string " ++ Text.quoted (stringOf s)) wanted)
    else if b = openBracket then .here (b :: t) (unfitCause "sequence" wanted)
    else if b = openBrace then .here (b :: t) (unfitCause "map" wanted)
    else .ahead (b :: t) .expectedValue

/-! ### Scalars -/

/-- A string. -/
def expectString (t : Bytes) : Except Fault (String × Bytes) :=
  match skipBlanks t with
  | [] => .error (.ahead [] .endInValue)
  | b :: t =>
    if b = quote then
      match readString t with
      | .error e => .error e
      | .ok (s, rest) => .ok (stringOf s, rest)
    else .error (misfit "a string" (b :: t))

/-- A truth value. -/
def expectBool (t : Bytes) : Except Fault (Bool × Bytes) :=
  match skipBlanks t with
  | [] => .error (.ahead [] .endInValue)
  | b :: t =>
    if b = 0x74 then
      match readLiteral [0x72, 0x75, 0x65] t with
      | .error e => .error e
      | .ok rest => .ok (true, rest)
    else if b = 0x66 then
      match readLiteral [0x61, 0x6C, 0x73, 0x65] t with
      | .error e => .error e
      | .ok rest => .ok (false, rest)
    else .error (misfit "a boolean" (b :: t))

/-- The text behind `null`. -/
def expectNull (t : Bytes) : Except Fault Bytes :=
  match skipBlanks t with
  | [] => .error (.ahead [] .endInValue)
  | b :: t =>
    if b = 0x6E then readLiteral [0x75, 0x6C, 0x6C] t else .error (misfit "unit" (b :: t))

/-- The text behind the colon of a member. -/
def expectColon (t : Bytes) : Except Fault Bytes :=
  match skipBlanks t with
  | [] => .error (.ahead [] .endInObject)
  | b :: t => if b = colon then .ok t else .error (.ahead (b :: t) .expectedColon)

theorem length_lt_of_expectString {t rest : Bytes} {s : String}
    (h : expectString t = .ok (s, rest)) : rest.length < t.length := by
  have := length_skipBlanks_le t
  unfold expectString at h
  grind [→ length_lt_of_readString]

theorem length_le_of_expectBool {t rest : Bytes} {b : Bool}
    (h : expectBool t = .ok (b, rest)) : rest.length ≤ t.length := by
  have := length_skipBlanks_le t
  unfold expectBool at h
  grind [→ length_le_of_readLiteral]

theorem length_le_of_expectNull {t rest : Bytes} (h : expectNull t = .ok rest) :
    rest.length ≤ t.length := by
  have := length_skipBlanks_le t
  unfold expectNull at h
  grind [→ length_le_of_readLiteral]

theorem length_le_of_expectColon {t rest : Bytes} (h : expectColon t = .ok rest) :
    rest.length ≤ t.length := by
  have := length_skipBlanks_le t
  unfold expectColon at h
  grind

/-! ### Lists -/

/-- Where the next item of a list starts, or the text behind the list. -/
inductive Item
  | start (t : Bytes)
  | stop (rest : Bytes)

/-- Goes to the next item of a list. `first` says that no item was read before. -/
def nextItem (first : Bool) (t : Bytes) : Except Fault Item :=
  match skipBlanks t with
  | [] => .error (.ahead [] .endInList)
  | b :: t =>
    if b = closeBracket then .ok (.stop t)
    else if first then .ok (.start (b :: t))
    else if b = comma then
      match skipBlanks t with
      | [] => .error (.ahead [] .endInValue)
      | c :: t =>
        if c = closeBracket then .error (.ahead (c :: t) .trailingComma) else .ok (.start (c :: t))
    else .error (.ahead (b :: t) .expectedListCommaOrEnd)

theorem length_le_of_nextItem {first : Bool} {t u : Bytes} (h : nextItem first t = .ok (.start u)) :
    u.length ≤ t.length := by
  unfold nextItem at h
  grind [length_skipBlanks_le]

theorem length_le_of_nextItem_stop {first : Bool} {t u : Bytes}
    (h : nextItem first t = .ok (.stop u)) : u.length ≤ t.length := by
  unfold nextItem at h
  grind [length_skipBlanks_le]

/-- The strings of a list whose bracket was read; `seen` holds the last one first. -/
def expectStringsFrom (seen : List String) (t : Bytes) : Except Fault (List String × Bytes) :=
  match _hi : nextItem seen.isEmpty t with
  | .error e => .error e
  | .ok (.stop rest) => .ok (seen.reverse, rest)
  | .ok (.start u) =>
    match _hs : expectString u with
    | .error e => .error e
    | .ok (s, rest) => expectStringsFrom (s :: seen) rest
  termination_by t.length
  decreasing_by
    have := length_le_of_nextItem _hi
    have := length_lt_of_expectString _hs
    omega

/-- A list of strings. -/
def expectStrings (t : Bytes) : Except Fault (List String × Bytes) :=
  match skipBlanks t with
  | [] => .error (.ahead [] .endInValue)
  | b :: t =>
    if b = openBracket then expectStringsFrom [] t
    else .error (misfit "a sequence" (b :: t))

theorem length_le_of_expectStringsFrom {seen ss : List String} {t rest : Bytes}
    (h : expectStringsFrom seen t = .ok (ss, rest)) : rest.length ≤ t.length := by
  fun_induction expectStringsFrom seen t <;>
    grind [→ length_le_of_nextItem, → length_le_of_nextItem_stop, → length_lt_of_expectString]

theorem length_le_of_expectStrings {ss : List String} {t rest : Bytes}
    (h : expectStrings t = .ok (ss, rest)) : rest.length ≤ t.length := by
  have := length_skipBlanks_le t
  unfold expectStrings at h
  grind [→ length_le_of_expectStringsFrom]

/-! ### Choices -/

/-- The cause that names an unknown choice and the known ones. -/
def unknownChoice (name : String) (known : List String) : Cause :=
  .unfit ("unknown variant `" ++ name ++ "`, expected " ++
    " or ".intercalate (known.map fun k => "`" ++ k ++ "`"))

/-- The choice of a name, given the text behind the name's first quote. -/
def readChoice {α : Type} (choices : List (String × α)) (t : Bytes) : Except Fault (α × Bytes) :=
  match readString t with
  | .error e => .error e
  | .ok (s, rest) =>
    match choices.lookup (stringOf s) with
    | some a => .ok (a, rest)
    | none => .error (.here rest (unknownChoice (stringOf s) (choices.map Prod.fst)))

/-- The text behind the rest of an object whose only key was read: its `null` and its end. -/
def closeChoice (t : Bytes) : Except Fault Bytes :=
  match expectColon t with
  | .error e => .error e
  | .ok t =>
    match expectNull t with
    | .error e => .error e
    | .ok t =>
      match skipBlanks t with
      | [] => .error (.here [] .endInObject)
      | b :: t => if b = closeBrace then .ok t else .error (.here (b :: t) .expectedValue)

/-- The choice that an object's only key names, given the text behind the opening brace. -/
def readKeyChoice {α : Type} (choices : List (String × α)) (t : Bytes) :
    Except Fault (α × Bytes) :=
  match skipBlanks t with
  | [] => .error (.ahead [] .endInObject)
  | b :: t =>
    if b = closeBrace then .error (.ahead (b :: t) .expectedValue)
    else if b ≠ quote then .error (.ahead (b :: t) .keyMustBeString)
    else
      match readChoice choices t with
      | .error e => .error e
      | .ok (a, t) =>
        match closeChoice t with
        | .error e => .error e
        | .ok rest => .ok (a, rest)

/-- One of several names, alone or as the only key of an object around `null`. -/
def expectChoice {α : Type} (choices : List (String × α)) (t : Bytes) : Except Fault (α × Bytes) :=
  match skipBlanks t with
  | [] => .error (.ahead [] .endInValue)
  | b :: t =>
    if b = quote then readChoice choices t
    else if b = openBrace then readKeyChoice choices t
    else .error (.ahead (b :: t) .expectedValue)

theorem length_le_of_readChoice {α : Type} {choices : List (String × α)} {t rest : Bytes} {a : α}
    (h : readChoice choices t = .ok (a, rest)) : rest.length ≤ t.length := by
  unfold readChoice at h
  grind [→ length_lt_of_readString]

theorem length_le_of_closeChoice {t rest : Bytes} (h : closeChoice t = .ok rest) :
    rest.length ≤ t.length := by
  unfold closeChoice at h
  grind [→ length_le_of_expectColon, → length_le_of_expectNull, length_skipBlanks_le]

theorem length_le_of_readKeyChoice {α : Type} {choices : List (String × α)} {t rest : Bytes} {a : α}
    (h : readKeyChoice choices t = .ok (a, rest)) : rest.length ≤ t.length := by
  have := length_skipBlanks_le t
  unfold readKeyChoice at h
  grind [→ length_le_of_readChoice, → length_le_of_closeChoice]

theorem length_le_of_expectChoice {α : Type} {choices : List (String × α)} {t rest : Bytes} {a : α}
    (h : expectChoice choices t = .ok (a, rest)) : rest.length ≤ t.length := by
  have := length_skipBlanks_le t
  unfold expectChoice at h
  grind [→ length_le_of_readChoice, → length_le_of_readKeyChoice]

end Json

end CallMigration
