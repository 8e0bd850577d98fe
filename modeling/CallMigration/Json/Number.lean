import CallMigration.Json.Lexeme
import CallMigration.Number.Binary64

/-!
# Numbers of a JSON text

## Main Definitions

* `Json.Literal` — the parts of a number as they are written
* `Json.readNumber` — a number at the start of a text
* `Json.Literal.value` — what a number is worth, as far as 64 bits go

## Design Notes

Whether a number is one at all does not depend on its size, so a number that is skipped is only
read and never valued. Integers that fit 64 bits are exact. Of longer digit sequences the first
digits that fit count, the others only move the point, and the result is rounded.
-/

namespace CallMigration

namespace Json

/-- The parts of a number as they are written, its digits as bytes. -/
structure Literal where
  negative : Bool
  integer : Bytes
  /-- The digits behind the point, if there is one. -/
  fraction : Option Bytes
  /-- Whether the exponent is negative, and its digits, if there is one. -/
  exponent : Option (Bool × Bytes)
  deriving DecidableEq, Repr

/-! ### Reading -/

/-- Whether a text starts with a digit. -/
def startsWithDigit (t : Bytes) : Bool := (t.head?.map Bytes.isDigit).getD false

/-- The digits in front of the point: a zero alone, or digits that start with another one. `cut` is
the cause when the text ends. -/
def readInteger (cut : Cause) : Bytes → Except Fault (Bytes × Bytes)
  | [] => .error (.here [] cut)
  | b :: t =>
    if ¬ Bytes.isDigit b then .error (.here t .invalidNumber)
    else if b = 0x30 then
      if startsWithDigit t then .error (.ahead t .invalidNumber) else .ok ([b], t)
    else .ok (b :: t.takeWhile Bytes.isDigit, t.dropWhile Bytes.isDigit)

/-- A point and the digits behind it, if there is a point. -/
def readFraction (cut : Cause) : Bytes → Except Fault (Option Bytes × Bytes)
  | [] => .ok (none, [])
  | b :: t =>
    if b ≠ Bytes.dot then .ok (none, b :: t)
    else if startsWithDigit t then
      .ok (some (t.takeWhile Bytes.isDigit), t.dropWhile Bytes.isDigit)
    else .error (.ahead t (if t.isEmpty then cut else .invalidNumber))

/-- The sign of an exponent, plus when there is none. -/
def readSign : Bytes → Bool × Bytes
  | [] => (false, [])
  | b :: t => if b = minus then (true, t) else if b = 0x2B then (false, t) else (false, b :: t)

/-- An exponent, if there is one. -/
def readExponent (cut : Cause) : Bytes → Except Fault (Option (Bool × Bytes) × Bytes)
  | [] => .ok (none, [])
  | b :: t =>
    if b ≠ 0x65 ∧ b ≠ 0x45 then .ok (none, b :: t)
    else
      match readSign t with
      | (_, []) => .error (.here [] cut)
      | (negative, d :: t) =>
        if Bytes.isDigit d then
          .ok (some (negative, d :: t.takeWhile Bytes.isDigit), t.dropWhile Bytes.isDigit)
        else .error (.here t .invalidNumber)

/-- A number, given the text behind its sign. `cut` is the cause when the text ends too early. -/
def readNumber (cut : Cause) (negative : Bool) (t : Bytes) : Except Fault (Literal × Bytes) :=
  match readInteger cut t with
  | .error e => .error e
  | .ok (integer, t) =>
    match readFraction cut t with
    | .error e => .error e
    | .ok (fraction, t) =>
      match readExponent cut t with
      | .error e => .error e
      | .ok (exponent, t) => .ok (⟨negative, integer, fraction, exponent⟩, t)

theorem length_dropDigits_le (t : Bytes) : (t.dropWhile Bytes.isDigit).length ≤ t.length :=
  (List.dropWhile_suffix _).length_le

theorem length_lt_of_readInteger {cut : Cause} {t ds rest : Bytes}
    (h : readInteger cut t = .ok (ds, rest)) : rest.length < t.length := by
  unfold readInteger at h
  grind [length_dropDigits_le]

theorem length_le_of_readFraction {cut : Cause} {t rest : Bytes} {ds : Option Bytes}
    (h : readFraction cut t = .ok (ds, rest)) : rest.length ≤ t.length := by
  unfold readFraction at h
  grind [length_dropDigits_le]

theorem length_readSign_le (t : Bytes) : (readSign t).2.length ≤ t.length := by
  unfold readSign
  grind

theorem length_le_of_readExponent {cut : Cause} {t rest : Bytes} {e : Option (Bool × Bytes)}
    (h : readExponent cut t = .ok (e, rest)) : rest.length ≤ t.length := by
  unfold readExponent at h
  grind [length_dropDigits_le, length_readSign_le]

theorem length_lt_of_readNumber {cut : Cause} {negative : Bool} {t rest : Bytes} {l : Literal}
    (h : readNumber cut negative t = .ok (l, rest)) : rest.length < t.length := by
  unfold readNumber at h
  grind [→ length_lt_of_readInteger, → length_le_of_readFraction, → length_le_of_readExponent]

/-! ### Values -/

/-- What a number is worth. -/
inductive Value
  | natural (n : Nat)
  | negative (n : Nat)
  | float (negative : Bool) (magnitude : Binary64)
  deriving DecidableEq, Repr

/-- One more than the greatest number of 64 bits. -/
def wordSize : Nat := Nat.pow 2 64

/-- Digits that fit a word so far, and the power of ten they count. -/
structure Significand where
  digits : Nat
  power : Int

/-- The digit that a byte stands for. -/
def digitOf (b : UInt8) : Nat := b.toNat - 0x30

/-- Appends digits as long as the result fits a word: the significand and the digits left over. -/
def takeDigits (n : Nat) : Bytes → Nat × Bytes
  | [] => (n, [])
  | b :: ds =>
    if 10 * n + digitOf b < wordSize then takeDigits (10 * n + digitOf b) ds else (n, b :: ds)

/-- The significand of a number without its exponent. Digits left over in front of the point are
worth a power of ten each, those behind it are dropped. -/
def Literal.significand (l : Literal) : Significand :=
  let (n, left) := takeDigits 0 l.integer
  let behind := l.fraction.getD []
  let (m, dropped) := takeDigits n behind
  ⟨m, left.length - (behind.length - dropped.length)⟩

/-- The greatest exponent that is read to its end. -/
def greatestExponent : Nat := Nat.pow 2 31 - 1

/-- The number that digits stand for. -/
def decimal (ds : Bytes) : Nat := ds.foldl (fun n b => 10 * n + digitOf b) 0

/-- How many digits of an exponent are read until it exceeds `greatestExponent`. -/
def excessAfter? (ds : Bytes) : Option Nat :=
  (List.range (ds.length + 1)).find? fun k => greatestExponent < decimal (ds.take k)

/-- The magnitude of a rounded number, unless it is too large. -/
def Literal.magnitude? (l : Literal) : Option Binary64 :=
  let s := l.significand
  let e : Int := match l.exponent with
    | none => 0
    | some (true, ds) => - (decimal ds : Int)
    | some (false, ds) => decimal ds
  (Binary64.ofRatio? s.digits 1).bind fun x => x.scale? (s.power + e)

/-- A rounded number. An exponent beyond all bounds gives zero or is refused where it exceeds them,
any other number that is too large is refused behind its last digit. -/
def Literal.float (l : Literal) (rest : Bytes) : Except Fault Value :=
  let bounded : Except Fault Value :=
    match l.magnitude? with
    | some x => .ok (.float l.negative x)
    | none => .error (.here rest .numberOutOfRange)
  match l.exponent with
  | none => bounded
  | some (negative, ds) =>
    match excessAfter? ds with
    | none => bounded
    | some k =>
      if negative ∨ l.significand.digits = 0 then .ok (.float l.negative .zero)
      else .error ⟨.numberOutOfRange, rest.length + (ds.length - k)⟩

/-- What a number is worth, `rest` being the text behind it. Minus zero and integers beyond 64 bits
are rounded numbers. -/
def Literal.value (l : Literal) (rest : Bytes) : Except Fault Value :=
  let n := decimal l.integer
  if l.fraction.isSome ∨ l.exponent.isSome then l.float rest
  else if l.negative then
    if 0 < n ∧ n ≤ wordSize / 2 then .ok (.negative n) else l.float rest
  else if n < wordSize then .ok (.natural n)
  else l.float rest

end Json

end CallMigration
