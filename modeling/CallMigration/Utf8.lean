import CallMigration.Bytes

/-!
# UTF-8

Well-formed UTF-8 as a machine over bytes. The first byte of a character fixes, in the tables of
the Unicode standard, in which range each byte after it must lie; between two bytes the machine
remembers the ranges it still awaits.

## Main Definitions

* `Utf8.continuation` — the ranges that a first byte asks for
* `Utf8.invalidAt?` — where the longest well-formed beginning of a byte text ends
* `Utf8.Valid` — well-formed byte texts
* `Utf8.decodeLossy` — the string shown for any byte text

## Design Notes

A byte that does not fit ends the character it was to belong to and may start the next one, so
each maximal broken part is shown as one U+FFFD.
-/

namespace CallMigration

namespace Utf8

/-- A closed range of bytes. -/
abbrev ByteRange := UInt8 × UInt8

/-- The bytes that continue a character unless its first byte narrows them. -/
def trailing : ByteRange := (0x80, 0xBF)

/-- Whether a byte lies in a range. -/
def ByteRange.Holds (r : ByteRange) (b : UInt8) : Prop := r.1 ≤ b ∧ b ≤ r.2

instance ByteRange.holdsDecidable (r : ByteRange) (b : UInt8) : Decidable (r.Holds b) := by
  unfold ByteRange.Holds
  infer_instance

/-- The ranges of the bytes that must follow `lead`, if `lead` starts a character. The narrowed
ranges leave out overlong forms, surrogates and what lies above U+10FFFF. -/
def continuation (lead : UInt8) : Option (List ByteRange) :=
  if lead < 0x80 then some []
  else if lead < 0xC2 then none
  else if lead < 0xE0 then some [trailing]
  else if lead = 0xE0 then some [(0xA0, 0xBF), trailing]
  else if lead = 0xED then some [(0x80, 0x9F), trailing]
  else if lead < 0xF0 then some [trailing, trailing]
  else if lead = 0xF0 then some [(0x90, 0xBF), trailing, trailing]
  else if lead < 0xF4 then some [trailing, trailing, trailing]
  else if lead = 0xF4 then some [(0x80, 0x8F), trailing, trailing]
  else none

/-! ### Well-formed texts -/

/-- Runs the machine. `start` is the offset of the character under way, `offset` that of the
next byte. -/
def invalidFrom (awaited : List ByteRange) (start offset : Nat) : Bytes → Option Nat
  | [] => if awaited.isEmpty then none else some start
  | b :: t =>
    match awaited with
    | [] =>
      match continuation b with
      | some ranges => invalidFrom ranges offset (offset + 1) t
      | none => some offset
    | range :: more =>
      if range.Holds b then invalidFrom more start (offset + 1) t else some start

/-- The length of the longest well-formed beginning of a text that is not well-formed itself. -/
def invalidAt? (t : Bytes) : Option Nat := invalidFrom [] 0 0 t

/-- Well-formed UTF-8. -/
def Valid (t : Bytes) : Prop := invalidAt? t = none

instance validDecidable (t : Bytes) : Decidable (Valid t) := by
  unfold Valid
  infer_instance

/-! ### Showing any text -/

/-- A character under way: what it awaits and the value of the bytes so far. -/
structure Partway where
  awaited : List ByteRange
  value : Nat

/-- Between two characters. -/
def Partway.none : Partway := ⟨[], 0⟩

/-- The character that stands for a broken part. -/
def replacementCharacter : Char := '\uFFFD'

/-- Takes a byte as the first of a character: the characters that are complete with it, and what
is under way. -/
def begin (b : UInt8) : List Char × Partway :=
  match continuation b with
  | some [] => ([Char.ofNat b.toNat], .none)
  | some ranges => ([], ⟨ranges, b.toNat % Nat.pow 2 (6 - ranges.length)⟩)
  | none => ([replacementCharacter], .none)

/-- Takes the next byte. -/
def step (p : Partway) (b : UInt8) : List Char × Partway :=
  match p.awaited with
  | [] => begin b
  | range :: more =>
    if range.Holds b then
      let value := p.value * 64 + b.toNat % 64
      if more.isEmpty then ([Char.ofNat value], .none) else ([], ⟨more, value⟩)
    else
      let (chars, next) := begin b
      (replacementCharacter :: chars, next)

/-- The characters that a text still yields when `p` is under way. -/
def charsFrom (p : Partway) : Bytes → List Char
  | [] => if p.awaited.isEmpty then [] else [replacementCharacter]
  | b :: t =>
    let (chars, next) := step p b
    chars ++ charsFrom next t

/-- The string of a byte text, with U+FFFD for each maximal part that is not UTF-8. -/
def decodeLossy (t : Bytes) : String := String.ofList (charsFrom .none t)

end Utf8

end CallMigration
