import CallMigration.Bytes

/-!
# Faults of a JSON text

## Main Definitions

* `Json.Cause` — why a text is refused
* `Json.Fault` — a cause and the place in the text where it showed
* `Json.Fault.message` — the message with line and column

## Design Notes

A reader carries only what is left of the text, so the place of a fault is the number of bytes
left there; line and column are counted once, when the message is made. A fault is placed
`here`, at the end of what was read, when the last byte read is to blame, and one byte `ahead` when
the next byte is to blame, as long as there is one.
-/

namespace CallMigration

namespace Json

/-- Why a text is refused. -/
inductive Cause
  | endInList
  | endInObject
  | endInString
  | endInValue
  | expectedColon
  | expectedListCommaOrEnd
  | expectedObjectCommaOrEnd
  | expectedLiteral
  | expectedValue
  | invalidEscape
  | invalidNumber
  | numberOutOfRange
  | keyMustBeString
  | loneSurrogate
  | unfinishedSurrogate
  | controlCharacter
  | trailingComma
  | trailingCharacters
  /-- The shape of the value is not the expected one; the text says both. -/
  | unfit (text : String)
  deriving DecidableEq, Repr

/-- The wording of a cause. -/
def Cause.text : Cause → String
  | endInList => "EOF while parsing a list"
  | endInObject => "EOF while parsing an object"
  | endInString => "EOF while parsing a string"
  | endInValue => "EOF while parsing a value"
  | expectedColon => "expected `:`"
  | expectedListCommaOrEnd => "expected `,` or `]`"
  | expectedObjectCommaOrEnd => "expected `,` or `\x7d`"
  | expectedLiteral => "expected ident"
  | expectedValue => "expected value"
  | invalidEscape => "invalid escape"
  | invalidNumber => "invalid number"
  | numberOutOfRange => "number out of range"
  | keyMustBeString => "key must be a string"
  | loneSurrogate => "lone leading surrogate in hex escape"
  | unfinishedSurrogate => "unexpected end of hex escape"
  | controlCharacter => "control character (\\u0000-\\u001F) found while parsing a string"
  | trailingComma => "trailing comma"
  | trailingCharacters => "trailing characters"
  | unfit text => text

/-- A cause and the number of bytes left where it showed. -/
structure Fault where
  cause : Cause
  left : Nat
  deriving DecidableEq, Repr

namespace Fault

/-- A fault that shows at the end of what was read. -/
def here (rest : Bytes) (cause : Cause) : Fault := ⟨cause, rest.length⟩

/-- A fault of the next byte, if there is one. -/
def ahead (rest : Bytes) (cause : Cause) : Fault := ⟨cause, rest.length - 1⟩

/-- The part of a text in front of a fault. -/
def front (f : Fault) (text : Bytes) : Bytes := text.take (text.length - f.left)

/-- The line of a fault, from one. -/
def line (f : Fault) (text : Bytes) : Nat := (f.front text).count Bytes.newline + 1

/-- The bytes on that line in front of the fault. -/
def column (f : Fault) (text : Bytes) : Nat :=
  ((f.front text).reverse.takeWhile (· != Bytes.newline)).length

/-- The message of a fault in a text. -/
def message (f : Fault) (text : Bytes) : String :=
  f.cause.text ++ " at line " ++ toString (f.line text) ++ " column " ++ toString (f.column text)

end Fault

end Json

end CallMigration
