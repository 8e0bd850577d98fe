/-!
# Plain text

Text as it is shown where no terminal interprets it: without the sequences that command a terminal
and without control characters, white space apart.

## Main Definitions

* `Text.Sequence` — the part of a terminal sequence that was read
* `Text.Sequence.after` — what a character makes of that part
* `Text.Sequence.shows` — whether a character inside or outside of a sequence is text
* `Text.plain` — the text without sequences and control characters

## Design Notes

A sequence starts with an escape character, and so does the next one wherever it comes, so a
sequence that is not finished reaches to the next one. White space inside a sequence suspends it,
unless the sequence carries a text: the white space is shown and so is what follows, up to a control
character, with which the sequence goes on. A suspended sequence is forgotten at a character beyond
ASCII.

A text that a sequence carries ends with the byte `0x9C`, the second one of the character U+009C,
and no less with a character of another meaning that has this byte in its UTF-8 form.
-/

namespace CallMigration

namespace Text

/-- The part of a terminal sequence that was read. -/
inductive Sequence
  /-- Nothing. -/
  | outside
  /-- The escape character. -/
  | escape
  /-- The escape character and intermediate characters. -/
  | intermediate
  /-- The start of a control sequence, whose last character is at least `@`. -/
  | control
  /-- The start of a system command, which carries a text up to a bell. -/
  | command
  /-- The start of a device control. -/
  | device
  /-- A device control and parameters. -/
  | deviceParameters
  /-- A device control and intermediate characters, parameters in front of them or not. -/
  | deviceIntermediate
  /-- The start of a text that ends with the byte `0x9C`. -/
  | string
  deriving DecidableEq, Repr

/-- Whether a character is white space among the control characters. -/
def isLineControl (c : Char) : Bool := c = '\t' || c = '\n' || c = '\x0c' || c = '\r'

/-- Whether a character is shown outside of sequences. -/
def isShown (c : Char) : Bool := isLineControl c || (' ' ≤ c && c ≠ '\x7f')

/-- Whether a character ends a text that a sequence carries. -/
def endsString (c : Char) : Bool := (String.utf8EncodeChar c).contains 0x9C

namespace Sequence

/-- Whether white space suspends a sequence. -/
def yields : Sequence → Bool
  | escape => true
  | intermediate => true
  | control => true
  | _ => false

/-- What the character behind an escape character starts. -/
def start (c : Char) : Sequence :=
  if c = '[' then control
  else if c = ']' then command
  else if c = 'P' then device
  else if c = 'X' ∨ c = '^' ∨ c = '_' then string
  else if ' ' ≤ c ∧ c ≤ '/' then intermediate
  else if '0' ≤ c ∧ c ≤ '~' then outside
  else escape

/-- What a character makes of the part of a sequence that was read. -/
def after (s : Sequence) (c : Char) : Sequence :=
  if c = '\x1b' then escape
  else if c = '\x18' ∨ c = '\x1a' then outside
  else
    match s with
    | outside => outside
    | escape => start c
    | intermediate => if '0' ≤ c ∧ c ≤ '~' then outside else intermediate
    | control => if '@' ≤ c ∧ c ≤ '~' then outside else control
    | command => if c = '\x07' then outside else command
    | device =>
      if ' ' ≤ c ∧ c ≤ '/' then deviceIntermediate
      else if '0' ≤ c ∧ c ≤ '?' then deviceParameters
      else if '@' ≤ c ∧ c ≤ '~' then string
      else device
    | deviceParameters =>
      if ' ' ≤ c ∧ c ≤ '/' then deviceIntermediate
      else if '<' ≤ c ∧ c ≤ '~' then string
      else deviceParameters
    | deviceIntermediate => if '0' ≤ c ∧ c ≤ '~' then string else deviceIntermediate
    | string => if endsString c then outside else string

/-- Whether a character is text. -/
def shows (s : Sequence) (c : Char) : Bool :=
  if s = outside then isShown c else s.yields && isLineControl c

/-- The characters that are text, when a part of a sequence was read. `suspended` says that it does
not apply before the next control character. -/
def filter (s : Sequence) (suspended : Bool) : List Char → List Char
  | [] => []
  | c :: cs =>
    if suspended && isShown c then c :: (if c ≤ '\x7f' then s else outside).filter true cs
    else if s.shows c then c :: (s.after c).filter true cs
    else (s.after c).filter false cs

end Sequence

/-- The text without sequences and control characters. -/
def plain (s : String) : String := String.ofList (Sequence.outside.filter false s.toList)

end Text

end CallMigration
