import CallMigration.Bytes

/-!
# Globs

A glob is matched against a path by a search with one memory for the last `*`, one for the last
`**`, and a stack of the braces that are open.

* `?` is one byte and `*` any number of bytes, neither of them a `/`; `**` is any number of bytes.
* `[abc]`, `[a-c]` and `[^abc]` or `[!abc]` are one byte in or not in a set.
* `{a,b}` is one of several globs; braces nest up to ten deep.
* `\` takes away the meaning of the next byte, and names a control in `\a`, `\b`, `\n`, `\r`, `\t`.
* Each `!` at the start turns the answer round.

## Main Definitions

* `Glob.step` — one step of the search
* `Glob.answer?` — the answer of the search, if it ends
* `Glob.isMatch` — whether a glob matches a path

## Design Notes

A glob that is not well formed matches nothing, whatever `!` it starts with. The search only stores
places in the glob and in the path, so it has finitely many configurations; one that takes more
steps than that repeats itself and never ends. `Glob.answer?` has no answer then, and
`Glob.isMatch` takes this for no match.
-/

namespace CallMigration

namespace Glob

/-! ### Bytes with a meaning -/

/-- The byte `*`. -/
def star : UInt8 := 0x2A

/-- The byte `?`. -/
def question : UInt8 := 0x3F

/-- The byte `!`. -/
def bang : UInt8 := 0x21

/-- The byte `^`. -/
def caret : UInt8 := 0x5E

/-- The byte `-`. -/
def dash : UInt8 := 0x2D

/-- The byte `,`. -/
def comma : UInt8 := 0x2C

/-- The byte `\`. -/
def backslash : UInt8 := 0x5C

/-- The byte `[`. -/
def openBracket : UInt8 := 0x5B

/-- The byte `]`. -/
def closeBracket : UInt8 := 0x5D

/-- The byte that opens alternatives. -/
def openBrace : UInt8 := 0x7B

/-- The byte that closes alternatives. -/
def closeBrace : UInt8 := 0x7D

/-! ### The state of a search -/

/-- A glob or a path, for reading at any place. -/
abbrev Word := Array UInt8

/-- A place to go back to: in the glob, and in the path, where zero means none. -/
structure Mark where
  glob : Nat := 0
  path : Nat := 0
  deriving DecidableEq, Repr

/-- Whether there is a place to go back to in a path. -/
def Mark.IsSet (m : Mark) (path : Word) : Prop := 0 < m.path ∧ m.path ≤ path.size

instance markIsSetDecidable (m : Mark) (path : Word) : Decidable (m.IsSet path) := by
  unfold Mark.IsSet
  infer_instance

/-- How far a search is. -/
structure Cursor where
  glob : Nat
  path : Nat := 0
  /-- Where to go on after the last `*` or `**`. -/
  wildcard : Mark := {}
  /-- Where to go on after the last `**`. -/
  globstar : Mark := {}
  deriving DecidableEq, Repr

/-- Goes back to the last wildcard. -/
def Cursor.retry (c : Cursor) : Cursor :=
  { c with glob := c.wildcard.glob, path := c.wildcard.path }

/-- The whole state of a search. -/
structure Search where
  cursor : Cursor
  /-- Where the braces that are open started, the innermost first. -/
  braces : List Cursor := []
  /-- The longest that an alternative has matched so far. -/
  longest : Nat := 0
  deriving DecidableEq, Repr

/-- Leaves the innermost braces behind the longest alternative. -/
def Search.leave (s : Search) : Search :=
  match s.braces with
  | [] => s
  | b :: braces =>
    { cursor := { s.cursor with
        path := s.longest, wildcard := b.wildcard, globstar := b.globstar }
      braces := braces
      longest := if braces.isEmpty then 0 else s.longest }

/-- What a part of a search comes to. -/
inductive Attempt
  /-- The next byte of the glob has its match. -/
  | advanced (s : Search)
  /-- It has none. -/
  | stuck (s : Search)
  /-- The glob is not well formed. -/
  | invalid

/-! ### Parts of a glob -/

/-- The byte that a byte behind a backslash stands for. -/
def unescaped (b : UInt8) : UInt8 :=
  if b = 0x61 then 0x61
  else if b = 0x62 then 0x08
  else if b = 0x6E then 0x0A
  else if b = 0x72 then 0x0D
  else if b = 0x74 then 0x09
  else b

/-- The byte that stands at a place, and the place of its last byte. -/
def literalAt (g : Word) (i : Nat) : Option (UInt8 × Nat) :=
  match g[i]? with
  | none => none
  | some b =>
    if b = backslash then g[i + 1]?.map fun c => (unescaped c, i + 1) else some (b, i)

/-- The place behind repeated `/**`. -/
def skipGlobstars (g : Word) (i : Nat) : Nat :=
  if h : i + 2 < g.size then
    if g[i] = Bytes.slash ∧ g[i + 1] = star ∧ g[i + 2] = star then skipGlobstars g (i + 3) else i
  else i
  termination_by g.size - i

theorem le_skipGlobstars (g : Word) (i : Nat) : i ≤ skipGlobstars g i := by
  fun_induction skipGlobstars g i <;> omega

/-- How the rest of alternatives ends. -/
inductive Ending
  /-- With a comma of the same braces. -/
  | comma (next : Nat)
  /-- With the braces. -/
  | brace (next : Nat)
  /-- Not at all. -/
  | missing

/-- The place behind the rest of alternatives. `depth` counts the braces to close, `inSet` says that
a `[` is open, and `stop` asks to stop at a comma. -/
def skipBraces (g : Word) (stop : Bool) (depth : Nat) (inSet : Bool) (i : Nat) : Ending :=
  if h : i < g.size then
    match depth with
    | 0 => .brace i
    | depth + 1 =>
      let b := g[i]
      if b = openBrace ∧ ¬ inSet then skipBraces g stop (depth + 2) inSet (i + 1)
      else if b = closeBrace ∧ ¬ inSet then skipBraces g stop depth inSet (i + 1)
      else if b = comma ∧ stop ∧ depth = 0 ∧ ¬ inSet then .comma (i + 1)
      else if b = star ∧ ¬ inSet then
        if g[i + 1]? = some star then
          skipBraces g stop (depth + 1) inSet (skipGlobstars g (i + 2))
        else skipBraces g stop (depth + 1) inSet (i + 1)
      else if b = openBracket ∧ ¬ inSet then skipBraces g stop (depth + 1) true (i + 1)
      else if b = closeBracket then skipBraces g stop (depth + 1) false (i + 1)
      else if b = backslash then skipBraces g stop (depth + 1) inSet (i + 2)
      else skipBraces g stop (depth + 1) inSet (i + 1)
  else if depth = 0 then .brace i else .missing
  termination_by g.size - i
  decreasing_by
    all_goals
      have := le_skipGlobstars g (i + 2)
      omega

/-! ### Stars -/

/-- Goes on behind one star: the place, and the memory of the last `**`. -/
def afterStar (c : Cursor) : Cursor :=
  { c with glob := c.glob + 1, wildcard := ⟨c.glob, c.path + 1⟩ }

/-- Goes on behind two stars. A `/` behind them is taken along when they stand for whole parts of
the path. -/
def afterGlobstar (g p : Word) (c : Cursor) : Cursor :=
  let first := skipGlobstars g (c.glob + 2) - 2
  let behind := first + 2
  let mark : Mark := ⟨first, c.path + 1⟩
  let c := { c with glob := behind, wildcard := mark }
  if behind = g.size then { c with globstar := mark }
  else if (behind < 3 ∨ g[behind - 3]? = some Bytes.slash) ∧ g[behind]? = some Bytes.slash then
    let atStart := c.path = 0 ∨ (c.path < p.size ∧ p[c.path - 1]? = some Bytes.slash)
    { c with glob := if atStart then behind + 1 else behind, globstar := mark }
  else c

/-- At a `/` of the path a star ends: the search goes back to the last `**`, or has no place to go
back to. -/
def endStar (p : Word) (c : Cursor) : Cursor :=
  if c.globstar.path ≠ c.wildcard.path ∧ p[c.path]? = some Bytes.slash then
    if 0 < c.globstar.path ∧ c.path + 1 < p.size then
      { c with
        glob := c.globstar.glob
        wildcard := { c.wildcard with glob := c.globstar.glob } }
    else { c with wildcard := { c.wildcard with path := 0 } }
  else c

/-- Goes on behind one or two stars. An alternative that ends with them is over. -/
def takeStar (g p : Word) (s : Search) : Attempt :=
  let c := s.cursor
  let c := if g[c.glob + 1]? = some star then afterGlobstar g p c else afterStar c
  let c := endStar p c
  let ends := g[c.glob]? = some comma ∨ g[c.glob]? = some closeBrace
  if s.braces ≠ [] ∧ ends then
    match skipBraces g false 1 false c.glob with
    | .missing => .invalid
    | .brace next => .advanced { s with cursor := { c with glob := next } }
    | .comma next => .advanced { s with cursor := { c with glob := next } }
  else .advanced { s with cursor := c }

/-! ### Sets -/

/-- What the bytes of a set come to. -/
inductive Membership
  /-- The place behind the set, and whether the byte is in it. -/
  | known (next : Nat) (isIn : Bool)
  /-- The set does not end. -/
  | invalid

/-- Reads the bytes and ranges of a set up to its bracket; a bracket that comes first is a byte of
the set. -/
def readSet (g : Word) (x : UInt8) (first hit : Bool) (i : Nat) : Membership :=
  if h : i < g.size then
    if ¬ first ∧ g[i] = closeBracket then .known (i + 1) hit
    else
      match _hl : literalAt g i with
      | none => .invalid
      | some (low, j) =>
        if g[j + 1]? = some dash ∧ j + 2 < g.size ∧ g[j + 2]? ≠ some closeBracket then
          match _hh : literalAt g (j + 2) with
          | none => .invalid
          | some (high, k) => readSet g x false (hit || (low ≤ x && x ≤ high)) (k + 1)
        else readSet g x false (hit || low == x) (j + 1)
  else .invalid
  termination_by g.size - i
  decreasing_by
    all_goals
      unfold literalAt at *
      grind

/-- Matches a byte of the path against a set. -/
def takeSet (g p : Word) (s : Search) : Attempt :=
  let c := s.cursor
  match p[c.path]? with
  | none => .stuck s
  | some x =>
    let i := c.glob + 1
    let negated := g[i]? = some caret ∨ g[i]? = some bang
    match readSet g x true false (if negated then i + 1 else i) with
    | .invalid => .invalid
    | .known next isIn =>
      if isIn ≠ decide negated then
        .advanced { s with cursor := { c with glob := next, path := c.path + 1 } }
      else .stuck { s with cursor := { c with glob := next } }

/-! ### Single bytes and braces -/

/-- The braces that may be open. -/
def braceLimit : Nat := 10

/-- Matches one byte of the path against `?`. -/
def takeQuestion (p : Word) (s : Search) : Attempt :=
  let c := s.cursor
  if p[c.path]? ≠ none ∧ p[c.path]? ≠ some Bytes.slash then
    .advanced { s with cursor := { c with glob := c.glob + 1, path := c.path + 1 } }
  else .stuck s

/-- Opens braces. -/
def takeOpenBrace (s : Search) : Attempt :=
  let c := s.cursor
  if s.braces.length = braceLimit then .invalid
  else
    .advanced { s with
      braces := c :: s.braces
      cursor := ⟨c.glob + 1, c.path, {}, {}⟩ }

/-- Closes the innermost braces. -/
def takeCloseBrace (s : Search) : Attempt :=
  let c := s.cursor
  .advanced
    { s with
      longest := max s.longest c.path
      cursor := { c with glob := c.glob + 1 } : Search }.leave

/-- Goes on to the next alternative of braces that were opened at `start`. -/
def takeComma (s : Search) (start : Cursor) : Attempt :=
  let c := s.cursor
  .advanced { s with
    longest := max s.longest c.path
    cursor := ⟨c.glob + 1, start.path, {}, {}⟩ }

/-- Matches one byte of the path against itself. -/
def takeLiteral (g p : Word) (s : Search) : Attempt :=
  let c := s.cursor
  match p[c.path]? with
  | none => .stuck s
  | some x =>
    match literalAt g c.glob with
    | none => .invalid
    | some (b, i) =>
      let s := { s with cursor := { c with glob := i } : Search }
      if x = b then
        let closes := s.braces ≠ [] ∧ 0 < i ∧ g[i - 1]? = some closeBrace
        let s := if closes then { s with longest := c.path : Search }.leave else s
        let c := s.cursor
        .advanced { s with
          cursor := { c with
            glob := i + 1
            path := c.path + 1
            globstar := if b = Bytes.slash then c.globstar
              else { c.globstar with path := 0 } } }
      else .stuck s

/-! ### The search -/

/-- Matches what stands next in the glob. -/
def attempt (g p : Word) (s : Search) : Attempt :=
  match g[s.cursor.glob]? with
  | none => .stuck s
  | some b =>
    if b = star then takeStar g p s
    else if b = question then takeQuestion p s
    else if b = openBracket then takeSet g p s
    else if b = openBrace then if s.cursor.path < p.size then takeOpenBrace s else .stuck s
    else
      match s.braces with
      | [] => takeLiteral g p s
      | start :: _ =>
        if b = closeBrace then takeCloseBrace s
        else if b = comma then takeComma s start
        else takeLiteral g p s

/-- Goes back when nothing matches: to the last wildcard, to the next alternative, behind the braces
when an alternative has matched, or to the last wildcard in front of them. `none` when there is
nothing to go back to. -/
def backtrack (g p : Word) (s : Search) : Option (Option Search) :=
  if s.cursor.wildcard.IsSet p then some (some { s with cursor := s.cursor.retry })
  else
    match s.braces with
    | [] => some none
    | start :: braces =>
      match skipBraces g true 1 false s.cursor.glob with
      | .missing => none
      | .comma next =>
        some (some { s with cursor := { s.cursor with glob := next, path := start.path } })
      | .brace next =>
        if 0 < s.longest then
          some (some { s with cursor := { s.cursor with glob := next } : Search }.leave)
        else if start.wildcard.IsSet p then
          some (some { s with cursor := start.retry, braces := braces })
        else some none

/-- What one step of a search comes to. -/
inductive Progress
  | going (s : Search)
  | over (isMatch : Bool)

/-- One step of a search. `negated` says that the answer is to be turned round. -/
def step (g p : Word) (negated : Bool) (s : Search) : Progress :=
  if g.size ≤ s.cursor.glob ∧ p.size ≤ s.cursor.path then .over (!negated)
  else
    match attempt g p s with
    | .advanced s => .going s
    | .invalid => .over false
    | .stuck s =>
      match backtrack g p s with
      | none => .over false
      | some none => .over negated
      | some (some s) => .going s

/-- Takes steps until the search is over, `bound` steps at most. -/
def run (g p : Word) (negated : Bool) : (bound : Nat) → Search → Option Bool
  | 0, _ => none
  | bound + 1, s =>
    match step g p negated s with
    | .over isMatch => some isMatch
    | .going s => run g p negated bound s

/-- A number that the configurations of a search do not exceed: a cursor has three places in the
glob and three in the path, there are up to eleven cursors, and one more place in the path. -/
def configurations (g p : Word) : Nat := Nat.pow ((g.size + 2) * (p.size + 2)) 34

/-- Where the search for a glob starts: behind the `!` at its start. -/
def start (glob : Bytes) : Search := { cursor := { glob := (glob.takeWhile (· == bang)).length } }

/-- Whether the answer for a glob is to be turned round. -/
def isNegated (glob : Bytes) : Bool := (glob.takeWhile (· == bang)).length % 2 == 1

/-- The answer of the search for a glob in a path, if it ends. -/
def answer? (glob path : Bytes) : Option Bool :=
  let g := glob.toArray
  let p := path.toArray
  run g p (isNegated glob) (configurations g p) (start glob)

/-- What it means for a glob to match a path. -/
abbrev Matcher := Bytes → Bytes → Bool

/-- Whether a glob matches a path. A search that never ends matches nothing. -/
def isMatch : Matcher := fun glob path => (answer? glob path).getD false

end Glob

end CallMigration
