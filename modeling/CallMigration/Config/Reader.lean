import CallMigration.Config.Basic
import CallMigration.Json.Expect
import CallMigration.Volume.Text

/-!
# Reading configurations

A configuration is a JSON object, or a JSON array that gives the fields in their order. Fields
that are not given have their default; members with other keys are passed over.

## Main Definitions

* `Config.readField` — the value of one field
* `Config.read` — a configuration from a whole text
* `Volume.loadConfig` — the configuration in the file that a path leads to

## Design Notes

A field may be given once. When its key comes again, that is found before its value is read; the
fault is placed behind the white space that follows the key, and behind the end of the object if
that follows at once.
-/

namespace CallMigration

namespace Config

open Json

/-- The names of the modes. -/
def modeChoices : List (String × Mode) :=
  [Mode.shallow, Mode.balanced].map fun m => (m.name, m)

/-- The names of the policies. -/
def policyChoices : List (String × FailurePolicy) :=
  [FailurePolicy.abort, FailurePolicy.keepGoing].map fun p => (p.name, p)

/-- Takes a value into a configuration. -/
def store {α : Type} (set : α → Config) : Except Fault (α × Bytes) → Except Fault (Config × Bytes)
  | .error e => .error e
  | .ok (a, rest) => .ok (set a, rest)

/-- Reads the value of a field into a configuration. -/
def readField (c : Config) (t : Bytes) : Field → Except Fault (Config × Bytes)
  | .root => store (fun s => { c with root := s }) (expectString t)
  | .extension => store (fun s => { c with extension := s }) (expectString t)
  | .mode => store (fun m => { c with mode := m }) (expectChoice modeChoices t)
  | .onError => store (fun p => { c with onError := p }) (expectChoice policyChoices t)
  | .dryRun => store (fun b => { c with dryRun := b }) (expectBool t)
  | .skipDirs => store (fun ss => { c with skipDirs := ss }) (expectStrings t)
  | .rootOnlySkipDirs => store (fun ss => { c with rootOnlySkipDirs := ss }) (expectStrings t)
  | .exclude => store (fun ss => { c with exclude := ss }) (expectStrings t)

theorem length_le_of_readField {c d : Config} {t rest : Bytes} {f : Field}
    (h : readField c t f = .ok (d, rest)) : rest.length ≤ t.length := by
  unfold readField store at h
  grind [→ length_lt_of_expectString, → length_le_of_expectBool, → length_le_of_expectStrings,
    → length_le_of_expectChoice]

/-! ### Arrays -/

/-- The text behind an array that has given every field. -/
def closeFields (t : Bytes) : Except Fault Bytes :=
  match skipBlanks t with
  | [] => .error (.ahead [] .endInList)
  | b :: t =>
    if b = closeBracket then .ok t
    else if b = comma then
      match skipBlanks t with
      | [] => .error (.ahead [] .trailingCharacters)
      | c :: t =>
        .error (.ahead (c :: t) (if c = closeBracket then .trailingComma else .trailingCharacters))
    else .error (.ahead (b :: t) .trailingCharacters)

/-- Reads the given fields from an array. `first` says that none was read before. -/
def readFields (c : Config) (first : Bool) (t : Bytes) :
    List Field → Except Fault (Config × Bytes)
  | [] =>
    match closeFields t with
    | .error e => .error e
    | .ok rest => .ok (c, rest)
  | f :: fields =>
    match nextItem first t with
    | .error e => .error e
    | .ok (.stop rest) => .ok (c, rest)
    | .ok (.start t) =>
      match readField c t f with
      | .error e => .error e
      | .ok (c, rest) => readFields c false rest fields

/-! ### Objects -/

/-- Where the key of the next member starts, behind its quote, or the text behind the object. -/
inductive Member
  | key (t : Bytes)
  | stop (rest : Bytes)

/-- Goes to the next member of an object. `first` says that none was read before. -/
def nextMember (first : Bool) (t : Bytes) : Except Fault Member :=
  match skipBlanks t with
  | [] => .error (.ahead [] .endInObject)
  | b :: t =>
    if b = closeBrace then .ok (.stop t)
    else if first then
      if b = quote then .ok (.key t) else .error (.ahead (b :: t) .keyMustBeString)
    else if b = comma then
      match skipBlanks t with
      | [] => .error (.ahead [] .endInValue)
      | c :: t =>
        if c = quote then .ok (.key t)
        else if c = closeBrace then .error (.ahead (c :: t) .trailingComma)
        else .error (.ahead (c :: t) .keyMustBeString)
    else .error (.ahead (b :: t) .expectedObjectCommaOrEnd)

/-- The fault of a key that comes again, the text behind the key given. -/
def repeatedKey (f : Field) (t : Bytes) : Fault :=
  let t := skipBlanks t
  .here (if t.head? = some closeBrace then t.tail else t)
    (.unfit ("duplicate field `" ++ f.key ++ "`"))

/-- Reads the value of a member with a key, the text behind the key given, and notes its field. -/
def readMember (seen : List Field) (c : Config) (key : String) (t : Bytes) :
    Except Fault (List Field × Config × Bytes) :=
  match Field.ofKey? key with
  | none =>
    match expectColon t with
    | .error e => .error e
    | .ok t =>
      match skipValue t with
      | .error e => .error e
      | .ok rest => .ok (seen, c, rest)
  | some f =>
    if f ∈ seen then .error (repeatedKey f t)
    else
      match expectColon t with
      | .error e => .error e
      | .ok t =>
        match readField c t f with
        | .error e => .error e
        | .ok (c, rest) => .ok (f :: seen, c, rest)

theorem length_le_of_nextMember {first : Bool} {t u : Bytes}
    (h : nextMember first t = .ok (.key u)) : u.length ≤ t.length := by
  unfold nextMember at h
  grind [length_skipBlanks_le]

theorem length_le_of_readMember {seen seen' : List Field} {c d : Config} {key : String}
    {t rest : Bytes} (h : readMember seen c key t = .ok (seen', d, rest)) :
    rest.length ≤ t.length := by
  unfold readMember at h
  grind [→ length_le_of_expectColon, → length_lt_of_skipValue, → length_le_of_readField]

/-- Reads the members of an object whose brace was read; `seen` lists the fields given so far. -/
def readMembers (seen : List Field) (c : Config) (first : Bool) (t : Bytes) :
    Except Fault (Config × Bytes) :=
  match _hm : nextMember first t with
  | .error e => .error e
  | .ok (.stop rest) => .ok (c, rest)
  | .ok (.key u) =>
    match _hk : readString u with
    | .error e => .error e
    | .ok (key, v) =>
      match _hv : readMember seen c (stringOf key) v with
      | .error e => .error e
      | .ok (seen, c, rest) => readMembers seen c false rest
  termination_by t.length
  decreasing_by
    have := length_le_of_nextMember _hm
    have := length_lt_of_readString _hk
    have := length_le_of_readMember _hv
    omega

/-! ### Whole texts -/

/-- A configuration at the start of a text. -/
def readPrefix (t : Bytes) : Except Fault (Config × Bytes) :=
  match skipBlanks t with
  | [] => .error (.ahead [] .endInValue)
  | b :: t =>
    if b = openBrace then readMembers [] {} true t
    else if b = openBracket then readFields {} true t Field.all
    else .error (misfit "struct RewriteConfig" (b :: t))

/-- A configuration from a whole text. -/
def read (t : Bytes) : Except Fault Config :=
  match readPrefix t with
  | .error e => .error e
  | .ok (c, rest) =>
    match skipBlanks rest with
    | [] => .ok c
    | b :: t => .error (.ahead (b :: t) .trailingCharacters)

end Config

/-! ### Files -/

/-- The configuration in the file that a path leads to, not validated. -/
def Volume.loadConfig (disk : Disk) (v : Volume) (path : Bytes) : Except Error Config :=
  match v.readText disk path with
  | .error e => .error e
  | .ok text =>
    match Config.read text with
    | .error fault => .error (.invalidJson (Utf8.decodeLossy path) (fault.message text))
    | .ok c => .ok c

end CallMigration
