import CallMigration.Text.Plain
import CallMigration.Utf8

/-!
# Arguments

Reading a command line from left to right.

## Main Definitions

* `Arguments` — what the command line asks for
* `UsageError` — why a command line is refused
* `Command.parse` — a run, a question for help or version, or a refusal

## Design Notes

The value of an option may be the next argument, so an option is only counted when the argument
after it is known to be its value or not. Until then the option is pending, and so is the
positional argument. An argument that is not known at all is refused before what is pending, any
other argument settles it first.
-/

namespace CallMigration

/-- What the command line asks for. -/
structure Arguments where
  /-- The positional argument. -/
  path : Option String := none
  root : Option String := none
  extension : Option String := none
  config : Option String := none
  balanced : Bool := false
  keepGoing : Bool := false
  dryRun : Bool := false
  exclude : List String := []
  json : Bool := false
  deriving DecidableEq, Repr

/-- The options that take a value. -/
inductive Setting
  | root
  | extension
  | config
  | exclude
  deriving DecidableEq, Repr

/-- The name of an option. -/
def Setting.name : Setting → String
  | root => "--root"
  | extension => "--extension"
  | config => "--config"
  | exclude => "--exclude"

/-- An option as messages show it. -/
def Setting.shown : Setting → String
  | root => "--root <DIR>"
  | extension => "--extension <EXT>"
  | config => "--config <FILE>"
  | exclude => "--exclude <GLOB>"

/-- The options that take no value. -/
inductive Flag
  | balanced
  | keepGoing
  | dryRun
  | json
  | help
  | version
  deriving DecidableEq, Repr

/-- The name of a flag. -/
def Flag.name : Flag → String
  | balanced => "--balanced"
  | keepGoing => "--keep-going"
  | dryRun => "--dry-run"
  | json => "--json"
  | help => "--help"
  | version => "--version"

/-- Anything that an argument can give. -/
inductive Item
  | positional
  | setting (s : Setting)
  | flag (f : Flag)
  deriving DecidableEq, Repr

/-- An item as messages show it. -/
def Item.shown : Item → String
  | positional => "[ROOT]"
  | setting s => s.shown
  | flag f => f.name

/-- The item of an option's name. -/
def Item.ofName? (name : String) : Option Item :=
  let settings := [Setting.root, .extension, .config, .exclude].map fun s => (s.name, setting s)
  let flags := [Flag.balanced, .keepGoing, .dryRun, .json, .help, .version].map fun f =>
    (f.name, flag f)
  (settings ++ flags).lookup name

/-- Whether an item may be given more than once. -/
def Item.mayRepeat : Item → Bool
  | setting .exclude => true
  | _ => false

/-- Why a command line is refused. -/
inductive UsageError
  | unexpectedArgument (shown : String)
  | unexpectedValue (value : String) (flag : Flag)
  | missingValue (item : Item)
  | repeated (item : Item)
  | conflict (first second : Item)
  | invalidUtf8
  deriving DecidableEq, Repr

/-- The message about a refused command line. An argument is shown in it without what would command
a terminal. -/
def UsageError.message : UsageError → String
  | unexpectedArgument shown => "error: unexpected argument '" ++ Text.plain shown ++ "' found"
  | unexpectedValue value flag =>
    "error: unexpected value '" ++ Text.plain value ++ "' for '" ++ flag.name ++
      "' found; no more were expected"
  | missingValue item =>
    "error: a value is required for '" ++ item.shown ++ "' but none was supplied"
  | repeated item => "error: the argument '" ++ item.shown ++ "' cannot be used multiple times"
  | conflict first second =>
    "error: the argument '" ++ first.shown ++ "' cannot be used with '" ++ second.shown ++ "'"
  | invalidUtf8 => "error: invalid UTF-8 was detected in one or more arguments"

/-- What a command line asks for. -/
inductive Command
  | run (a : Arguments)
  | help
  | version
  deriving DecidableEq, Repr

/-! ### Taking items -/

/-- What is known of a command line so far. -/
structure Parsing where
  arguments : Arguments := {}
  /-- The items that were counted, the last one first. -/
  given : List Item := []
  /-- An item that is not counted yet, and its values. -/
  pending : Option (Item × List Bytes) := none
  /-- Whether the next argument can be the value of the pending option. -/
  awaitsValue : Bool := false
  /-- Whether the positional argument was seen. -/
  sawPositional : Bool := false
  /-- Whether all further arguments are positional. -/
  onlyPositional : Bool := false
  deriving Repr

/-- Sets the value of an item. -/
def Arguments.setValue (a : Arguments) (value : String) : Item → Arguments
  | .positional => { a with path := some value }
  | .setting .root => { a with root := some value }
  | .setting .extension => { a with extension := some value }
  | .setting .config => { a with config := some value }
  | .setting .exclude => { a with exclude := a.exclude ++ [value] }
  | .flag _ => a

/-- Sets a flag. -/
def Arguments.setFlag (a : Arguments) : Flag → Arguments
  | .balanced => { a with balanced := true }
  | .keepGoing => { a with keepGoing := true }
  | .dryRun => { a with dryRun := true }
  | .json => { a with json := true }
  | .help => a
  | .version => a

namespace Parsing

/-- Counts an item with its values. -/
def count (p : Parsing) (item : Item) (values : List Bytes) : Except UsageError Parsing :=
  match values with
  | [] => .error (.missingValue item)
  | value :: _ =>
    if item ∈ p.given ∧ ¬ item.mayRepeat then .error (.repeated item)
    else
      match Bytes.toString? value with
      | none => .error .invalidUtf8
      | some s =>
        .ok { p with arguments := p.arguments.setValue s item, given := item :: p.given }

/-- Counts what is pending. -/
def settle (p : Parsing) : Except UsageError Parsing :=
  match p.pending with
  | none => .ok p
  | some (item, values) => { p with pending := none, awaitsValue := false }.count item values

/-- What an argument leads to. -/
inductive Effect
  /-- The next argument. -/
  | next (p : Parsing)
  /-- An end of the reading. -/
  | done (c : Command)

/-- Goes on to the next argument, unless there was an error. -/
def proceed : Except UsageError Parsing → Except UsageError Effect
  | .error e => .error e
  | .ok p => .ok (.next p)

/-- Takes a flag without a value. -/
def takeFlag (p : Parsing) (f : Flag) : Except UsageError Effect :=
  match p.settle with
  | .error e => .error e
  | .ok p =>
    match f with
    | .help => .ok (.done .help)
    | .version => .ok (.done .version)
    | f =>
      if .flag f ∈ p.given then .error (.repeated (.flag f))
      else
        .ok (.next { p with
          arguments := p.arguments.setFlag f, given := .flag f :: p.given })

/-- Takes the name of an option, without the value behind a `=` or with it. -/
def takeOption (p : Parsing) (name : Bytes) (value : Option Bytes) : Except UsageError Effect :=
  let shown := Utf8.decodeLossy name
  match (Bytes.toString? name).bind Item.ofName? with
  | some (.flag f) =>
    match value with
    | some v => .error (.unexpectedValue (Utf8.decodeLossy v) f)
    | none => p.takeFlag f
  | some item =>
    match p.settle with
    | .error e => .error e
    | .ok p =>
      match value with
      | some v => proceed (p.count item [v])
      | none => .ok (.next { p with pending := some (item, []), awaitsValue := true })
  | none => .error (.unexpectedArgument shown)

/-- The flag of a letter. -/
def letterFlag? (c : Char) : Option Flag :=
  if c = 'h' then some .help else if c = 'V' then some .version else none

/-- Takes letters behind a single dash. The first one decides: it ends the reading or is not
known. -/
def takeLetters (p : Parsing) (letters : Bytes) : Except UsageError Effect :=
  let known := (Utf8.invalidAt? letters).map fun n => letters.take n
  match (Utf8.decodeLossy (known.getD letters)).toList with
  | [] => .error (.unexpectedArgument ("-" ++ Utf8.decodeLossy letters))
  | c :: _ =>
    match letterFlag? c with
    | some f => p.takeFlag f
    | none => .error (.unexpectedArgument ("-" ++ c.toString))

/-- Takes a positional argument. -/
def takePositional (p : Parsing) (argument : Bytes) : Except UsageError Effect :=
  if p.sawPositional then .error (.unexpectedArgument (Utf8.decodeLossy argument))
  else
    match p.settle with
    | .error e => .error e
    | .ok p =>
      .ok (.next { p with pending := some (.positional, [argument]), sawPositional := true })

/-- The byte `-`. -/
def dash : UInt8 := 0x2D

/-- The byte `=`. -/
def equals : UInt8 := 0x3D

/-- Takes an argument that starts with neither one dash nor two: the value that the pending option
awaits, or the positional argument. -/
def takePlain (p : Parsing) (argument : Bytes) : Except UsageError Effect :=
  match p.awaitsValue, p.pending with
  | true, some (item, values) =>
    .ok (.next { p with pending := some (item, values ++ [argument]), awaitsValue := false })
  | _, _ => p.takePositional argument

/-- Takes the next argument. -/
def take (p : Parsing) (argument : Bytes) : Except UsageError Effect :=
  if p.onlyPositional then p.takePositional argument
  else
    match argument with
    | [] => p.takePlain argument
    | [_] => p.takePlain argument
    | a :: b :: rest =>
      if a ≠ dash then p.takePlain argument
      else if b ≠ dash then p.takeLetters (b :: rest)
      else if rest = [] then .ok (.next { p with onlyPositional := true })
      else
        match Bytes.cut? [equals] rest with
        | some (name, value) => p.takeOption (a :: b :: name) (some value)
        | none => p.takeOption argument none

/-- Ends the reading: the positional argument and `--root` exclude each other, and the one given
first is named first. -/
def finish (p : Parsing) : Except UsageError Command :=
  match p.settle with
  | .error e => .error e
  | .ok p =>
    let roots := p.given.reverse.filter fun i => i = .positional ∨ i = .setting .root
    match roots with
    | first :: second :: _ => .error (.conflict first second)
    | _ => .ok (.run p.arguments)

/-- Reads the remaining arguments. -/
def read (p : Parsing) : List Bytes → Except UsageError Command
  | [] => p.finish
  | argument :: rest =>
    match p.take argument with
    | .error e => .error e
    | .ok (.done c) => .ok c
    | .ok (.next p) => p.read rest

end Parsing

/-- Reads a command line, without the name of the program. -/
def Command.parse (arguments : List Bytes) : Except UsageError Command :=
  Parsing.read {} arguments

end CallMigration
