import ClassWarden.Text.Count

/-!
# Command-line arguments

A command line names one of two commands.  Options may stand before the command
or behind it; an option that stands at both levels takes the value behind the
command, and one that is repeated at one level is an error.

Arguments are read from left to right.  The value of an option and the paths
seen so far stay pending until another option or the end of the arguments is
reached, and are checked only then; so of two faults it is not always the first
that is reported.  Behind two dashes every argument is a plain word.
-/

namespace ClassWarden

inductive OptionName where
  | maxDistance
  | maxSkip
  | threads
  | format
  | output
  deriving DecidableEq, Repr

inductive Format where
  | json
  | text
  deriving DecidableEq, Repr

structure OptionValues where
  maxDistance : Option Nat
  maxSkip : Option Nat
  threads : Option Nat
  format : Option Format
  output : Option String
  deriving DecidableEq, Repr

inductive Command where
  | scan (paths : List String)
  | signatures
  deriving DecidableEq, Repr

/-- What a command line asks for. -/
structure Invocation where
  command : Command
  values : OptionValues
  deriving DecidableEq, Repr

/-- Why a command line asks for nothing that could be run. -/
inductive UsageError where
  /-- Help was asked for. -/
  | help
  /-- There are no arguments at all. -/
  | nothingGiven
  | missingCommand
  | unknownCommand
  /-- A scan without paths. -/
  | missingPath
  | unknownArgument
  | repeatedOption
  /-- A value is missing, empty or not one of the values to choose from. -/
  | invalidValue
  /-- A value is no count. -/
  | invalidCount
  /-- A value is attached to an option that takes none. -/
  | unexpectedValue
  deriving DecidableEq, Repr

namespace OptionName

def ofLong? : String → Option OptionName
  | "max-distance" => some maxDistance
  | "max-skip" => some maxSkip
  | "threads" => some threads
  | "format" => some format
  | "output" => some output
  | _ => none

def ofShort? : Char → Option OptionName
  | 'f' => some format
  | 'o' => some output
  | _ => none

end OptionName

def Format.parse? : String → Option Format
  | "json" => some json
  | "text" => some text
  | _ => none

namespace OptionValues

def none : OptionValues := ⟨.none, .none, .none, .none, .none⟩

def count (old : Option Nat) (text : String) : Except UsageError (Option Nat) :=
  if old.isSome then .error .repeatedOption
  else
    match Count.parse text with
    | .ok value => .ok (some value)
    | .error _ => .error .invalidCount

def set (values : OptionValues) (name : OptionName) (text : String) :
    Except UsageError OptionValues :=
  match name with
  | .maxDistance =>
    (count values.maxDistance text).map fun maxDistance => { values with maxDistance }
  | .maxSkip => (count values.maxSkip text).map fun maxSkip => { values with maxSkip }
  | .threads => (count values.threads text).map fun threads => { values with threads }
  | .format =>
    if values.format.isSome then .error .repeatedOption
    else
      match Format.parse? text with
      | some format => .ok { values with format := some format }
      | .none => .error .invalidValue
  | .output =>
    if values.output.isSome then .error .repeatedOption
    else if text = "" then .error .invalidValue
    else .ok { values with output := some text }

/-- The values of two levels together, where the inner ones win. -/
def within (inner outer : OptionValues) : OptionValues where
  maxDistance := inner.maxDistance <|> outer.maxDistance
  maxSkip := inner.maxSkip <|> outer.maxSkip
  threads := inner.threads <|> outer.threads
  format := inner.format <|> outer.format
  output := inner.output <|> outer.output

end OptionValues

namespace Arguments

inductive Shape where
  /-- Two dashes and nothing else. -/
  | separator
  /-- Two dashes and a name, with a value behind the first equals sign. -/
  | long (name : String) (value? : Option String)
  /-- One dash and a letter, with whatever follows it. -/
  | short (letter : Char) (attached : List Char)
  | word (text : String)
  deriving DecidableEq, Repr

/-- Text up to the first equals sign, and what follows the sign. -/
def splitEquals (chars : List Char) : List Char × Option (List Char) :=
  match chars with
  | [] => ([], none)
  | '=' :: rest => ([], some rest)
  | char :: rest =>
    let split := splitEquals rest
    (char :: split.1, split.2)

def Shape.of (argument : String) : Shape :=
  match argument.toList with
  | ['-', '-'] => .separator
  | '-' :: '-' :: rest =>
    let split := splitEquals rest
    .long (String.ofList split.1) (split.2.map String.ofList)
  | '-' :: letter :: attached => .short letter attached
  | _ => .word argument

/-- The value attached to a one-letter option: what follows the letter, less one
equals sign. -/
def attachedValue? : List Char → Option String
  | [] => none
  | '=' :: value => some (String.ofList value)
  | value => some (String.ofList value)

/-- Where arguments are read: before the command or behind it. -/
inductive Level where
  | top
  | scan
  | signatures
  deriving DecidableEq, Repr

/-- What was read last and is not checked yet. -/
inductive Pending where
  | nothing
  /-- An option and its value, if that was read already. -/
  | option (name : OptionName) (value? : Option String)
  | paths (paths : List String)
  deriving DecidableEq, Repr

structure Progress where
  values : OptionValues
  paths : List String
  pending : Pending
  deriving DecidableEq, Repr

namespace Progress

def start : Progress := ⟨.none, [], .nothing⟩

def awaitsValue (progress : Progress) : Bool :=
  match progress.pending with
  | .option _ none => true
  | _ => false

/-- Checks what is pending. -/
def settle (progress : Progress) : Except UsageError Progress :=
  match progress.pending with
  | .nothing => .ok progress
  | .option _ none => .error .invalidValue
  | .option name (some text) =>
    match progress.values.set name text with
    | .ok values => .ok { progress with values, pending := .nothing }
    | .error error => .error error
  | .paths paths =>
    if paths.contains "" then .error .invalidValue
    else .ok { progress with paths := progress.paths ++ paths, pending := .nothing }

/-- Reads an option.  A value attached to it is checked at once. -/
def option (progress : Progress) (name : OptionName) (value? : Option String) :
    Except UsageError Progress :=
  match progress.settle with
  | .error error => .error error
  | .ok settled =>
    match value? with
    | none => .ok { settled with pending := .option name none }
    | some text =>
      match settled.values.set name text with
      | .ok values => .ok { settled with values }
      | .error error => .error error

def path (progress : Progress) (text : String) : Except UsageError Progress :=
  match progress.pending with
  | .paths paths => .ok { progress with pending := .paths (paths ++ [text]) }
  | _ =>
    match progress.settle with
    | .ok settled => .ok { settled with pending := .paths [text] }
    | .error error => .error error

/-- Reads the request for help, which ends everything. -/
def help (progress : Progress) : UsageError :=
  match progress.settle with
  | .ok _ => .help
  | .error error => error

end Progress

/-- The words that are commands before any command was read. -/
def commandNames : List String := ["scan", "signatures", "help"]

/-- What is asked for when a level's arguments have ended. -/
def finish (level : Level) (progress : Progress) : Except UsageError Invocation :=
  match progress.settle with
  | .error error => .error error
  | .ok settled =>
    match level with
    | .top =>
      if settled.values = .none then .error .nothingGiven else .error .missingCommand
    | .signatures => .ok ⟨.signatures, settled.values⟩
    | .scan =>
      if settled.paths.isEmpty then .error .missingPath
      else .ok ⟨.scan settled.paths, settled.values⟩

/-- Puts the options of the top level around what is asked for behind it. -/
def enclose (progress : Progress) (inner : Invocation) : Except UsageError Invocation :=
  match progress.settle with
  | .ok settled => .ok { inner with values := inner.values.within settled.values }
  | .error error => .error error

/-- What the words behind the command `help` ask for: they have to name commands
within commands, of which there are none but the first. -/
def helpOn : List String → UsageError
  | [] => .help
  | [command] => if commandNames.contains command then .help else .unknownCommand
  | _ => .unknownCommand

def word (level : Level) (progress : Progress) (text : String) : Except UsageError Progress :=
  match level with
  | .top => .error .unknownCommand
  | .signatures => .error .unknownArgument
  | .scan => progress.path text

/-- Reads the arguments behind two dashes. -/
def trailing (level : Level) (progress : Progress) : List String → Except UsageError Invocation
  | [] => finish level progress
  | text :: rest =>
    if level = .top ∧ commandNames.contains text then .error .unknownArgument
    else
      match word level progress text with
      | .ok progress => trailing level progress rest
      | .error error => .error error

def read (level : Level) (progress : Progress) : List String → Except UsageError Invocation
  | [] => finish level progress
  | argument :: rest =>
    let onward (next : Except UsageError Progress) : Except UsageError Invocation :=
      match next with
      | .ok progress => read level progress rest
      | .error error => .error error
    let inside (command : Level) : Except UsageError Invocation :=
      match read command .start rest with
      | .ok inner => enclose progress inner
      | .error error => .error error
    -- Where an option waits for its value, the name of a command is that value.
    if level = .top && !progress.awaitsValue && argument = "scan" then inside .scan
    else if level = .top && !progress.awaitsValue && argument = "signatures" then
      inside .signatures
    else if level = .top && !progress.awaitsValue && argument = "help" then .error (helpOn rest)
    else
      match Shape.of argument with
      | .separator => trailing level progress rest
      | .long name value? =>
        match OptionName.ofLong? name with
        | some option => onward (progress.option option value?)
        | none =>
          if name = "help" then
            .error (if value?.isSome then .unexpectedValue else progress.help)
          else .error .unknownArgument
      | .short letter attached =>
        match OptionName.ofShort? letter with
        | some option => onward (progress.option option (attachedValue? attached))
        | none => .error (if letter = 'h' then progress.help else .unknownArgument)
      | .word text =>
        match progress.pending with
        | .option name none => onward (.ok { progress with pending := .option name (some text) })
        | _ => onward (word level progress text)

/-- What a command line asks for, the program's own name in front of it. -/
def parse (arguments : List String) : Except UsageError Invocation :=
  read .top .start arguments.tail

end Arguments

end ClassWarden
