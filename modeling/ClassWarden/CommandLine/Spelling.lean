import ClassWarden.CommandLine.Arguments

/-!
# Written command lines

The ways to write an option with its value, and the command lines made of such
options and of paths, with the command `scan` or without it.
-/

namespace ClassWarden

namespace OptionName

def longName : OptionName → String
  | maxDistance => "max-distance"
  | maxSkip => "max-skip"
  | threads => "threads"
  | format => "format"
  | output => "output"

def letter? : OptionName → Option Char
  | format => some 'f'
  | output => some 'o'
  | _ => none

/-- Texts that are values of the option. -/
def Admits : OptionName → String → Prop
  | maxDistance, text | maxSkip, text | threads, text => ∃ value, Count.parse text = .ok value
  | format, text => text = "json" ∨ text = "text"
  | output, text => text ≠ ""

end OptionName

namespace OptionValues

/-- The option has the value that a text stands for. -/
def Holds (values : OptionValues) : OptionName → String → Prop
  | .maxDistance, text => ∃ value, Count.parse text = .ok value ∧ values.maxDistance = some value
  | .maxSkip, text => ∃ value, Count.parse text = .ok value ∧ values.maxSkip = some value
  | .threads, text => ∃ value, Count.parse text = .ok value ∧ values.threads = some value
  | .format, text =>
    text = "json" ∧ values.format = some .json ∨ text = "text" ∧ values.format = some .text
  | .output, text => values.output = some text

/-- The option has the same value on both sides, or no value on either. -/
def SameAt (left right : OptionValues) : OptionName → Prop
  | .maxDistance => left.maxDistance = right.maxDistance
  | .maxSkip => left.maxSkip = right.maxSkip
  | .threads => left.threads = right.threads
  | .format => left.format = right.format
  | .output => left.output = right.output

end OptionValues

/-- Whether an argument is read as a word: it does not begin with a dash, unless it
is nothing else. -/
def IsWord (text : String) : Prop :=
  text = "-" ∨ text.toList.head? ≠ some '-'

/-- The arguments that an option and its value can be written as.  An argument of
its own for the value has to be a word.  A value that follows the letter directly
cannot begin with an equals sign, which would not count as part of it. -/
inductive Spelled : OptionName → String → List String → Prop where
  | separate {name : OptionName} {text : String} (hword : IsWord text) :
      Spelled name text ["--" ++ name.longName, text]
  | joined {name : OptionName} {text : String} :
      Spelled name text ["--" ++ name.longName ++ "=" ++ text]
  | letter {name : OptionName} {text : String} {letter : Char}
      (hletter : name.letter? = some letter) (hword : IsWord text) :
      Spelled name text ["-" ++ letter.toString, text]
  | letterAttached {name : OptionName} {text : String} {letter : Char}
      (hletter : name.letter? = some letter) (hne : text ≠ "")
      (hstart : text.toList.head? ≠ some '=') :
      Spelled name text ["-" ++ letter.toString ++ text]
  | letterJoined {name : OptionName} {text : String} {letter : Char}
      (hletter : name.letter? = some letter) :
      Spelled name text ["-" ++ letter.toString ++ "=" ++ text]

/-- An option as it is given on a command line, with a value that it takes. -/
structure GivenOption where
  name : OptionName
  text : String
  arguments : List String
  admits : name.Admits text
  spelled : Spelled name text arguments

/-- The values are those of the given options, and no others. -/
structure OptionValues.Gathers (values : OptionValues) (options : List GivenOption) : Prop where
  holds : ∀ option ∈ options, values.Holds option.name option.text
  lacks : ∀ name, name ∉ options.map GivenOption.name → values.SameAt .none name

/-- A command line of options and paths.  Two dashes may separate the paths from
the options, and have to if one of the paths begins with a dash. -/
structure PathLine where
  program : String
  options : List GivenOption
  options_nodup : (options.map GivenOption.name).Nodup
  separated : Bool
  first : String
  later : List String
  first_not_command : first ∉ Arguments.commandNames
  paths_ne_empty : ∀ path ∈ first :: later, path ≠ ""
  separated_or_plain : separated = true ∨ ∀ path ∈ first :: later, path.toList.head? ≠ some '-'

namespace PathLine

variable (line : PathLine)

def paths : List String := line.first :: line.later

def given : List String := line.options.flatMap GivenOption.arguments

/-- The paths with what separates them from the options. -/
def rest : List String := if line.separated then "--" :: line.paths else line.paths

def bare : List String := line.program :: (line.given ++ line.rest)

/-- The line with the command, in front of the separator. -/
def explicit : List String := line.program :: (line.given ++ "scan" :: line.rest)

end PathLine

end ClassWarden
