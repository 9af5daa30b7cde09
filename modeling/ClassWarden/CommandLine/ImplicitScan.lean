import ClassWarden.CommandLine.Arguments

/-!
# Scans without the command

A command line may leave out the word `scan`.  It is put in front of the first
argument that can be neither an option nor the value of one, unless that is a
command.  Behind two dashes the very next argument counts.
-/

namespace ClassWarden.ImplicitScan

/-- Options whose value is the next argument. -/
def valueOptions : List String :=
  ["--max-distance", "--max-skip", "--threads", "-f", "--format", "-o", "--output"]

/-- Puts the command in front, unless there is one or nothing to put it before. -/
def atFront : List String → List String
  | [] => []
  | word :: rest =>
    if Arguments.commandNames.contains word then word :: rest else "scan" :: word :: rest

def insert : List String → List String
  | [] => []
  | argument :: rest =>
    if argument = "--" then argument :: atFront rest
    else if valueOptions.contains argument then
      match rest with
      | [] => [argument]
      | value :: rest => argument :: value :: insert rest
    else if argument.toList.head? = some '-' then argument :: insert rest
    else atFront (argument :: rest)

/-- A command line with the command put in, the program's own name in front. -/
def complete : List String → List String
  | [] => []
  | program :: arguments => program :: insert arguments

end ClassWarden.ImplicitScan
