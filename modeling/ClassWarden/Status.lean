/-!
# Scan statuses

Three statuses lead up to a verdict and three are verdicts.  Verdicts are
ranked from best to worst; an archive takes the worst verdict of its entries.
-/

namespace ClassWarden

/-- Verdicts from best to worst. -/
inductive Rank where
  | clean
  | error
  | infected
  deriving DecidableEq, Repr

namespace Rank

def level : Rank → Nat
  | clean => 0
  | error => 1
  | infected => 2

def display : Rank → String
  | clean => "clean"
  | error => "error"
  | infected => "infected"

/-- The worse of two verdicts. -/
def worse (left right : Rank) : Rank :=
  if left.level ≤ right.level then right else left

/-- The worse of two verdicts, where a verdict that is still open yields to any
other. -/
def combine : Option Rank → Option Rank → Option Rank
  | none, right => right
  | left, none => left
  | some left, some right => some (left.worse right)

/-- The worst of any number of verdicts; open if all of them are. -/
def worst (ranks : List (Option Rank)) : Option Rank :=
  ranks.foldl combine none

end Rank

inductive Status where
  | added
  | loading
  | scanning
  | clean
  | infected
  | error
  deriving DecidableEq, Repr

namespace Status

/-- Every status, from the first one of a scan on. -/
def all : List Status := [added, loading, scanning, clean, infected, error]

/-- The verdict, if the status is one. -/
def rank? : Status → Option Rank
  | added | loading | scanning => none
  | clean => some .clean
  | infected => some .infected
  | error => some .error

def isTerminal (status : Status) : Bool :=
  status.rank?.isSome

def display : Status → String
  | added => "added"
  | loading => "loading"
  | scanning => "scanning"
  | clean => "clean"
  | infected => "infected"
  | error => "error"

end Status

end ClassWarden
