import ClassWarden.Alignment
import ClassWarden.Signature

/-!
# Matching signatures in a method

A signature is tried at every start in its view of the method, first to last,
and the first start whose cost is tolerated is reported.  A start is tried only
while the view behind it is longer than the pattern.
-/

namespace ClassWarden

structure MatchOptions where
  /-- Mismatches that a match may have. -/
  maxDistance : Nat
  /-- Instructions that one pattern position may skip; no limit if `none`. -/
  maxSkip : Option Nat
  deriving DecidableEq, Repr

namespace MatchOptions

/-- One mismatch, and at most 512 instructions skipped at a time. -/
def standard : MatchOptions := ⟨1, some 512⟩

end MatchOptions

/-- A signature seen in a method. -/
structure Finding where
  method : String
  signature : String
  /-- Start of the match, counted in the signature's view of the method. -/
  offset : Nat
  /-- Mismatches of the match. -/
  distance : Nat
  deriving DecidableEq, Repr

namespace Finding

def display (finding : Finding) : String :=
  s!"{finding.signature} in {finding.method} at {finding.offset} (distance {finding.distance})"

def toJson (finding : Finding) : Json :=
  .object
    [("method", .text finding.method),
     ("signature", .text finding.signature),
     ("offset", .number finding.offset),
     ("distance", .number finding.distance)]

end Finding

namespace Matching

/-- The first of `starts` starts at which the pattern's cost is tolerated, with
that cost.  The code given is the part from start `offset` on. -/
def firstStart (options : MatchOptions) (pattern : List SymbolicInstruction) :
    Nat → Nat → List SymbolicInstruction → Option (Nat × Nat)
  | 0, _, _ => none
  | starts + 1, offset, code =>
    match Alignment.costWithin options.maxSkip options.maxDistance pattern code with
    | some distance => some (offset, distance)
    | none => firstStart options pattern starts (offset + 1) code.tail

/-- Start and cost of a signature's first match in a stream.  A stream that is
shorter than the pattern is not looked at. -/
def locate (options : MatchOptions) (signature : Signature) (stream : List SymbolicInstruction) :
    Option (Nat × Nat) :=
  let pattern := signature.pattern
  if stream.length < pattern.length then none
  else
    let view := signature.scope.view stream
    if view.length < pattern.length then none
    -- The start behind which just as much is left as the pattern is long is not tried.
    else firstStart options pattern (view.length - pattern.length) 0 view

def findSignature (options : MatchOptions) (method : String) (stream : List SymbolicInstruction)
    (signature : Signature) : Option Finding :=
  (locate options signature stream).map fun (offset, distance) =>
    ⟨method, signature.name, offset, distance⟩

def scanMethod (options : MatchOptions) (signatures : List Signature) (method : String)
    (stream : List SymbolicInstruction) : List Finding :=
  signatures.filterMap (findSignature options method stream)

end Matching

end ClassWarden
