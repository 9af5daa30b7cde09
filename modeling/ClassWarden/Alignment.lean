import ClassWarden.SymbolicInstruction

/-!
# Alignment of a pattern with code

A pattern is laid along the visible instructions of a method from some start.
Each pattern position takes the first instruction, at or after the place that
is next, with the position's opcode; what lies between is skipped.  A position
that finds none, or finds one with other operands, costs one mismatch.

A position gives up once it has skipped as many instructions as the limit
allows, and the next place then moves on by one only.  It also gives up where
the code ends, and then nothing is left for the positions after it.
-/

namespace ClassWarden.Alignment

inductive Probe where
  /-- An instruction with the right opcode, and what follows it. -/
  | found (instruction : SymbolicInstruction) (following : List SymbolicInstruction)
  /-- The limit came first. -/
  | limited
  /-- The end of the code came first. -/
  | exhausted
  deriving DecidableEq, Repr

def spend : Option Nat → Option Nat
  | none => none
  | some allowed => some (allowed - 1)

/-- The next instruction with the wanted opcode, after at most `limit` others. -/
def seek (wanted : Option Opcode) : Option Nat → List SymbolicInstruction → Probe
  | _, [] => .exhausted
  | limit, candidate :: following =>
    if candidate.opcode? = wanted then .found candidate following
    else if limit = some 0 then .limited
    else seek wanted (spend limit) following

/-- What one pattern position leaves to the next one. -/
def afterProbe (code : List SymbolicInstruction) : Probe → List SymbolicInstruction
  | .found _ following => following
  -- However far the search went, the next position starts one instruction later.
  | .limited => code.tail
  | .exhausted => []

def agrees (expected : SymbolicInstruction) : Probe → Bool
  | .found instruction _ => instruction.operands == expected.operands
  | _ => false

/-- Mismatches of a pattern laid along code from its front. -/
def cost (limit : Option Nat) : List SymbolicInstruction → List SymbolicInstruction → Nat
  | [], _ => 0
  | expected :: pattern, code =>
    let probe := seek expected.opcode? limit code
    (if agrees expected probe then 0 else 1) + cost limit pattern (afterProbe code probe)

/-- The same number, given up as soon as it exceeds `tolerance`. -/
def costWithin (limit : Option Nat) : Nat → List SymbolicInstruction →
    List SymbolicInstruction → Option Nat
  | _, [], _ => some 0
  | tolerance, expected :: pattern, code =>
    let probe := seek expected.opcode? limit code
    let code := afterProbe code probe
    if agrees expected probe then costWithin limit tolerance pattern code
    else
      match tolerance with
      | 0 => none
      | tolerance + 1 => (costWithin limit tolerance pattern code).map (· + 1)

end ClassWarden.Alignment
