import ClassWarden.SymbolicInstruction

/-!
# Signatures

A signature is a pattern of symbolic instructions together with the scope it
is compared in.  What the scope leaves out is invisible to the comparison;
unresolved instructions are outside every scope.
-/

namespace ClassWarden

/-- The opcodes a signature looks at. -/
inductive Scope where
  | all
  /-- The listed ones, in byte order and each once. -/
  | only (opcodes : List Opcode)
  deriving DecidableEq, Repr

namespace Scope

/-- Puts an opcode in its place among others in byte order, unless it is there. -/
def insert (opcode : Opcode) : List Opcode → List Opcode
  | [] => [opcode]
  | head :: rest =>
    if opcode.byte < head.byte then opcode :: head :: rest
    else if opcode = head then head :: rest
    else head :: insert opcode rest

/-- The scope of exactly these opcodes, given in any order. -/
def ofOpcodes (opcodes : List Opcode) : Scope :=
  .only (opcodes.foldr insert [])

/-- Whether an instruction is visible. -/
def admits (scope : Scope) (instruction : SymbolicInstruction) : Bool :=
  match scope, instruction.opcode? with
  | _, none => false
  | .all, some _ => true
  | .only opcodes, some opcode => opcodes.contains opcode

/-- The visible part of a stream. -/
def view (scope : Scope) (stream : List SymbolicInstruction) : List SymbolicInstruction :=
  stream.filter scope.admits

def display : Scope → String
  | all => "all"
  | only opcodes => ",".intercalate (opcodes.map Opcode.display)

def toJson : Scope → Json
  | all => .text "unrestricted"
  | only opcodes =>
    .object [("restricted", .array (opcodes.map fun opcode => .text opcode.display))]

end Scope

structure Signature where
  name : String
  description : String
  pattern : List SymbolicInstruction
  scope : Scope
  deriving DecidableEq, Repr

namespace Signature

/-- A signature that looks at the opcodes of its own pattern only. -/
def narrow (name description : String) (pattern : List SymbolicInstruction) : Signature :=
  { name, description, pattern
    scope := .ofOpcodes (pattern.filterMap SymbolicInstruction.opcode?) }

/-- A signature that looks at every resolved instruction. -/
def wide (name description : String) (pattern : List SymbolicInstruction) : Signature :=
  { name, description, pattern, scope := .all }

def size (signature : Signature) : Nat := signature.pattern.length

def toJson (signature : Signature) : Json :=
  .object
    [("name", .text signature.name),
     ("description", .text signature.description),
     ("pattern", .array (signature.pattern.map SymbolicInstruction.toJson)),
     ("restriction", signature.scope.toJson)]

end Signature

end ClassWarden
