import ClassWarden.Bytecode
import ClassWarden.ConstantPool
import ClassWarden.Text.Json

/-!
# Symbolic instructions

For comparison with a signature an instruction is reduced to its opcode and to
operands that mean the same in every class file: a pushed byte as a number, a
pool reference as the texts behind it.  Only a few opcodes are reduced.  The
others keep their place in the stream as unresolved entries, which no
signature ever matches.
-/

namespace ClassWarden

inductive Operand where
  | number (value : Int)
  | text (value : String)
  deriving DecidableEq, Repr

inductive SymbolicInstruction where
  | resolved (opcode : Opcode) (operands : List Operand)
  /-- An instruction of an opcode that is not reduced, and why. -/
  | unresolved (reason : String)
  deriving DecidableEq, Repr

/-- What becomes of the operands of an opcode. -/
inductive Reduction where
  /-- They are dropped. -/
  | bare
  /-- The first byte is a number from 0 to 255. -/
  | immediate
  /-- The first two bytes are a pool index. -/
  | reference
  deriving DecidableEq, Repr

/-- The reduction of an opcode, if it has one. -/
def Opcode.reduction? (opcode : Opcode) : Option Reduction :=
  if opcode ∈ [.new, .invokespecial, .invokestatic, .invokevirtual] then some .reference
  else if opcode = .bipush then some .immediate
  else if opcode ∈ [.bastore, .dup, .iconst 1, .iconst 2, .iconst 3, .iconst 4, .iconst 5] then
    some .bare
  else none

namespace Operand

def display : Operand → String
  | number value => toString value
  | text value => value

def toJson : Operand → Json
  | number value => .number value
  | text value => .text value

end Operand

namespace SymbolicInstruction

def opcode? : SymbolicInstruction → Option Opcode
  | resolved opcode _ => some opcode
  | unresolved _ => none

def operands : SymbolicInstruction → List Operand
  | resolved _ operands => operands
  | unresolved _ => []

def isResolved (instruction : SymbolicInstruction) : Bool :=
  instruction.opcode?.isSome

/-- Number of items the instruction is written with: its opcode and operands,
or a marker and the reason. -/
def size : SymbolicInstruction → Nat
  | resolved _ operands => 1 + operands.length
  | unresolved _ => 2

/-- The instruction on one line. -/
def display : SymbolicInstruction → String
  | resolved opcode operands =>
    " ".intercalate (opcode.display :: operands.map Operand.display)
  | unresolved reason => "<" ++ reason ++ ">"

def toJson : SymbolicInstruction → Json
  | resolved opcode operands => .array (.text opcode.display :: operands.map Operand.toJson)
  | unresolved reason => .array [.text "UNRESOLVED", .text reason]

/-- Operands of an instruction under a reduction.  Operand bytes that are
missing leave none. -/
def reducedOperands (pool : ConstantPool) : Reduction → List UInt8 → List Operand
  | .bare, _ => []
  | .immediate, value :: _ => [.number value.toNat]
  | .immediate, [] => []
  | .reference, high :: low :: _ =>
    (pool.resolve (UInt16.ofNat (BigEndian.toNat [high, low]))).map .text
  | .reference, _ => []

/-- The symbolic form of an instruction of a class with this pool. -/
def ofInstruction (pool : ConstantPool) (instruction : Instruction) : SymbolicInstruction :=
  match instruction.opcode.reduction? with
  | some reduction =>
    .resolved instruction.opcode (reducedOperands pool reduction instruction.operands)
  | none => .unresolved ("No resolver for opcode " ++ instruction.opcode.display)

/-- The symbolic form of a method body, instruction by instruction. -/
def stream (pool : ConstantPool) (instructions : List Instruction) : List SymbolicInstruction :=
  instructions.map (ofInstruction pool)

end SymbolicInstruction

end ClassWarden
