import ClassWarden.Binary.BigEndian
import ClassWarden.DecodeError
import ClassWarden.Opcode

/-!
# Method bodies

A method body is a gapless sequence of instructions, each an opcode and its
operand bytes.  Decoding splits the body and keeps every byte: operands stay
raw, switch padding included.

For most opcodes the number of operand bytes is fixed.  It depends on the next
byte after `wide`, and for the two switches on the position of the instruction
and on signed fields inside it.
-/

namespace ClassWarden

/-- One instruction of a method body, `pc` bytes after the body's start. -/
structure Instruction where
  pc : Nat
  opcode : Opcode
  operands : List UInt8
  deriving DecidableEq, Repr

namespace Bytecode

set_option maxRecDepth 4096

def fixedWidth (opcode : Opcode) : Nat :=
  let byte := opcode.byte.toNat
  if byte ∈ [0x10, 0x12, 0xa9, 0xbc] ∨ (0x15 ≤ byte ∧ byte ≤ 0x19) ∨
      (0x36 ≤ byte ∧ byte ≤ 0x3a) then 1
  else if byte ∈ [0x11, 0x13, 0x14, 0x84, 0xbb, 0xbd, 0xc0, 0xc1, 0xc6, 0xc7] ∨
      (0x99 ≤ byte ∧ byte ≤ 0xa8) ∨ (0xb2 ≤ byte ∧ byte ≤ 0xb8) then 2
  else if byte = 0xc5 then 3
  else if byte ∈ [0xb9, 0xba, 0xc8, 0xc9] then 4
  else 0

/-- Bytes between a switch opcode and the next multiple of four from the
method start. -/
def switchPadding (pc : Nat) : Nat :=
  (4 - (pc + 1) % 4) % 4

/-- Operand bytes of the instruction at `pc`, read off the bytes that follow
its opcode: `none` if those do not settle it or contradict themselves. -/
def operandWidth? (pc : Nat) (opcode : Opcode) (following : List UInt8) : Option Nat :=
  if opcode = .wide then
    following.head?.map fun byte => if (⟨byte⟩ : Opcode) = .iinc then 5 else 3
  else if opcode = .tableswitch then
    let padding := switchPadding pc
    -- The default target comes first; the width does not depend on it.
    match BigEndian.int32? (following.drop (padding + 4)),
        BigEndian.int32? (following.drop (padding + 8)) with
    | some low, some high =>
      if high < low then none else some (padding + 12 + 4 * (high - low + 1).toNat)
    | _, _ => none
  else if opcode = .lookupswitch then
    let padding := switchPadding pc
    match BigEndian.int32? (following.drop (padding + 4)) with
    | some pairs => if pairs < 0 then none else some (padding + 8 + 8 * pairs.toNat)
    | none => none
  else some (fixedWidth opcode)

def instructionAt (pc : Nat) (opcode : Opcode) (following : List UInt8) :
    Except DecodeError Instruction :=
  match opcode.mnemonic? with
  | none => .error (.undefinedOpcode opcode.byte pc)
  | some mnemonic =>
    match operandWidth? pc opcode following with
    | none => .error (.malformed mnemonic pc)
    | some width =>
      let operands := following.take width
      if operands.length = width then .ok ⟨pc, opcode, operands⟩
      else .error (.malformed mnemonic pc)

def decodeFrom (pc : Nat) : List UInt8 → Except DecodeError (List Instruction)
  | [] => .ok []
  | byte :: following =>
    match instructionAt pc ⟨byte⟩ following with
    | .error failure => .error failure
    | .ok instruction =>
      let width := instruction.operands.length
      match decodeFrom (pc + 1 + width) (following.drop width) with
      | .error failure => .error failure
      | .ok later => .ok (instruction :: later)
termination_by code => code.length
decreasing_by
  rw [List.length_drop, List.length_cons]
  omega

/-- Splits a method body into its instructions, with every byte in one of them. -/
def decode (code : List UInt8) : Except DecodeError (List Instruction) :=
  decodeFrom 0 code

end Bytecode

end ClassWarden
