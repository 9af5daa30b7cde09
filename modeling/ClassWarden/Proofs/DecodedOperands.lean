import ClassWarden.Proofs.Decoding
import ClassWarden.Proofs.Forks

/-!
# Operands of decoded instructions

How many operand bytes an opcode has and how many of them its symbolic form reads are
settled in two tables that do not know of each other.  They agree: an opcode that is
reduced has a fixed width, which is exactly what its reduction reads.  A decoded
instruction therefore never lacks operand bytes, wherever it stands in the method.
-/

namespace ClassWarden

def Reduction.width : Reduction → Nat
  | bare => 0
  | immediate => 1
  | reference => 2

namespace Opcode

/-- The opcodes that are compared by a pool reference. -/
def pooled : List Opcode := [.new, .invokespecial, .invokestatic, .invokevirtual]

theorem reduction?_of_mem_pooled {opcode : Opcode} (hpooled : opcode ∈ pooled) :
    opcode.reduction? = some .reference :=
  if_pos hpooled

end Opcode

namespace Bytecode

variable {pc : Nat} {opcode : Opcode} {operands code : List UInt8} {reduction : Reduction}
variable {instruction : Instruction} {instructions : List Instruction}

/-- The two tables agree. -/
theorem fixedWidth_of_reduction? (hreduction : opcode.reduction? = some reduction) :
    opcode ∉ variableOpcodes ∧ fixedWidth opcode = reduction.width := by
  have hpooled : ∀ opcode ∈ [Opcode.new, .invokespecial, .invokestatic, .invokevirtual],
      opcode ∉ variableOpcodes ∧ fixedWidth opcode = 2 := by
    decide
  have hbare : ∀ opcode ∈ [Opcode.bastore, .dup, .iconst 1, .iconst 2, .iconst 3, .iconst 4,
      .iconst 5], opcode ∉ variableOpcodes ∧ fixedWidth opcode = 0 := by
    decide
  unfold Opcode.reduction? at hreduction
  split at hreduction
  case isTrue hmem =>
    cases hreduction
    exact hpooled opcode hmem
  case isFalse =>
    split at hreduction
    case isTrue hbipush =>
      cases hreduction
      rw [hbipush]
      decide
    case isFalse =>
      split at hreduction
      case isTrue hmem =>
        cases hreduction
        exact hbare opcode hmem
      case isFalse => cases hreduction

theorem Operands.length_of_reduction? (hoperands : Operands pc opcode operands)
    (hreduction : opcode.reduction? = some reduction) : operands.length = reduction.width := by
  obtain ⟨hfixed, hwidth⟩ := fixedWidth_of_reduction? hreduction
  have hsettled := hoperands.operandWidth?_append []
  rw [operandWidth?_of_not_mem hfixed, hwidth] at hsettled
  exact (Option.some.inj hsettled).symm

theorem Operands.exists_pair (hoperands : Operands pc opcode operands)
    (hpooled : opcode ∈ Opcode.pooled) : ∃ high low, operands = [high, low] :=
  List.length_eq_two.mp (hoperands.length_of_reduction? (Opcode.reduction?_of_mem_pooled hpooled))

theorem Operands.exists_singleton (hoperands : Operands pc opcode operands)
    (hpush : opcode = .bipush) : ∃ byte, operands = [byte] := by
  have hreduction : opcode.reduction? = some .immediate := by
    rw [hpush]
    rfl
  exact List.length_eq_one_iff.mp (hoperands.length_of_reduction? hreduction)

theorem operands_of_mem_decode (hdecode : decode code = .ok instructions)
    (hmem : instruction ∈ instructions) :
    Operands instruction.pc instruction.opcode instruction.operands := by
  obtain ⟨earlier, later, hsplit⟩ := List.append_of_mem hmem
  exact ((decodeFrom_eq_ok_iff.mp hdecode).2 earlier instruction later hsplit).2

end Bytecode

theorem ConstantPool.resolve_ne_nil (pool : ConstantPool) (index : UInt16) :
    pool.resolve index ≠ [] := by
  apply List.ne_nil_of_length_pos
  rw [resolve, length_resolveWithin]
  exact Nat.succ_pos _

theorem BigEndian.toNat_ofNat_pair (high low : UInt8) :
    (UInt16.ofNat (BigEndian.toNat [high, low])).toNat = 256 * high.toNat + low.toNat := by
  have hvalue : BigEndian.toNat [high, low] = 256 * high.toNat + low.toNat := by
    simp [BigEndian.toNat]
  have hbound : 256 * high.toNat + low.toNat < 2 ^ 16 := by
    have hhigh := high.toNat_lt
    have hlow := low.toNat_lt
    omega
  rw [hvalue, UInt16.toNat_ofNat_of_lt' hbound]

namespace SymbolicInstruction

open Bytecode

variable {code : List UInt8} {instruction : Instruction} {instructions : List Instruction}
variable {high low byte : UInt8} {opcode : Opcode} {operands : List Operand}
variable {pool : ConstantPool}

theorem ofInstruction_of_mem_pooled (hopcode : instruction.opcode ∈ Opcode.pooled)
    (hbytes : instruction.operands = [high, low]) (pool : ConstantPool) :
    ofInstruction pool instruction = .resolved instruction.opcode
      ((pool.resolve (.ofNat (BigEndian.toNat [high, low]))).map .text) := by
  apply Instruction.ofInstruction_of_poolIndex?_eq_some
  exact Instruction.poolIndex?_eq_some_iff.mpr
    ⟨Opcode.reduction?_of_mem_pooled hopcode, high, low, [], hbytes, rfl⟩

theorem ofInstruction_of_bipush (hopcode : instruction.opcode = .bipush)
    (hbytes : instruction.operands = [byte]) (pool : ConstantPool) :
    ofInstruction pool instruction = .resolved .bipush [.number byte.toNat] := by
  rw [ofInstruction, hopcode, hbytes]
  rfl

theorem opcode_eq_of_ofInstruction
    (hform : ofInstruction pool instruction = .resolved opcode operands) :
    instruction.opcode = opcode := by
  rw [ofInstruction] at hform
  split at hform
  case h_1 => exact (resolved.inj hform).1
  case h_2 => cases hform

/-- The symbolic form of a decoded instruction has every operand that its opcode calls
for.  Opcodes with a pool reference have two operand bytes and stand with the texts of
that index, of which there is always one; a pushed byte is one number.  So no such opcode
ever stands alone, whatever the pool holds. -/
theorem operands_of_decoded (hdecode : decode code = .ok instructions)
    (hmem : instruction ∈ instructions) (pool : ConstantPool) :
    (instruction.opcode ∈ Opcode.pooled → ∃ high low, instruction.operands = [high, low] ∧
      ∃ index : UInt16, index.toNat = 256 * high.toNat + low.toNat ∧
        pool.resolve index ≠ [] ∧ ofInstruction pool instruction =
          .resolved instruction.opcode ((pool.resolve index).map .text)) ∧
      (instruction.opcode = .bipush → ∃ byte, instruction.operands = [byte] ∧
        ∃ number : Int, number = byte.toNat ∧ 0 ≤ number ∧ number ≤ 255 ∧
          ofInstruction pool instruction = .resolved .bipush [.number number]) ∧
      ∀ opcode ∈ Opcode.bipush :: Opcode.pooled,
        ofInstruction pool instruction ≠ .resolved opcode [] := by
  have hoperands := operands_of_mem_decode hdecode hmem
  refine ⟨?_, ?_, ?_⟩
  · intro hopcode
    obtain ⟨high, low, hbytes⟩ := hoperands.exists_pair hopcode
    exact ⟨high, low, hbytes, _, BigEndian.toNat_ofNat_pair high low, pool.resolve_ne_nil _,
      ofInstruction_of_mem_pooled hopcode hbytes pool⟩
  · intro hopcode
    obtain ⟨byte, hbytes⟩ := hoperands.exists_singleton hopcode
    have hbound := byte.toNat_lt
    exact ⟨byte, hbytes, _, rfl, by omega, by omega, ofInstruction_of_bipush hopcode hbytes pool⟩
  · intro opcode hopcode halone
    obtain rfl := opcode_eq_of_ofInstruction halone
    rcases List.mem_cons.mp hopcode with hpush | hpooled
    · obtain ⟨byte, hbytes⟩ := hoperands.exists_singleton hpush
      have hform := ofInstruction_of_bipush hpush hbytes pool
      exact List.cons_ne_nil _ _ (resolved.inj (hform.symm.trans halone)).2
    · obtain ⟨high, low, hbytes⟩ := hoperands.exists_pair hpooled
      have hform := ofInstruction_of_mem_pooled hpooled hbytes pool
      have hnone := (resolved.inj (hform.symm.trans halone)).2
      exact pool.resolve_ne_nil _ (List.map_eq_nil_iff.mp hnone)

/-- A switch with padding, a call and a push. -/
def switchCallPush : List UInt8 :=
  [0x03, 0xaa, 0, 0, 0, 0, 0, 27, 0, 0, 0, 7, 0, 0, 0, 7, 0, 0, 0, 27, 0xb8, 0, 1, 0x10, 0xff]

/-- The call goes to an entry that refers to itself. -/
theorem operands_of_decoded_switchCallPush :
    let pool : ConstantPool := .ofConstants [.classRef 1]
    let call : Instruction := ⟨20, .invokestatic, [0, 1]⟩
    let push : Instruction := ⟨23, .bipush, [0xff]⟩
    let instructions := [⟨0, ⟨0x03⟩, []⟩, ⟨1, .tableswitch, (switchCallPush.drop 2).take 18⟩,
      call, push]
    decode switchCallPush = .ok instructions ∧ call ∈ instructions ∧ push ∈ instructions ∧
      ofInstruction pool call = .resolved .invokestatic [.text (ConstantPool.tooDeepText 1)] ∧
      (∃ number : Int, 0 ≤ number ∧ number ≤ 255 ∧
        ofInstruction pool push = .resolved .bipush [.number number]) ∧
      ofInstruction pool push ≠ .resolved .bipush [] := by
  intro pool call push instructions
  have hdecode : decode switchCallPush = .ok instructions := by
    decide +kernel
  have hcall : call ∈ instructions := by
    simp [instructions]
  have hpush : push ∈ instructions := by
    simp [instructions]
  obtain ⟨hpooled, -, -⟩ := operands_of_decoded hdecode hcall pool
  obtain ⟨high, low, hbytes, index, hindex, -, hform⟩ := hpooled (by decide)
  cases hbytes
  obtain rfl : index = 1 := UInt16.toNat_inj.mp hindex
  obtain ⟨-, hbipush, halone⟩ := operands_of_decoded hdecode hpush pool
  obtain ⟨byte, -, number, -, hlow, hhigh, hnumber⟩ := hbipush rfl
  refine ⟨hdecode, hcall, hpush, ?_, ⟨number, hlow, hhigh, hnumber⟩, halone .bipush (by simp)⟩
  rw [hform]
  rfl

end SymbolicInstruction

end ClassWarden
