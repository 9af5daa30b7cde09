import ClassWarden.Proofs.BigEndian
import ClassWarden.SymbolicInstruction

/-!
# Instructions that refer to a pool

The symbolic form of an instruction depends on the pool only through one index, which its
first two operand bytes give if the opcode is compared by a pool reference.  The texts
behind it are the operands then.  Any other instruction has the same form with every pool,
with one operand at most.
-/

namespace ClassWarden

namespace Instruction

open SymbolicInstruction

variable {instruction : Instruction} {index value : UInt16}

/-- The pool index that an instruction is compared by, if it is compared by one. -/
def poolIndex? (instruction : Instruction) : Option UInt16 :=
  match instruction.opcode.reduction?, instruction.operands with
  | some .reference, high :: low :: _ => some (UInt16.ofNat (BigEndian.toNat [high, low]))
  | _, _ => none

theorem poolIndex?_eq_some_iff :
    instruction.poolIndex? = some index ↔
      instruction.opcode.reduction? = some .reference ∧ ∃ high low rest,
        instruction.operands = high :: low :: rest ∧
          index = UInt16.ofNat (BigEndian.toNat [high, low]) := by
  rw [poolIndex?]
  constructor
  · intro hindex
    split at hindex
    case h_1 high low rest hreduction hoperands =>
      exact ⟨hreduction, high, low, rest, hoperands, (Option.some.inj hindex).symm⟩
    case h_2 => cases hindex
  · rintro ⟨hreduction, high, low, rest, hoperands, rfl⟩
    rw [hreduction, hoperands]

theorem ofInstruction_of_poolIndex?_eq_some (hindex : instruction.poolIndex? = some index)
    (pool : ConstantPool) :
    ofInstruction pool instruction =
      .resolved instruction.opcode ((pool.resolve index).map .text) := by
  obtain ⟨hreduction, high, low, rest, hoperands, rfl⟩ := poolIndex?_eq_some_iff.mp hindex
  rw [ofInstruction, hreduction, hoperands]
  rfl

/-- Without a pool index, the operands are the same with every pool. -/
theorem exists_reducedOperands_eq {reduction : Reduction} (hnone : instruction.poolIndex? = none)
    (hreduction : instruction.opcode.reduction? = some reduction) :
    ∃ operands : List Operand, operands.length ≤ 1 ∧
      ∀ pool, reducedOperands pool reduction instruction.operands = operands := by
  cases reduction with
  | bare => exact ⟨[], Nat.zero_le 1, fun _ => rfl⟩
  | immediate =>
      cases instruction.operands with
      | nil => exact ⟨[], Nat.zero_le 1, fun _ => rfl⟩
      | cons value rest => exact ⟨[.number value.toNat], Nat.le_refl 1, fun _ => rfl⟩
  | reference =>
      rcases hoperands : instruction.operands with _ | ⟨high, _ | ⟨low, rest⟩⟩
      · exact ⟨[], Nat.zero_le 1, fun _ => rfl⟩
      · exact ⟨[], Nat.zero_le 1, fun _ => rfl⟩
      · have hindex := poolIndex?_eq_some_iff.mpr ⟨hreduction, high, low, rest, hoperands, rfl⟩
        rw [hnone] at hindex
        cases hindex

theorem exists_ofInstruction_eq (hnone : instruction.poolIndex? = none) :
    ∃ symbolic : SymbolicInstruction, symbolic.operands.length ≤ 1 ∧
      ∀ pool, ofInstruction pool instruction = symbolic := by
  cases hreduction : instruction.opcode.reduction? with
  | none =>
      refine ⟨.unresolved ("No resolver for opcode " ++ instruction.opcode.display),
        Nat.zero_le 1, ?_⟩
      intro pool
      rw [ofInstruction, hreduction]
  | some reduction =>
      obtain ⟨operands, hfew, hoperands⟩ := exists_reducedOperands_eq hnone hreduction
      refine ⟨.resolved instruction.opcode operands, hfew, ?_⟩
      intro pool
      rw [ofInstruction, hreduction]
      exact congrArg (resolved instruction.opcode) (hoperands pool)

/-- The index that is written over the first two operand bytes is the one that is read. -/
theorem poolIndex?_rewritten (hindex : instruction.poolIndex? = some index) (rest : List UInt8) :
    ({ instruction with operands := BigEndian.ofUInt16 value ++ rest } :
      Instruction).poolIndex? = some value := by
  apply poolIndex?_eq_some_iff.mpr
  exact ⟨(poolIndex?_eq_some_iff.mp hindex).1, _, _, rest, rfl,
    (BigEndian.ofNat_toNat_ofUInt16 value).symm⟩

end Instruction

end ClassWarden
