import ClassWarden.Proofs.Decoding

/-!
# Where decoding stops

Each instruction is settled by its own bytes and by the place where it stands.  A body is
therefore decoded front by front: what comes after an instruction neither changes it nor
moves it.  If decoding fails, the place in the failure is where the longest front ends
that decodes, and the byte at that place alone tells which of the two failures it is.
-/

namespace ClassWarden

/-- The place in a method body that a failure names. -/
def DecodeError.pc? : DecodeError → Option Nat
  | undefinedOpcode _ pc | malformed _ pc => some pc
  | unexpectedEnd _ _ | badMagic _ | unknownTag _ _ => none

namespace Bytecode

/-- The failure is about the byte at `pc`: reserved bytes stand for no instruction, and
of any other byte the failure names the mnemonic. -/
structure Blames (failure : DecodeError) (byte : UInt8) (pc : Nat) : Prop where
  undefined_iff : failure = .undefinedOpcode byte pc ↔ 0xca ≤ byte
  malformed : byte < 0xca → ∃ mnemonic,
    Opcode.mnemonic? ⟨byte⟩ = some mnemonic ∧ failure = .malformed mnemonic pc

variable {pc : Nat} {byte : UInt8} {front following back code : List UInt8}
variable {failure : DecodeError} {instruction : Instruction} {instructions : List Instruction}

theorem Blames.pc?_eq (hblames : Blames failure byte pc) : failure.pc? = some pc := by
  by_cases hassigned : byte < 0xca
  · obtain ⟨mnemonic, -, rfl⟩ := hblames.malformed hassigned
    rfl
  · rw [hblames.undefined_iff.mpr (UInt8.not_lt.mp hassigned)]
    rfl

theorem blames_of_reserved (hreserved : 0xca ≤ byte) :
    Blames (.undefinedOpcode byte pc) byte pc where
  undefined_iff := iff_of_true rfl hreserved
  malformed hassigned := absurd hreserved (UInt8.not_le.mpr hassigned)

theorem blames_of_mnemonic {mnemonic : String}
    (hmnemonic : Opcode.mnemonic? ⟨byte⟩ = some mnemonic) :
    Blames (.malformed mnemonic pc) byte pc where
  undefined_iff := by
    have hassigned : byte < 0xca := (isSome_mnemonic?_iff ⟨byte⟩).mp (by rw [hmnemonic]; rfl)
    exact iff_of_false nofun (UInt8.not_le.mpr hassigned)
  malformed _ := ⟨mnemonic, hmnemonic, rfl⟩

/-- An instruction that cannot be cut out is blamed on its opcode. -/
theorem blames_of_instructionAt (hcut : instructionAt pc ⟨byte⟩ following = .error failure) :
    Blames failure byte pc := by
  unfold instructionAt at hcut
  split at hcut
  case h_1 hnone =>
    cases hcut
    apply blames_of_reserved
    rw [← UInt8.not_lt, ← isSome_mnemonic?_iff ⟨byte⟩, hnone]
    exact Bool.false_ne_true
  case h_2 mnemonic hmnemonic =>
    split at hcut
    case h_1 =>
      cases hcut
      exact blames_of_mnemonic hmnemonic
    case h_2 =>
      dsimp only at hcut
      split at hcut
      case isTrue => cases hcut
      case isFalse =>
        cases hcut
        exact blames_of_mnemonic hmnemonic

/-! ## Decoding front by front -/

theorem decodeFrom_bytes_append
    (hoperands : Operands instruction.pc instruction.opcode instruction.operands)
    (rest : List UInt8) :
    decodeFrom instruction.pc (instruction.bytes ++ rest) =
      (decodeFrom (instruction.pc + 1 + instruction.operands.length) rest).map
        (instruction :: ·) := by
  have hcut : instructionAt instruction.pc ⟨instruction.opcode.byte⟩
      (instruction.operands ++ rest) = .ok instruction :=
    instructionAt_eq_ok_iff.mpr ⟨rfl, rfl, hoperands, rest, rfl⟩
  rw [Instruction.bytes, List.cons_append, decodeFrom_cons, hcut]
  simp only [List.drop_left]
  cases decodeFrom (instruction.pc + 1 + instruction.operands.length) rest <;> rfl

/-- Behind a front that decodes, decoding goes on as it would from there. -/
theorem decodeFrom_append (hfront : decodeFrom pc front = .ok instructions)
    (back : List UInt8) :
    decodeFrom pc (front ++ back) =
      (decodeFrom (pc + front.length) back).map (instructions ++ ·) := by
  induction instructions generalizing pc front with
  | nil =>
      obtain rfl := decodeFrom_eq_ok_nil_iff.mp hfront
      cases hback : decodeFrom pc back <;> simp [hback, Except.map]
  | cons instruction instructions ih =>
      obtain ⟨rfl, hoperands, rest, rfl, hrest⟩ := decodeFrom_eq_ok_cons_iff.mp hfront
      have hplace : instruction.pc + (instruction.bytes ++ rest).length =
          instruction.pc + 1 + instruction.operands.length + rest.length := by
        rw [Instruction.bytes, List.length_append, List.length_cons]
        omega
      rw [List.append_assoc, decodeFrom_bytes_append hoperands, ih hrest, hplace]
      cases decodeFrom (instruction.pc + 1 + instruction.operands.length + rest.length) back <;> rfl

/-- A failure comes from the first byte behind a front that decodes. -/
theorem exists_front_of_decodeFrom (hcode : decodeFrom pc code = .error failure) :
    ∃ front byte following instructions, code = front ++ byte :: following ∧
      decodeFrom pc front = .ok instructions ∧ Blames failure byte (pc + front.length) := by
  induction pc, code using decodeFrom.induct with
  | case1 pc =>
      rw [decodeFrom_nil] at hcode
      cases hcode
  | case2 pc byte following own hcut =>
      rw [decodeFrom_cons, hcut] at hcode
      cases hcode
      exact ⟨[], byte, following, [], rfl, decodeFrom_nil pc, blames_of_instructionAt hcut⟩
  | case3 pc byte following instruction hcut width own hlater ih =>
      rw [decodeFrom_cons, hcut] at hcode
      simp only [width] at hlater ih
      simp only [hlater] at hcode
      cases hcode
      obtain ⟨front, blamed, behind, instructions, hsplit, hfront, hblames⟩ := ih hlater
      obtain ⟨rfl, hopcode, hoperands, rest, rfl⟩ := instructionAt_eq_ok_iff.mp hcut
      rw [List.drop_left] at hsplit
      subst hsplit
      rw [← hopcode] at hoperands
      refine ⟨instruction.bytes ++ front, blamed, behind, instruction :: instructions, ?_, ?_, ?_⟩
      · rw [Instruction.bytes, hopcode, List.cons_append, List.cons_append, List.append_assoc]
      · rw [decodeFrom_bytes_append hoperands, hfront]
        rfl
      · rw [Instruction.bytes, List.length_append, List.length_cons]
        convert hblames using 1
        omega
  | case4 pc byte following instruction hcut width later hlater ih =>
      rw [decodeFrom_cons, hcut] at hcode
      simp only [width] at hlater
      simp only [hlater] at hcode
      cases hcode

theorem decode_append (hfront : decode front = .ok instructions) (back : List UInt8) :
    decode (front ++ back) = (decodeFrom front.length back).map (instructions ++ ·) := by
  have happend := decodeFrom_append hfront back
  rwa [Nat.zero_add] at happend

/-- Whatever follows a front that decodes, its instructions stay, and a failure lies
behind it. -/
theorem decode_append_cases (hfront : decode front = .ok instructions) (back : List UInt8) :
    (∃ later, decode (front ++ back) = .ok (instructions ++ later)) ∨
      ∃ failure pc, decode (front ++ back) = .error failure ∧ failure.pc? = some pc ∧
        front.length ≤ pc := by
  rw [decode_append hfront]
  cases hback : decodeFrom front.length back with
  | ok later => exact .inl ⟨later, rfl⟩
  | error failure =>
      obtain ⟨middle, byte, -, -, -, -, hblames⟩ := exists_front_of_decodeFrom hback
      exact .inr ⟨failure, front.length + middle.length, rfl, hblames.pc?_eq, Nat.le_add_right _ _⟩

/-- A failure names the exact place up to which the body decodes.  There is a byte at
that place, which decides between the failures; the bytes in front of it decode, and no
longer front does.  What decodes on its own does so in front of anything else. -/
theorem decode_stops_at_frontier :
    (∀ code failure, decode code = .error failure → ∃ pc byte, failure.pc? = some pc ∧
      code[pc]? = some byte ∧ Blames failure byte pc ∧
      (∃ instructions, decode (code.take pc) = .ok instructions) ∧
      ∀ count ≤ code.length, pc < count →
        ∀ instructions, decode (code.take count) ≠ .ok instructions) ∧
    ∀ front instructions, decode front = .ok instructions → ∀ back,
      (∃ later, decode (front ++ back) = .ok (instructions ++ later)) ∨
        ∃ failure pc, decode (front ++ back) = .error failure ∧ failure.pc? = some pc ∧
          front.length ≤ pc := by
  refine ⟨?_, fun front instructions hfront back => decode_append_cases hfront back⟩
  intro code failure hcode
  obtain ⟨front, byte, following, instructions, rfl, hfront, hblames⟩ :=
    exists_front_of_decodeFrom hcode
  rw [Nat.zero_add] at hblames
  refine ⟨front.length, byte, hblames.pc?_eq, by simp, hblames, ⟨instructions, ?_⟩, ?_⟩
  · rwa [List.take_left]
  · intro count hcount hlonger others hothers
    -- The longer front would have pushed the failure behind itself.
    have hcases := decode_append_cases hothers ((front ++ byte :: following).drop count)
    rw [List.take_append_drop, hcode] at hcases
    obtain ⟨later, hlater⟩ | ⟨own, pc, hown, hpc, hbehind⟩ := hcases
    · cases hlater
    · cases hown
      obtain rfl := Option.some.inj (hblames.pc?_eq.symm.trans hpc)
      rw [List.length_take_of_le hcount] at hbehind
      omega

/-- A call that is cut short, and a reserved byte behind the same instruction. -/
theorem decode_stops_at_frontier_cutCall :
    let front : List UInt8 := [0x59]
    let cut : DecodeError := .malformed "invokestatic" 1
    decode front = .ok [⟨0, .dup, []⟩] ∧ decode (front ++ [0xb8, 0]) = .error cut ∧
      (∃ pc byte, cut.pc? = some pc ∧ (front ++ [0xb8, 0])[pc]? = some byte ∧
        Blames cut byte pc ∧ pc = 1 ∧ byte = 0xb8) ∧
      decode (front ++ [0xcb]) = .error (.undefinedOpcode 0xcb 1) ∧
      ∀ back, (∃ later, decode (front ++ back) = .ok (⟨0, .dup, []⟩ :: later)) ∨
        ∃ failure pc, decode (front ++ back) = .error failure ∧ failure.pc? = some pc ∧
          front.length ≤ pc := by
  intro front cut
  have hfront : decode front = .ok [⟨0, .dup, []⟩] := by
    decide +kernel
  have hcut : decode (front ++ [0xb8, 0]) = .error cut := by
    decide +kernel
  obtain ⟨pc, byte, hpc, hbyte, hblames, -, -⟩ := decode_stops_at_frontier.1 _ cut hcut
  obtain rfl : 1 = pc := Option.some.inj hpc
  exact ⟨hfront, hcut, ⟨1, byte, rfl, hbyte, hblames, rfl, (Option.some.inj hbyte).symm⟩,
    by decide +kernel, decode_stops_at_frontier.2 front _ hfront⟩

end Bytecode

end ClassWarden
