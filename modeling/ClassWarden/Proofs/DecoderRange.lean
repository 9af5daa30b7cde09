import ClassWarden.Proofs.Decoding

/-!
# Decoding with machine numbers

Places and lengths in a method body are machine words of 64 bits, and the size of a
switch table is computed in signed numbers of 64 bits before it becomes such a word.
The fields of a switch can hold any signed numbers of 32 bits.

Decoding is told here once more with every number checked against its range as soon as
it is computed.  In a body of less than half the words that there are, no number is
ever outside of its range, at whatever place an instruction is looked for.  Each
instruction leads further on and not past the end, so that decoding takes no more steps
than there are bytes.
-/

namespace ClassWarden

namespace Bytecode

set_option maxRecDepth 4096

variable {pc width : Nat} {byte : UInt8} {opcode : Opcode} {code following : List UInt8}
variable {value low high : Int}

/-! ## Numbers in their range -/

/-- A number that has to fit into a machine word. -/
def word? (value : Nat) : Option Nat :=
  if value < 2 ^ 64 then some value else none

def signedWord? (value : Int) : Option Int :=
  if -2 ^ 63 ≤ value ∧ value < 2 ^ 63 then some value else none

/-- A signed number that has to be one without a sign. -/
def unsigned? (value : Int) : Option Nat :=
  if 0 ≤ value then word? value.toNat else none

/-- A difference that has to be no less than zero. -/
def difference? (left right : Nat) : Option Nat :=
  if right ≤ left then some (left - right) else none

theorem word?_of_lt {value : Nat} (hvalue : value < 2 ^ 64) : word? value = some value :=
  if_pos hvalue

theorem signedWord?_of_bounds (hlow : -2 ^ 63 ≤ value) (hhigh : value < 2 ^ 63) :
    signedWord? value = some value :=
  if_pos ⟨hlow, hhigh⟩

theorem unsigned?_of_bounds (hlow : 0 ≤ value) (hhigh : value < 2 ^ 64) :
    unsigned? value = some value.toNat := by
  rw [unsigned?, if_pos hlow]
  exact word?_of_lt (by omega)

theorem difference?_of_le {left right : Nat} (hle : right ≤ left) :
    difference? left right = some (left - right) :=
  if_pos hle

/-! ## Decoding with every number checked -/

def switchPaddingChecked (pc : Nat) : Option Nat := do
  let start ← word? (pc + 1)
  let missing ← difference? 4 (start % 4)
  return missing % 4

/-- The signed field that stands a number of bytes behind a place of the code. -/
def fieldChecked (code : List UInt8) (base offset : Nat) : Option (Option Int) := do
  let start ← word? (base + offset)
  let stop ← word? (start + 4)
  return if stop ≤ code.length then BigEndian.int32? (code.drop start) else none

/-- Entries of a jump table, by its lowest and its highest key. -/
def tableSizeChecked (low high : Int) : Option Nat := do
  let span ← signedWord? (high - low)
  let count ← signedWord? (span + 1)
  unsigned? count

/-- Operand bytes of a switch: padding, fields of a fixed size in all, and the entries. -/
def switchWidthChecked (padding fields size count : Nat) : Option Nat := do
  let front ← word? (padding + fields)
  let entries ← word? (size * count)
  word? (front + entries)

/-- Operand bytes of an instruction as `operandWidth?` has them, with every number
checked on the way. -/
def operandWidthChecked (code : List UInt8) (pc : Nat) (opcode : Opcode) :
    Option (Option Nat) :=
  if opcode = .wide then do
    let next ← word? (pc + 1)
    return code[next]?.map fun byte => if (⟨byte⟩ : Opcode) = .iinc then 5 else 3
  else if opcode = .tableswitch then do
    let padding ← switchPaddingChecked pc
    let base ← word? ((← word? (pc + 1)) + padding)
    match ← fieldChecked code base 4 with
    | none => return none
    | some low =>
      match ← fieldChecked code base 8 with
      | none => return none
      | some high =>
        if high < low then return none
        else return some (← switchWidthChecked padding 12 4 (← tableSizeChecked low high))
  else if opcode = .lookupswitch then do
    let padding ← switchPaddingChecked pc
    let base ← word? ((← word? (pc + 1)) + padding)
    match ← fieldChecked code base 4 with
    | none => return none
    | some pairs =>
      if pairs < 0 then return none
      else return some (← switchWidthChecked padding 8 8 (← unsigned? pairs))
  else return some (fixedWidth opcode)

/-- The instruction at a place, and the place behind it. -/
def stepChecked (code : List UInt8) (pc : Nat) (byte : UInt8) :
    Option (Except DecodeError (Instruction × Nat)) :=
  match Opcode.mnemonic? ⟨byte⟩ with
  | none => return .error (.undefinedOpcode byte pc)
  | some mnemonic => do
    match ← operandWidthChecked code pc ⟨byte⟩ with
    | none => return .error (.malformed mnemonic pc)
    | some width =>
      let start ← word? (pc + 1)
      let stop ← word? (start + width)
      if stop ≤ code.length then
        return .ok (⟨pc, ⟨byte⟩, (code.drop start).take (stop - start)⟩, stop)
      else return .error (.malformed mnemonic pc)

/-- The instructions from a place on, behind those that come before it, in a number of
steps at most. -/
def decodeWithin (code : List UInt8) (steps pc : Nat) (before : List Instruction) :
    Option (Except DecodeError (List Instruction)) :=
  match code[pc]?, steps with
  | none, _ => some (.ok before)
  | some _, 0 => none
  | some byte, steps + 1 =>
    match stepChecked code pc byte with
    | none => none
    | some (.error failure) => some (.error failure)
    | some (.ok (instruction, next)) => decodeWithin code steps next (before ++ [instruction])

/-! ## Each number is in its range -/

theorem switchPadding_lt (pc : Nat) : switchPadding pc < 4 := by
  rw [switchPadding]
  omega

theorem switchPaddingChecked_eq (hpc : pc < 2 ^ 63) :
    switchPaddingChecked pc = some (switchPadding pc) := by
  have hstart : word? (pc + 1) = some (pc + 1) := word?_of_lt (by omega)
  have hmissing : difference? 4 ((pc + 1) % 4) = some (4 - (pc + 1) % 4) :=
    difference?_of_le (by omega)
  simp only [switchPaddingChecked, hstart, hmissing, Option.bind_eq_bind, Option.bind_some,
    Option.pure_def, switchPadding]

theorem fieldChecked_eq (code : List UInt8) {base offset : Nat}
    (hbase : base + offset + 4 < 2 ^ 64) :
    fieldChecked code base offset = some (BigEndian.int32? (code.drop (base + offset))) := by
  have hstart : word? (base + offset) = some (base + offset) := word?_of_lt (by omega)
  simp only [fieldChecked, hstart, word?_of_lt hbase, Option.bind_eq_bind, Option.bind_some,
    Option.pure_def]
  split
  case isTrue => rfl
  case isFalse hshort =>
    have hlength : ((code.drop (base + offset)).take 4).length ≠ 4 := by
      rw [List.length_take, List.length_drop]
      omega
    rw [BigEndian.int32?, if_neg hlength]

/-- Whatever the keys of a table are, its size is a word if they are not the wrong way
round. -/
theorem tableSizeChecked_eq (hlow : -2 ^ 31 ≤ low) (hhigh : high < 2 ^ 31) (hle : low ≤ high) :
    tableSizeChecked low high = some (high - low + 1).toNat := by
  have hspan : signedWord? (high - low) = some (high - low) :=
    signedWord?_of_bounds (by omega) (by omega)
  have hcount : signedWord? (high - low + 1) = some (high - low + 1) :=
    signedWord?_of_bounds (by omega) (by omega)
  have hsize : unsigned? (high - low + 1) = some (high - low + 1).toNat :=
    unsigned?_of_bounds (by omega) (by omega)
  simp only [tableSizeChecked, hspan, hcount, hsize, Option.bind_eq_bind, Option.bind_some]

theorem switchWidthChecked_eq {padding fields size count : Nat}
    (hwidth : padding + fields + size * count < 2 ^ 64) :
    switchWidthChecked padding fields size count = some (padding + fields + size * count) := by
  have hfront : word? (padding + fields) = some (padding + fields) := word?_of_lt (by omega)
  have hentries : word? (size * count) = some (size * count) := word?_of_lt (by omega)
  simp only [switchWidthChecked, hfront, hentries, word?_of_lt hwidth, Option.bind_eq_bind,
    Option.bind_some]

/-- At a switch, the fields are read where `operandWidth?` reads them. -/
theorem switchFieldChecked_eq (code : List UInt8) {offset : Nat} (hpc : pc < 2 ^ 63)
    (hoffset : offset ≤ 8) :
    fieldChecked code (pc + 1 + switchPadding pc) offset =
      some (BigEndian.int32? ((code.drop (pc + 1)).drop (switchPadding pc + offset))) := by
  have hpadding := switchPadding_lt pc
  rw [fieldChecked_eq code (by omega), List.drop_drop, Nat.add_assoc (pc + 1)]

theorem operandWidthChecked_wide (code : List UInt8) (hpc : pc < 2 ^ 63) :
    operandWidthChecked code pc .wide = some (operandWidth? pc .wide (code.drop (pc + 1))) := by
  have hnext : word? (pc + 1) = some (pc + 1) := word?_of_lt (by omega)
  rw [operandWidthChecked, operandWidth?, if_pos rfl, if_pos rfl, hnext, List.head?_drop]
  rfl

theorem operandWidthChecked_tableswitch (code : List UInt8) (hpc : pc < 2 ^ 63) :
    operandWidthChecked code pc .tableswitch =
      some (operandWidth? pc .tableswitch (code.drop (pc + 1))) := by
  have hpadding := switchPadding_lt pc
  have hstart : word? (pc + 1) = some (pc + 1) := word?_of_lt (by omega)
  have hbase : word? (pc + 1 + switchPadding pc) = some (pc + 1 + switchPadding pc) :=
    word?_of_lt (by omega)
  rw [operandWidthChecked, operandWidth?, if_neg (by decide), if_pos rfl, if_neg (by decide),
    if_pos rfl]
  simp only [switchPaddingChecked_eq hpc, hstart, hbase, switchFieldChecked_eq code hpc,
    Nat.reduceLeDiff, Option.bind_eq_bind, Option.bind_some, Option.pure_def]
  cases hlow : BigEndian.int32? ((code.drop (pc + 1)).drop (switchPadding pc + 4)) with
  | none => rfl
  | some low =>
      cases hhigh : BigEndian.int32? ((code.drop (pc + 1)).drop (switchPadding pc + 8)) with
      | none => rfl
      | some high =>
          obtain ⟨hbelow, -⟩ := BigEndian.int32?_bounds hlow
          obtain ⟨-, habove⟩ := BigEndian.int32?_bounds hhigh
          dsimp only
          split
          case isTrue => rfl
          case isFalse hle =>
            rw [tableSizeChecked_eq hbelow habove (by omega), Option.bind_some,
              switchWidthChecked_eq (by omega), Option.bind_some]

theorem operandWidthChecked_lookupswitch (code : List UInt8) (hpc : pc < 2 ^ 63) :
    operandWidthChecked code pc .lookupswitch =
      some (operandWidth? pc .lookupswitch (code.drop (pc + 1))) := by
  have hpadding := switchPadding_lt pc
  have hstart : word? (pc + 1) = some (pc + 1) := word?_of_lt (by omega)
  have hbase : word? (pc + 1 + switchPadding pc) = some (pc + 1 + switchPadding pc) :=
    word?_of_lt (by omega)
  rw [operandWidthChecked, operandWidth?, if_neg (by decide), if_neg (by decide), if_pos rfl,
    if_neg (by decide), if_neg (by decide), if_pos rfl]
  simp only [switchPaddingChecked_eq hpc, hstart, hbase, switchFieldChecked_eq code hpc,
    Nat.reduceLeDiff, Option.bind_eq_bind, Option.bind_some, Option.pure_def]
  cases hpairs : BigEndian.int32? ((code.drop (pc + 1)).drop (switchPadding pc + 4)) with
  | none => rfl
  | some pairs =>
      obtain ⟨-, habove⟩ := BigEndian.int32?_bounds hpairs
      dsimp only
      split
      case isTrue => rfl
      case isFalse hnonneg =>
        rw [unsigned?_of_bounds (by omega) (by omega), Option.bind_some,
          switchWidthChecked_eq (by omega), Option.bind_some]

/-- The width of an instruction is found without leaving the range, whatever stands at
its place and behind it. -/
theorem operandWidthChecked_eq (code : List UInt8) (opcode : Opcode) (hpc : pc < 2 ^ 63) :
    operandWidthChecked code pc opcode =
      some (operandWidth? pc opcode (code.drop (pc + 1))) := by
  by_cases hvariable : opcode ∈ variableOpcodes
  · obtain rfl | rfl | rfl := mem_variableOpcodes.mp hvariable
    · exact operandWidthChecked_wide code hpc
    · exact operandWidthChecked_tableswitch code hpc
    · exact operandWidthChecked_lookupswitch code hpc
  · rw [operandWidth?_of_not_mem hvariable]
    simp only [mem_variableOpcodes, not_or] at hvariable
    obtain ⟨hwide, htable, hlookup⟩ := hvariable
    rw [operandWidthChecked, if_neg hwide, if_neg htable, if_neg hlookup]
    rfl

theorem fixedWidth_le (opcode : Opcode) : fixedWidth opcode ≤ 4 := by
  rw [fixedWidth]
  split_ifs <;> decide

/-- The longest instruction is a switch with an entry for each signed number of 32 bits. -/
theorem operandWidth?_le (hwidth : operandWidth? pc opcode following = some width) :
    width ≤ 15 + 4 * 2 ^ 32 := by
  have hpadding := switchPadding_lt pc
  by_cases hvariable : opcode ∈ variableOpcodes
  · obtain rfl | rfl | rfl := mem_variableOpcodes.mp hvariable
    · rw [operandWidth?_wide] at hwidth
      obtain ⟨byte, -, rfl⟩ := Option.map_eq_some_iff.mp hwidth
      split <;> decide
    · obtain ⟨low, high, hlow, hhigh, -, rfl⟩ := exists_of_operandWidth?_tableswitch hwidth
      obtain ⟨hbelow, -⟩ := BigEndian.int32?_bounds hlow
      obtain ⟨-, habove⟩ := BigEndian.int32?_bounds hhigh
      omega
    · obtain ⟨pairs, hpairs, -, rfl⟩ := exists_of_operandWidth?_lookupswitch hwidth
      obtain ⟨-, habove⟩ := BigEndian.int32?_bounds hpairs
      omega
  · rw [operandWidth?_of_not_mem hvariable] at hwidth
    obtain rfl := Option.some.inj hwidth
    exact (fixedWidth_le opcode).trans (by decide)

/-! ## Each step leads on, and not too far -/

/-- A step in a body of a length that a machine has: no number leaves its range, and
what comes of it is what `instructionAt` gives, with the place behind the instruction. -/
theorem stepChecked_eq (hlength : code.length < 2 ^ 63) (hbyte : code[pc]? = some byte) :
    stepChecked code pc byte =
      some ((instructionAt pc ⟨byte⟩ (code.drop (pc + 1))).map fun instruction =>
        (instruction, pc + 1 + instruction.operands.length)) := by
  have hpc : pc < code.length := (List.getElem?_eq_some_iff.mp hbyte).1
  have hpc' : pc < 2 ^ 63 := by omega
  have hstart : word? (pc + 1) = some (pc + 1) := word?_of_lt (by omega)
  unfold stepChecked instructionAt
  cases hmnemonic : Opcode.mnemonic? ⟨byte⟩ with
  | none => rfl
  | some mnemonic =>
      simp only [operandWidthChecked_eq code ⟨byte⟩ hpc', Option.bind_eq_bind, Option.bind_some]
      cases hwidth : operandWidth? pc ⟨byte⟩ (code.drop (pc + 1)) with
      | none => rfl
      | some width =>
          have hle := operandWidth?_le hwidth
          have hstop : word? (pc + 1 + width) = some (pc + 1 + width) := word?_of_lt (by omega)
          have hfits : pc + 1 + width ≤ code.length ↔
              ((code.drop (pc + 1)).take width).length = width := by
            rw [List.length_take, List.length_drop]
            omega
          simp only [hstart, hstop, hfits, Option.bind_some, Option.pure_def,
            Nat.add_sub_cancel_left]
          split
          case isTrue hlong => simp only [Except.map, hlong]
          case isFalse => rfl

/-- A step that gives an instruction comes to a later place, which is in the body or at
its end. -/
theorem stepChecked_advances {instruction : Instruction} {next : Nat}
    (hlength : code.length < 2 ^ 63) (hbyte : code[pc]? = some byte)
    (hstep : stepChecked code pc byte = some (.ok (instruction, next))) :
    pc < next ∧ next ≤ code.length := by
  have hpc : pc < code.length := (List.getElem?_eq_some_iff.mp hbyte).1
  rw [stepChecked_eq hlength hbyte, Option.some.injEq] at hstep
  cases hcut : instructionAt pc ⟨byte⟩ (code.drop (pc + 1)) with
  | error failure =>
      rw [hcut] at hstep
      cases hstep
  | ok own =>
      rw [hcut] at hstep
      cases hstep
      obtain ⟨-, -, -, rest, hrest⟩ := instructionAt_eq_ok_iff.mp hcut
      have hcount := congrArg List.length hrest
      rw [List.length_drop, List.length_append] at hcount
      omega

theorem decodeWithin_end {steps : Nat} (hend : code.length ≤ pc) (before : List Instruction) :
    decodeWithin code steps pc before =
      some ((decodeFrom pc (code.drop pc)).map (before ++ ·)) := by
  have hnone : code[pc]? = none := List.getElem?_eq_none hend
  unfold decodeWithin
  simp only [hnone, List.drop_eq_nil_of_le hend, decodeFrom_nil, Except.map, List.append_nil]

/-- Decoding from a place on, in as many steps as there are bytes from it on. -/
theorem decodeWithin_eq {steps : Nat} (hlength : code.length < 2 ^ 63)
    (hsteps : code.length ≤ pc + steps) (before : List Instruction) :
    decodeWithin code steps pc before =
      some ((decodeFrom pc (code.drop pc)).map (before ++ ·)) := by
  induction steps generalizing pc before with
  | zero => exact decodeWithin_end hsteps before
  | succ steps ih =>
      by_cases hend : code.length ≤ pc
      · exact decodeWithin_end hend before
      have hpc : pc < code.length := Nat.lt_of_not_le hend
      have hbyte : code[pc]? = some code[pc] := List.getElem?_eq_getElem hpc
      unfold decodeWithin
      simp only [hbyte, stepChecked_eq hlength hbyte, List.drop_eq_getElem_cons hpc,
        decodeFrom_cons]
      cases instructionAt pc ⟨code[pc]⟩ (code.drop (pc + 1)) with
      | error failure => rfl
      | ok instruction =>
          have hlater : code.length ≤ pc + 1 + instruction.operands.length + steps := by omega
          simp only [Except.map, ih hlater, List.drop_drop]
          cases decodeFrom (pc + 1 + instruction.operands.length)
              (code.drop (pc + 1 + instruction.operands.length)) with
          | error failure => rfl
          | ok later => simp

/-- In a body of less than half the words that there are, decoding never computes a
number outside of its range, whatever the fields of its switches hold: the size of a
table is always a word, the width of an instruction is found at every place, and so is
the instruction itself.  Each instruction leads further on and not past the end, and as
many steps as there are bytes are enough to decode them all. -/
theorem decode_stays_in_range (hlength : code.length < 2 ^ 63) :
    (∀ low high : Int32, low.toInt ≤ high.toInt →
      tableSizeChecked low.toInt high.toInt = some (high.toInt - low.toInt + 1).toNat) ∧
    (∀ pc < code.length, ∀ opcode,
      operandWidthChecked code pc opcode =
        some (operandWidth? pc opcode (code.drop (pc + 1)))) ∧
    (∀ pc byte, code[pc]? = some byte → ∃ outcome, stepChecked code pc byte = some outcome ∧
      outcome.map Prod.fst = instructionAt pc ⟨byte⟩ (code.drop (pc + 1)) ∧
      ∀ instruction next, outcome = .ok (instruction, next) → pc < next ∧ next ≤ code.length) ∧
    decodeWithin code code.length 0 [] = some (decode code) := by
  refine ⟨fun low high hle => ?_, fun pc hpc opcode => ?_, fun pc byte hbyte => ?_, ?_⟩
  · exact tableSizeChecked_eq (Int32.le_toInt low) (Int32.toInt_lt high) hle
  · exact operandWidthChecked_eq code opcode (by omega)
  · refine ⟨_, stepChecked_eq hlength hbyte, ?_, fun instruction next hstep => ?_⟩
    · cases instructionAt pc ⟨byte⟩ (code.drop (pc + 1)) <;> rfl
    · apply stepChecked_advances hlength hbyte
      rw [stepChecked_eq hlength hbyte, hstep]
  · rw [decodeWithin_eq hlength (by omega), List.drop_zero, ← decode]
    cases decode code <;> rfl

/-- A table that goes from the least number to the greatest one, of which there is not a
single entry. -/
theorem decode_stays_in_range_widestTable :
    let code : List UInt8 := [0xaa, 0, 0, 0, 0, 0, 0, 0, 0x80, 0, 0, 0, 0x7f, 0xff, 0xff, 0xff]
    code.length < 2 ^ 63 ∧
      operandWidthChecked code 0 .tableswitch = some (some (15 + 4 * 2 ^ 32)) ∧
      decodeWithin code code.length 0 [] = some (.error (.malformed "tableswitch" 0)) := by
  intro code
  have hlength : code.length < 2 ^ 63 := by decide
  obtain ⟨-, hwidth, -, hdecode⟩ := decode_stays_in_range hlength
  refine ⟨hlength, (hwidth 0 (by decide) .tableswitch).trans ?_, hdecode.trans ?_⟩
  · decide +kernel
  · decide +kernel

end Bytecode

end ClassWarden
