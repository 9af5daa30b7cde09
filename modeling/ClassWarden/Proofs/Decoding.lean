import ClassWarden.Bytecode
import ClassWarden.Proofs.BigEndian

/-!
# Decoding accepts the instruction format

The format of a method body is a grammar.  Each instruction is an opcode byte
with operand bytes of a form that goes by its mnemonic, and a body is any number
of instructions one after another.  Only the switches look at where they stand.

The decoder accepts exactly the bodies of this grammar.  It loses nothing: the
instructions that it returns are the only ones that the body can be split into.
-/

namespace ClassWarden

/-- The instruction as it stands in a method body. -/
def Instruction.bytes (instruction : Instruction) : List UInt8 :=
  instruction.opcode.byte :: instruction.operands

namespace Bytecode

/-! ## The format of one instruction -/

/-- The opcodes in byte order, in runs of the same format: the first mnemonic of
a run, how many opcodes it has and the operand bytes of each, unless their
number varies. -/
def formatRuns : List (String × Nat × Option Nat) := [
  ("nop", 16, some 0), ("bipush", 1, some 1), ("sipush", 1, some 2), ("ldc", 1, some 1),
  ("ldc_w", 2, some 2), ("iload", 5, some 1), ("iload_0", 28, some 0), ("istore", 5, some 1),
  ("istore_0", 73, some 0), ("iinc", 1, some 2), ("i2l", 20, some 0), ("ifeq", 16, some 2),
  ("ret", 1, some 1), ("tableswitch", 2, none), ("ireturn", 6, some 0), ("getstatic", 7, some 2),
  ("invokeinterface", 2, some 4), ("new", 1, some 2), ("newarray", 1, some 1),
  ("anewarray", 1, some 2), ("arraylength", 2, some 0), ("checkcast", 2, some 2),
  ("monitorenter", 2, some 0), ("wide", 1, none), ("multianewarray", 1, some 3),
  ("ifnull", 2, some 2), ("goto_w", 2, some 4)]

def formatWidths : List (Option Nat) :=
  formatRuns.flatMap fun (_, count, width) => List.replicate count width

/-- Each run starts with the opcode of its mnemonic. -/
theorem mnemonics_formatRuns :
    ∀ index : Fin formatRuns.length,
      Opcode.mnemonics[((formatRuns.take index).map (·.2.1)).sum]? =
        some formatRuns[index].1 := by
  decide +kernel

/-- Bytes between the opcode at `pc` and the next multiple of four from the
method start. -/
structure IsPadding (pc : Nat) (padding : List UInt8) : Prop where
  length_lt : padding.length < 4
  aligned : (pc + 1 + padding.length) % 4 = 0

open BigEndian (ofInt32)

/-- The operand bytes that an opcode at `pc` can have. -/
inductive Operands (pc : Nat) : Opcode → List UInt8 → Prop where
  | fixed {opcode : Opcode} {operands : List UInt8}
      (hlength : formatWidths[opcode.byte.toNat]? = some (some operands.length)) :
      Operands pc opcode operands
  | wideIncrement {operands : List UInt8} (hlength : operands.length = 4) :
      Operands pc .wide (Opcode.iinc.byte :: operands)
  | wideOther {modified : UInt8} {operands : List UInt8} (hother : modified ≠ Opcode.iinc.byte)
      (hlength : operands.length = 2) : Operands pc .wide (modified :: operands)
  | tableswitch {padding fallback offsets : List UInt8} {low high : Int32}
      (hpadding : IsPadding pc padding) (hfallback : fallback.length = 4)
      (hrange : low.toInt ≤ high.toInt)
      (hoffsets : offsets.length = 4 * (high.toInt - low.toInt + 1).toNat) :
      Operands pc .tableswitch (padding ++ fallback ++ ofInt32 low ++ ofInt32 high ++ offsets)
  | lookupswitch {padding fallback pairs : List UInt8} {count : Int32}
      (hpadding : IsPadding pc padding) (hfallback : fallback.length = 4)
      (hcount : 0 ≤ count.toInt) (hpairs : pairs.length = 8 * count.toInt.toNat) :
      Operands pc .lookupswitch (padding ++ fallback ++ ofInt32 count ++ pairs)

variable {pc width : Nat} {opcode : Opcode} {operands following rest padding : List UInt8}

/-- Instructions whose operands do not always have the same length. -/
def variableOpcodes : List Opcode := [.wide, .tableswitch, .lookupswitch]

theorem mem_variableOpcodes :
    opcode ∈ variableOpcodes ↔
      opcode = .wide ∨ opcode = .tableswitch ∨ opcode = .lookupswitch := by
  simp only [variableOpcodes, List.mem_cons, List.not_mem_nil, or_false]

theorem formatWidths_eq :
    formatWidths = (List.range 202).map fun byte =>
      let opcode : Opcode := ⟨UInt8.ofNat byte⟩
      if opcode ∈ variableOpcodes then none else some (fixedWidth opcode) := by
  decide +kernel

theorem byte_lt_iff (opcode : Opcode) : opcode.byte < 0xca ↔ opcode.byte.toNat < 202 := by
  exact UInt8.lt_iff_toNat_lt

theorem formatWidths_getElem?_eq_some_iff {width? : Option Nat} :
    formatWidths[opcode.byte.toNat]? = some width? ↔
      opcode.byte < 0xca ∧
        (if opcode ∈ variableOpcodes then none else some (fixedWidth opcode)) = width? := by
  rw [formatWidths_eq, byte_lt_iff, List.getElem?_map]
  by_cases hassigned : opcode.byte.toNat < 202
  · rw [List.getElem?_range hassigned]
    simp [hassigned]
  · rw [List.getElem?_eq_none (by simpa using hassigned)]
    simp [hassigned]

theorem isSome_mnemonic?_iff (opcode : Opcode) :
    opcode.mnemonic?.isSome = true ↔ opcode.byte < 0xca := by
  have hsize : Opcode.mnemonics.size = 202 := by
    rfl
  rw [Opcode.mnemonic?, isSome_getElem?, hsize, byte_lt_iff]

theorem isPadding_iff :
    IsPadding pc padding ↔ padding.length = switchPadding pc := by
  rw [switchPadding]
  constructor
  · intro hpadding
    have hlength := hpadding.length_lt
    have haligned := hpadding.aligned
    omega
  · intro hlength
    constructor <;> omega

/-! ## The width of one instruction -/

theorem operandWidth?_of_not_mem (hfixed : opcode ∉ variableOpcodes) :
    operandWidth? pc opcode following = some (fixedWidth opcode) := by
  simp only [mem_variableOpcodes, not_or] at hfixed
  obtain ⟨hwide, htable, hlookup⟩ := hfixed
  rw [operandWidth?, if_neg hwide, if_neg htable, if_neg hlookup]

theorem operandWidth?_wide (pc : Nat) (following : List UInt8) :
    operandWidth? pc .wide following =
      following.head?.map fun byte => if byte = Opcode.iinc.byte then 5 else 3 := by
  rw [operandWidth?, if_pos rfl]
  cases following with
  | nil => rfl
  | cons byte following => by_cases hbyte : byte = 0x84 <;> simp [Opcode.iinc, hbyte]

/-- The fields that the width of a jump table is made of. -/
theorem exists_of_operandWidth?_tableswitch
    (hwidth : operandWidth? pc .tableswitch following = some width) :
    ∃ low high, BigEndian.int32? (following.drop (switchPadding pc + 4)) = some low ∧
      BigEndian.int32? (following.drop (switchPadding pc + 8)) = some high ∧ low ≤ high ∧
        width = switchPadding pc + 12 + 4 * (high - low + 1).toNat := by
  rw [operandWidth?, if_neg (by decide), if_pos rfl] at hwidth
  dsimp only at hwidth
  split at hwidth
  case h_2 => cases hwidth
  case h_1 low high hlow hhigh =>
    split at hwidth
    case isTrue => cases hwidth
    case isFalse hrange =>
      exact ⟨low, high, hlow, hhigh, not_lt.mp hrange, (Option.some.inj hwidth).symm⟩

/-- The field that the width of a table of pairs is made of. -/
theorem exists_of_operandWidth?_lookupswitch
    (hwidth : operandWidth? pc .lookupswitch following = some width) :
    ∃ count, BigEndian.int32? (following.drop (switchPadding pc + 4)) = some count ∧
      0 ≤ count ∧ width = switchPadding pc + 8 + 8 * count.toNat := by
  rw [operandWidth?, if_neg (by decide), if_neg (by decide), if_pos rfl] at hwidth
  dsimp only at hwidth
  split at hwidth
  case h_2 => cases hwidth
  case h_1 count hcount =>
    split at hwidth
    case isTrue => cases hwidth
    case isFalse hrange =>
      exact ⟨count, hcount, not_lt.mp hrange, (Option.some.inj hwidth).symm⟩

theorem operandWidth?_tableswitch {fallback : List UInt8} (low high : Int32)
    (offsets : List UInt8) (hpadding : IsPadding pc padding) (hfallback : fallback.length = 4) :
    operandWidth? pc .tableswitch
        (padding ++ fallback ++ ofInt32 low ++ ofInt32 high ++ offsets) =
      if high.toInt < low.toInt then none
      else some (padding.length + 12 + 4 * (high.toInt - low.toInt + 1).toNat) := by
  have hlength := isPadding_iff.mp hpadding
  have hlow : (padding ++ fallback ++ ofInt32 low ++ ofInt32 high ++ offsets).drop
      (switchPadding pc + 4) = ofInt32 low ++ (ofInt32 high ++ offsets) := by
    rw [List.append_assoc, List.append_assoc]
    exact List.drop_left' (by simp [hlength, hfallback])
  have hhigh : (padding ++ fallback ++ ofInt32 low ++ ofInt32 high ++ offsets).drop
      (switchPadding pc + 8) = ofInt32 high ++ offsets := by
    rw [List.append_assoc]
    exact List.drop_left' (by simp [hlength, hfallback])
  rw [operandWidth?, if_neg (by decide), if_pos rfl]
  simp only [hlow, hhigh, BigEndian.int32?_ofInt32_append, hlength]

theorem operandWidth?_lookupswitch {fallback : List UInt8} (count : Int32) (pairs : List UInt8)
    (hpadding : IsPadding pc padding) (hfallback : fallback.length = 4) :
    operandWidth? pc .lookupswitch (padding ++ fallback ++ ofInt32 count ++ pairs) =
      if count.toInt < 0 then none
      else some (padding.length + 8 + 8 * count.toInt.toNat) := by
  have hlength := isPadding_iff.mp hpadding
  have hcount : (padding ++ fallback ++ ofInt32 count ++ pairs).drop (switchPadding pc + 4) =
      ofInt32 count ++ pairs := by
    rw [List.append_assoc]
    exact List.drop_left' (by simp [hlength, hfallback])
  rw [operandWidth?, if_neg (by decide), if_neg (by decide), if_pos rfl]
  simp only [hcount, BigEndian.int32?_ofInt32_append, hlength]

/-- Operand bytes of the format settle their own number, whatever follows. -/
theorem Operands.operandWidth?_append (hoperands : Operands pc opcode operands)
    (rest : List UInt8) :
    operandWidth? pc opcode (operands ++ rest) = some operands.length := by
  cases hoperands with
  | fixed hlength =>
      obtain ⟨-, hwidth⟩ := formatWidths_getElem?_eq_some_iff.mp hlength
      split at hwidth
      case isTrue => cases hwidth
      case isFalse hfixed => rw [operandWidth?_of_not_mem hfixed, hwidth]
  | wideIncrement hlength => simp [operandWidth?_wide, hlength]
  | wideOther hother hlength => simp [operandWidth?_wide, hother, hlength]
  | tableswitch hpadding hfallback hrange hoffsets =>
      rw [List.append_assoc, operandWidth?_tableswitch _ _ _ hpadding hfallback,
        if_neg (not_lt.mpr hrange)]
      simp only [List.length_append, BigEndian.length_ofInt32, hfallback, hoffsets]
  | lookupswitch hpadding hfallback hcount hpairs =>
      rw [List.append_assoc, operandWidth?_lookupswitch _ _ hpadding hfallback,
        if_neg (not_lt.mpr hcount)]
      simp only [List.length_append, BigEndian.length_ofInt32, hfallback, hpairs]

/-- A signed field that is read at a place stands there. -/
theorem exists_field_at {place : Nat} {value : Int} (hplace : place + 4 ≤ operands.length)
    (hvalue : BigEndian.int32? ((operands ++ rest).drop place) = some value) :
    ∃ front field tail, operands = front ++ ofInt32 field ++ tail ∧ front.length = place ∧
      field.toInt = value := by
  have hfront : (operands.take place).length = place := List.length_take_of_le (by omega)
  have hbytes : ((operands.drop place).take 4).length = 4 := by
    rw [List.length_take, List.length_drop]
    omega
  have hcut : operands = operands.take place ++ (operands.drop place).take 4 ++
      (operands.drop place).drop 4 := by
    rw [List.append_assoc, List.take_append_drop, List.take_append_drop]
  rw [hcut, List.append_assoc, List.append_assoc, List.drop_left' hfront] at hvalue
  obtain ⟨field, hfield, hbytes⟩ := BigEndian.exists_ofInt32_of_int32? hbytes hvalue
  rw [hbytes] at hcut
  exact ⟨_, field, _, hcut, hfront, hfield⟩

/-- What stands in front of the first field of a switch. -/
theorem exists_switch_front {front : List UInt8} (hfront : front.length = switchPadding pc + 4) :
    ∃ padding fallback, front = padding ++ fallback ∧ IsPadding pc padding ∧
      fallback.length = 4 := by
  refine ⟨front.take (switchPadding pc), front.drop (switchPadding pc),
    (List.take_append_drop _ _).symm, isPadding_iff.mpr ?_, ?_⟩
  · exact List.length_take_of_le (by omega)
  · rw [List.length_drop]
    omega

theorem operands_wide (hwidth : operandWidth? pc .wide (operands ++ rest) = some operands.length) :
    Operands pc .wide operands := by
  rw [operandWidth?_wide, Option.map_eq_some_iff] at hwidth
  obtain ⟨byte, hhead, hlength⟩ := hwidth
  cases operands with
  | nil => split at hlength <;> cases hlength
  | cons modified operands =>
      obtain rfl : modified = byte := Option.some.inj hhead
      rw [List.length_cons] at hlength
      split at hlength
      case isTrue hincrement =>
        subst hincrement
        exact .wideIncrement (by omega)
      case isFalse hother => exact .wideOther hother (by omega)

theorem operands_tableswitch
    (hwidth : operandWidth? pc .tableswitch (operands ++ rest) = some operands.length) :
    Operands pc .tableswitch operands := by
  obtain ⟨low, high, hlow, hhigh, hrange, hlength⟩ := exists_of_operandWidth?_tableswitch hwidth
  obtain ⟨front, lowField, tail, rfl, hfront, rfl⟩ := exists_field_at (by omega) hlow
  have hbefore : (front ++ ofInt32 lowField).length = switchPadding pc + 8 := by
    rw [List.length_append, hfront, BigEndian.length_ofInt32]
  rw [List.append_assoc (front ++ _), List.drop_left' hbefore,
    ← List.drop_zero (l := tail ++ rest)] at hhigh
  rw [List.length_append, hbefore] at hlength
  obtain ⟨before, highField, offsets, rfl, hnone, rfl⟩ := exists_field_at (by omega) hhigh
  obtain ⟨padding, fallback, rfl, hpadding, hfallback⟩ := exists_switch_front hfront
  obtain rfl := List.length_eq_zero_iff.mp hnone
  rw [List.nil_append, ← List.append_assoc]
  rw [List.nil_append, List.length_append, BigEndian.length_ofInt32] at hlength
  exact .tableswitch hpadding hfallback hrange (by omega)

theorem operands_lookupswitch
    (hwidth : operandWidth? pc .lookupswitch (operands ++ rest) = some operands.length) :
    Operands pc .lookupswitch operands := by
  obtain ⟨count, hcount, hrange, hlength⟩ := exists_of_operandWidth?_lookupswitch hwidth
  obtain ⟨front, field, pairs, rfl, hfront, rfl⟩ := exists_field_at (by omega) hcount
  obtain ⟨padding, fallback, rfl, hpadding, hfallback⟩ := exists_switch_front hfront
  rw [List.length_append, List.length_append, hfront, BigEndian.length_ofInt32] at hlength
  exact .lookupswitch hpadding hfallback hrange (by omega)

/-- The operand bytes of an assigned opcode are of its format exactly if they
settle their own number. -/
theorem operandWidth?_append_eq_iff (hassigned : opcode.byte < 0xca) :
    operandWidth? pc opcode (operands ++ rest) = some operands.length ↔
      Operands pc opcode operands := by
  refine ⟨fun hwidth => ?_, fun hoperands => hoperands.operandWidth?_append rest⟩
  by_cases hvariable : opcode ∈ variableOpcodes
  · obtain rfl | rfl | rfl := mem_variableOpcodes.mp hvariable
    · exact operands_wide hwidth
    · exact operands_tableswitch hwidth
    · exact operands_lookupswitch hwidth
  · rw [operandWidth?_of_not_mem hvariable] at hwidth
    exact .fixed (formatWidths_getElem?_eq_some_iff.mpr ⟨hassigned, by rw [if_neg hvariable, hwidth]⟩)

theorem Operands.byte_lt (hoperands : Operands pc opcode operands) : opcode.byte < 0xca := by
  cases hoperands with
  | fixed hlength => exact (formatWidths_getElem?_eq_some_iff.mp hlength).1
  | wideIncrement | wideOther | tableswitch | lookupswitch => decide

/-! ## Method bodies -/

variable {instruction : Instruction} {instructions : List Instruction} {code : List UInt8}

/-- An instruction is cut out exactly where operand bytes of its format follow. -/
theorem instructionAt_eq_ok_iff :
    instructionAt pc opcode following = .ok instruction ↔
      instruction.pc = pc ∧ instruction.opcode = opcode ∧
        Operands pc opcode instruction.operands ∧
          ∃ rest, following = instruction.operands ++ rest := by
  constructor
  · intro hcut
    unfold instructionAt at hcut
    split at hcut
    case h_1 => cases hcut
    case h_2 mnemonic hmnemonic =>
      have hassigned : opcode.byte < 0xca := by
        rw [← isSome_mnemonic?_iff, hmnemonic]
        rfl
      split at hcut
      case h_1 => cases hcut
      case h_2 width hwidth =>
        dsimp only at hcut
        split at hcut
        case isFalse => cases hcut
        case isTrue hlength =>
          cases hcut
          refine ⟨rfl, rfl, ?_, following.drop width, (List.take_append_drop width _).symm⟩
          rw [← operandWidth?_append_eq_iff hassigned, List.take_append_drop, hlength]
          exact hwidth
  · rintro ⟨rfl, rfl, hoperands, rest, rfl⟩
    obtain ⟨mnemonic, hmnemonic⟩ :=
      Option.isSome_iff_exists.mp ((isSome_mnemonic?_iff _).mpr hoperands.byte_lt)
    unfold instructionAt
    simp only [hmnemonic]
    simp only [hoperands.operandWidth?_append rest, List.take_left, if_true]

/-- Each instruction stands where those before it end, and has operand bytes of
its format. -/
def WellPlaced (pc : Nat) (instructions : List Instruction) : Prop :=
  ∀ earlier instruction later, instructions = earlier ++ instruction :: later →
    instruction.pc = pc + (earlier.flatMap Instruction.bytes).length ∧
      Operands instruction.pc instruction.opcode instruction.operands

theorem wellPlaced_nil (pc : Nat) : WellPlaced pc [] := by
  intro earlier instruction later hsplit
  simp at hsplit

theorem wellPlaced_cons :
    WellPlaced pc (instruction :: instructions) ↔
      (instruction.pc = pc ∧ Operands pc instruction.opcode instruction.operands) ∧
        WellPlaced (pc + 1 + instruction.operands.length) instructions := by
  constructor
  · intro hplaced
    obtain ⟨hpc, hoperands⟩ := hplaced [] instruction instructions rfl
    refine ⟨⟨hpc, by rwa [hpc] at hoperands⟩, ?_⟩
    rintro earlier later rest rfl
    obtain ⟨hlater, hformat⟩ := hplaced (instruction :: earlier) later rest rfl
    refine ⟨?_, hformat⟩
    rw [hlater, List.flatMap_cons, List.length_append, Instruction.bytes, List.length_cons]
    omega
  · rintro ⟨⟨hpc, hoperands⟩, hplaced⟩ earlier later rest hsplit
    cases earlier with
    | nil =>
        obtain ⟨rfl, rfl⟩ := List.cons.inj hsplit
        exact ⟨hpc, by rwa [hpc]⟩
    | cons head earlier =>
        obtain ⟨rfl, rfl⟩ := List.cons.inj hsplit
        obtain ⟨hlater, hformat⟩ := hplaced earlier later rest rfl
        refine ⟨?_, hformat⟩
        rw [hlater, List.flatMap_cons, List.length_append, Instruction.bytes, List.length_cons]
        omega

theorem decodeFrom_nil (pc : Nat) : decodeFrom pc [] = .ok [] := by
  unfold decodeFrom
  rfl

theorem decodeFrom_cons (pc : Nat) (byte : UInt8) (following : List UInt8) :
    decodeFrom pc (byte :: following) =
      match instructionAt pc ⟨byte⟩ following with
      | .error failure => .error failure
      | .ok instruction =>
        match decodeFrom (pc + 1 + instruction.operands.length)
            (following.drop instruction.operands.length) with
        | .error failure => .error failure
        | .ok later => .ok (instruction :: later) := by
  have hunfold := decodeFrom.eq_def pc (byte :: following)
  dsimp only at hunfold
  refine hunfold.trans ?_
  cases instructionAt pc ⟨byte⟩ following with
  | error failure => rfl
  | ok instruction => rfl

theorem decodeFrom_eq_ok_nil_iff : decodeFrom pc code = .ok [] ↔ code = [] := by
  cases code with
  | nil => simp [decodeFrom_nil]
  | cons byte following =>
      rw [decodeFrom_cons]
      cases instructionAt pc ⟨byte⟩ following with
      | error failure => simp
      | ok instruction =>
          dsimp only
          split <;> simp

theorem decodeFrom_eq_ok_cons_iff :
    decodeFrom pc code = .ok (instruction :: instructions) ↔
      instruction.pc = pc ∧ Operands pc instruction.opcode instruction.operands ∧
        ∃ rest, code = instruction.bytes ++ rest ∧
          decodeFrom (pc + 1 + instruction.operands.length) rest = .ok instructions := by
  cases code with
  | nil => simp [decodeFrom_nil, Instruction.bytes]
  | cons byte following =>
      constructor
      · intro hdecode
        rw [decodeFrom_cons] at hdecode
        cases hcut : instructionAt pc ⟨byte⟩ following with
        | error failure =>
            rw [hcut] at hdecode
            cases hdecode
        | ok own =>
            obtain ⟨hpc, hopcode, hoperands, rest, rfl⟩ := instructionAt_eq_ok_iff.mp hcut
            simp only [hcut, List.drop_left] at hdecode
            split at hdecode
            case h_1 => cases hdecode
            case h_2 later hlater =>
              obtain ⟨rfl, rfl⟩ := List.cons.inj (Except.ok.inj hdecode)
              rw [← hopcode] at hoperands
              refine ⟨hpc, hoperands, rest, ?_, hlater⟩
              rw [Instruction.bytes, hopcode, List.cons_append]
      · rintro ⟨hpc, hoperands, rest, hcode, hlater⟩
        rw [Instruction.bytes, List.cons_append] at hcode
        obtain ⟨rfl, rfl⟩ := List.cons.inj hcode
        have hcut : instructionAt pc ⟨instruction.opcode.byte⟩ (instruction.operands ++ rest) =
            .ok instruction :=
          instructionAt_eq_ok_iff.mpr ⟨hpc, rfl, hoperands, rest, rfl⟩
        rw [decodeFrom_cons, hcut]
        simp only [List.drop_left, hlater]

/-- From any place on, a body is decoded to the instructions that it is made of. -/
theorem decodeFrom_eq_ok_iff :
    decodeFrom pc code = .ok instructions ↔
      instructions.flatMap Instruction.bytes = code ∧ WellPlaced pc instructions := by
  induction instructions generalizing pc code with
  | nil =>
      rw [decodeFrom_eq_ok_nil_iff, List.flatMap_nil, eq_comm]
      exact (and_iff_left (wellPlaced_nil pc)).symm
  | cons instruction instructions ih =>
      simp only [decodeFrom_eq_ok_cons_iff, ih, wellPlaced_cons, List.flatMap_cons]
      constructor
      · rintro ⟨hpc, hoperands, rest, rfl, rfl, hplaced⟩
        exact ⟨rfl, ⟨hpc, hoperands⟩, hplaced⟩
      · rintro ⟨rfl, ⟨hpc, hoperands⟩, hplaced⟩
        exact ⟨hpc, hoperands, _, rfl, rfl, hplaced⟩

/-- Decoding accepts a body exactly if it is made of instructions in their
format, and then gives those instructions. -/
theorem decode_eq_ok_iff (code : List UInt8) (instructions : List Instruction) :
    decode code = .ok instructions ↔
      instructions.flatMap Instruction.bytes = code ∧
        ∀ earlier instruction later, instructions = earlier ++ instruction :: later →
          instruction.pc = (earlier.flatMap Instruction.bytes).length ∧
            instruction.opcode.byte < 0xca ∧
            Operands instruction.pc instruction.opcode instruction.operands := by
  rw [decode, decodeFrom_eq_ok_iff, WellPlaced]
  simp only [Nat.zero_add]
  refine and_congr_right fun _ => forall₄_congr fun _ instruction _ _ => and_congr_right fun _ => ?_
  exact ⟨fun hoperands => ⟨hoperands.byte_lt, hoperands⟩, And.right⟩

end Bytecode

end ClassWarden
