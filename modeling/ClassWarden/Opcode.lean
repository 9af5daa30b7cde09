import ClassWarden.Text.Hex

/-!
# Instruction opcodes

The first byte of an instruction.  The assigned bytes run without a gap from
`0x00` to `0xc9`, each with a mnemonic; the bytes above them are reserved and
stand for no instruction in a method body.
-/

namespace ClassWarden

/-- An instruction's first byte, assigned or not. -/
structure Opcode where
  byte : UInt8
  deriving DecidableEq, Repr

namespace Opcode

/-- Mnemonics of the assigned opcodes in byte order. -/
def mnemonics : Array String := #[
  "nop", "aconst_null", "iconst_m1", "iconst_0", "iconst_1", "iconst_2", "iconst_3", "iconst_4",
  "iconst_5", "lconst_0", "lconst_1", "fconst_0", "fconst_1", "fconst_2", "dconst_0", "dconst_1",
  "bipush", "sipush", "ldc", "ldc_w", "ldc2_w", "iload", "lload", "fload", "dload", "aload",
  "iload_0", "iload_1", "iload_2", "iload_3", "lload_0", "lload_1", "lload_2", "lload_3",
  "fload_0", "fload_1", "fload_2", "fload_3", "dload_0", "dload_1", "dload_2", "dload_3",
  "aload_0", "aload_1", "aload_2", "aload_3", "iaload", "laload", "faload", "daload", "aaload",
  "baload", "caload", "saload", "istore", "lstore", "fstore", "dstore", "astore", "istore_0",
  "istore_1", "istore_2", "istore_3", "lstore_0", "lstore_1", "lstore_2", "lstore_3", "fstore_0",
  "fstore_1", "fstore_2", "fstore_3", "dstore_0", "dstore_1", "dstore_2", "dstore_3", "astore_0",
  "astore_1", "astore_2", "astore_3", "iastore", "lastore", "fastore", "dastore", "aastore",
  "bastore", "castore", "sastore", "pop", "pop2", "dup", "dup_x1", "dup_x2", "dup2", "dup2_x1",
  "dup2_x2", "swap", "iadd", "ladd", "fadd", "dadd", "isub", "lsub", "fsub", "dsub", "imul",
  "lmul", "fmul", "dmul", "idiv", "ldiv", "fdiv", "ddiv", "irem", "lrem", "frem", "drem", "ineg",
  "lneg", "fneg", "dneg", "ishl", "lshl", "ishr", "lshr", "iushr", "lushr", "iand", "land", "ior",
  "lor", "ixor", "lxor", "iinc", "i2l", "i2f", "i2d", "l2i", "l2f", "l2d", "f2i", "f2l", "f2d",
  "d2i", "d2l", "d2f", "i2b", "i2c", "i2s", "lcmp", "fcmpl", "fcmpg", "dcmpl", "dcmpg", "ifeq",
  "ifne", "iflt", "ifge", "ifgt", "ifle", "if_icmpeq", "if_icmpne", "if_icmplt", "if_icmpge",
  "if_icmpgt", "if_icmple", "if_acmpeq", "if_acmpne", "goto", "jsr", "ret", "tableswitch",
  "lookupswitch", "ireturn", "lreturn", "freturn", "dreturn", "areturn", "return", "getstatic",
  "putstatic", "getfield", "putfield", "invokevirtual", "invokespecial", "invokestatic",
  "invokeinterface", "invokedynamic", "new", "newarray", "anewarray", "arraylength", "athrow",
  "checkcast", "instanceof", "monitorenter", "monitorexit", "wide", "multianewarray", "ifnull",
  "ifnonnull", "goto_w", "jsr_w"]

/-- The mnemonic of an assigned opcode. -/
def mnemonic? (opcode : Opcode) : Option String :=
  mnemonics[opcode.byte.toNat]?

/-- Whether the byte is assigned to an instruction. -/
def isAssigned (opcode : Opcode) : Bool :=
  opcode.mnemonic?.isSome

/-- The upper-case mnemonic, or the byte in hexadecimal where there is none. -/
def display (opcode : Opcode) : String :=
  match opcode.mnemonic? with
  | some mnemonic => mnemonic.toUpper
  | none => "0x" ++ String.ofList (Hex.pair opcode.byte)

/-- Pushes the small constant `n`, for `n` from one to five. -/
def iconst (n : Nat) : Opcode := ⟨UInt8.ofNat (3 + n)⟩

def bipush : Opcode := ⟨0x10⟩
def bastore : Opcode := ⟨0x54⟩
def dup : Opcode := ⟨0x59⟩
def iinc : Opcode := ⟨0x84⟩
def tableswitch : Opcode := ⟨0xaa⟩
def lookupswitch : Opcode := ⟨0xab⟩
def invokevirtual : Opcode := ⟨0xb6⟩
def invokespecial : Opcode := ⟨0xb7⟩
def invokestatic : Opcode := ⟨0xb8⟩
def new : Opcode := ⟨0xbb⟩
def wide : Opcode := ⟨0xc4⟩

end Opcode

end ClassWarden
