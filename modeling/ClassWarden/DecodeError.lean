import ClassWarden.Text.Hex

/-!
# Failures of decoding

Causes for which a class file, or one of its method bodies, cannot be decoded.
Each ends the decoding of that class and of nothing else.
-/

namespace ClassWarden

inductive DecodeError where
  /-- The data ended inside the field named by `context`, which starts at `offset`. -/
  | unexpectedEnd (offset : Nat) (context : String)
  /-- The file does not start with the class-file magic number. -/
  | badMagic (found : UInt32)
  /-- A constant of no known kind stands at pool index `index`. -/
  | unknownTag (tag : UInt8) (index : Nat)
  /-- A reserved byte stands where an instruction should start. -/
  | undefinedOpcode (byte : UInt8) (pc : Nat)
  /-- The operands of an instruction contradict themselves or are cut short. -/
  | malformed (mnemonic : String) (pc : Nat)
  deriving DecidableEq, Repr

namespace DecodeError

/-- The failure in words. -/
def message : DecodeError → String
  | unexpectedEnd offset context =>
    s!"unexpected end of data at byte {offset} while reading {context}"
  | badMagic found => "invalid magic number 0x" ++ Hex.word found
  | unknownTag tag index => s!"unknown constant pool tag {tag} at index {index}"
  | undefinedOpcode byte pc =>
    s!"undefined opcode 0x{Hex.encode [byte]} at bytecode offset {pc}"
  | malformed mnemonic pc => s!"malformed {mnemonic} instruction at bytecode offset {pc}"

end DecodeError

end ClassWarden
