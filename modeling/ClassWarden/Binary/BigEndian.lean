/-!
# Big-endian integers

Class files and method bodies store integers with the most significant byte
first.  Reading takes the bytes that were cut out; writing gives a fixed
number of them.
-/

namespace ClassWarden.BigEndian

/-- Value of any number of bytes, most significant first. -/
def toNat (bytes : List UInt8) : Nat :=
  bytes.foldl (fun value byte => 256 * value + byte.toNat) 0

/-- The lowest `width` bytes of a number, most significant first. -/
def ofNat : Nat → Nat → List UInt8
  | 0, _ => []
  | width + 1, value => ofNat width (value / 256) ++ [UInt8.ofNat value]

def ofUInt16 (value : UInt16) : List UInt8 := ofNat 2 value.toNat

def ofUInt32 (value : UInt32) : List UInt8 := ofNat 4 value.toNat

def ofUInt64 (value : UInt64) : List UInt8 := ofNat 8 value.toNat

def ofInt32 (value : Int32) : List UInt8 := ofUInt32 value.toUInt32

def ofInt64 (value : Int64) : List UInt8 := ofUInt64 value.toUInt64

/-- The signed 32-bit integer at the start of the bytes, if four are there. -/
def int32? (bytes : List UInt8) : Option Int :=
  let field := bytes.take 4
  if field.length = 4 then some (Int.bmod (toNat field) UInt32.size) else none

end ClassWarden.BigEndian
