/-!
# Little-endian integers

Archives store integers with the least significant byte first.
-/

namespace ClassWarden.LittleEndian

/-- Value of any number of bytes, least significant first. -/
def toNat : List UInt8 → Nat
  | [] => 0
  | byte :: rest => byte.toNat + 256 * toNat rest

/-- The integer in the first `width` bytes and what follows it, if they are all
there. -/
def take? (width : Nat) (bytes : List UInt8) : Option (Nat × List UInt8) :=
  let field := bytes.take width
  if field.length = width then some (toNat field, bytes.drop width) else none

end ClassWarden.LittleEndian
