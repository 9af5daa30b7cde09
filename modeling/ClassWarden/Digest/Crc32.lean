/-!
# CRC-32

The checksum that archives keep of their entries: the remainder of the message
for the reflected polynomial `0xEDB88320`, complemented before and after.
-/

namespace ClassWarden.Crc32

/-- Division by one more bit. -/
def shift (remainder : UInt32) : UInt32 :=
  if remainder &&& 1 = 1 then (remainder >>> 1) ^^^ 0xEDB88320 else remainder >>> 1

/-- Division by one more byte of the message. -/
def step (remainder : UInt32) (byte : UInt8) : UInt32 :=
  Nat.repeat shift 8 (remainder ^^^ byte.toUInt32)

def checksum (message : List UInt8) : UInt32 :=
  ~~~ message.foldl step 0xFFFFFFFF

end ClassWarden.Crc32
