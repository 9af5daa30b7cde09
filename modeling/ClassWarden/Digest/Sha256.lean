import ClassWarden.Binary.BigEndian
import ClassWarden.Text.Hex

/-!
# SHA-256

The digest of FIPS 180-4 over lists of bytes.  The message is padded to blocks
of sixteen words; each block is stretched to sixty-four words, which drive the
same number of rounds on eight working words.
-/

namespace ClassWarden.Sha256

structure Words where
  a : UInt32
  b : UInt32
  c : UInt32
  d : UInt32
  e : UInt32
  f : UInt32
  g : UInt32
  h : UInt32
  deriving DecidableEq, Repr

/-- Fractions of the square roots of the first eight primes. -/
def start : Words :=
  ⟨0x6a09e667, 0xbb67ae85, 0x3c6ef372, 0xa54ff53a,
   0x510e527f, 0x9b05688c, 0x1f83d9ab, 0x5be0cd19⟩

/-- Fractions of the cube roots of the first sixty-four primes. -/
def roundConstants : List UInt32 := [
  0x428a2f98, 0x71374491, 0xb5c0fbcf, 0xe9b5dba5, 0x3956c25b, 0x59f111f1, 0x923f82a4, 0xab1c5ed5,
  0xd807aa98, 0x12835b01, 0x243185be, 0x550c7dc3, 0x72be5d74, 0x80deb1fe, 0x9bdc06a7, 0xc19bf174,
  0xe49b69c1, 0xefbe4786, 0x0fc19dc6, 0x240ca1cc, 0x2de92c6f, 0x4a7484aa, 0x5cb0a9dc, 0x76f988da,
  0x983e5152, 0xa831c66d, 0xb00327c8, 0xbf597fc7, 0xc6e00bf3, 0xd5a79147, 0x06ca6351, 0x14292967,
  0x27b70a85, 0x2e1b2138, 0x4d2c6dfc, 0x53380d13, 0x650a7354, 0x766a0abb, 0x81c2c92e, 0x92722c85,
  0xa2bfe8a1, 0xa81a664b, 0xc24b8b70, 0xc76c51a3, 0xd192e819, 0xd6990624, 0xf40e3585, 0x106aa070,
  0x19a4c116, 0x1e376c08, 0x2748774c, 0x34b0bcb5, 0x391c0cb3, 0x4ed8aa4a, 0x5b9cca4f, 0x682e6ff3,
  0x748f82ee, 0x78a5636f, 0x84c87814, 0x8cc70208, 0x90befffa, 0xa4506ceb, 0xbef9a3f7, 0xc67178f2]

def rotateRight (word : UInt32) (amount : UInt32) : UInt32 :=
  (word >>> amount) ||| (word <<< (32 - amount))

/-- The word that extends a schedule, from the ones 16, 15, 7 and 2 places back. -/
def nextWord (words : Array UInt32) : UInt32 :=
  let back (distance : Nat) := words.getD (words.size - distance) 0
  let near := back 2
  let far := back 15
  back 16 + (rotateRight far 7 ^^^ rotateRight far 18 ^^^ (far >>> 3)) + back 7 +
    (rotateRight near 17 ^^^ rotateRight near 19 ^^^ (near >>> 10))

def stretch : Nat → Array UInt32 → Array UInt32
  | 0, words => words
  | count + 1, words => stretch count (words.push (nextWord words))

def round (state : Words) (drive : UInt32 × UInt32) : Words :=
  let ⟨a, b, c, d, e, f, g, h⟩ := state
  let choice := (e &&& f) ^^^ ((~~~e) &&& g)
  let majority := (a &&& b) ^^^ (a &&& c) ^^^ (b &&& c)
  let upper := rotateRight e 6 ^^^ rotateRight e 11 ^^^ rotateRight e 25
  let lower := rotateRight a 2 ^^^ rotateRight a 13 ^^^ rotateRight a 22
  let first := h + upper + choice + drive.1 + drive.2
  ⟨first + lower + majority, a, b, c, d + first, e, f, g⟩

/-- The chaining value after one more block of sixteen words. -/
def compress (state : Words) (block : List UInt32) : Words :=
  let schedule := (stretch 48 block.toArray).toList
  let worked := (roundConstants.zip schedule).foldl round state
  ⟨state.a + worked.a, state.b + worked.b, state.c + worked.c, state.d + worked.d,
   state.e + worked.e, state.f + worked.f, state.g + worked.g, state.h + worked.h⟩

/-- The message followed by a one bit, zeros up to the end of a block less
eight bytes, and its length in bits. -/
def pad (message : List UInt8) : List UInt8 :=
  let zeros := (119 - message.length % 64) % 64
  message ++ 0x80 :: List.replicate zeros 0 ++ BigEndian.ofNat 8 (8 * message.length)

def words : List UInt8 → List UInt32
  | a :: b :: c :: d :: rest => UInt32.ofNat (BigEndian.toNat [a, b, c, d]) :: words rest
  | _ => []

/-- The chaining value after all blocks of a list of words. -/
def digestFrom (state : Words) (remaining : List UInt32) : Words :=
  match remaining with
  | [] => state
  | word :: rest =>
    digestFrom (compress state ((word :: rest).take 16)) ((word :: rest).drop 16)
termination_by remaining.length

/-- The thirty-two bytes of the digest. -/
def digest (message : List UInt8) : List UInt8 :=
  let final := digestFrom start (words (pad message))
  [final.a, final.b, final.c, final.d, final.e, final.f, final.g, final.h].flatMap fun word =>
    BigEndian.ofNat 4 word.toNat

def text (message : List UInt8) : String :=
  Hex.encode (digest message)

end ClassWarden.Sha256
