/-!
# Deflate streams

Decompression of the format of RFC 1951.  A stream is a chain of blocks, each
stored or coded with two prefix codes: one for bytes and match lengths, one for
the distances that matches reach back.  The window starts out filled with
zeros, so a match may reach back behind the first byte.  What follows the last
block is left alone.
-/

namespace ClassWarden.Inflate

inductive Fault where
  /-- The data ended before the last block did. -/
  | incomplete
  /-- The data is no stream of this format. -/
  | corrupt
  deriving DecidableEq, Repr

/-- Data and the number of bits read of it; the low bits of a byte come first. -/
structure Bits where
  data : ByteArray
  position : Nat

abbrev Decoder := StateT Bits (Except Fault)

def bit : Decoder Nat := fun input =>
  if h : input.position / 8 < input.data.size then
    let byte := input.data[input.position / 8]
    .ok (byte.toNat >>> (input.position % 8) % 2, { input with position := input.position + 1 })
  else .error .incomplete

/-- A number whose least significant bit comes first. -/
def bits : Nat → Decoder Nat
  | 0 => return 0
  | count + 1 => do
    let low ← bit
    return low + 2 * (← bits count)

def align : Decoder Unit :=
  modify fun input => { input with position := (input.position + 7) / 8 * 8 }

/-- A canonical prefix code: how many codewords there are of each length from
one to fifteen, and the symbols in the order of their codewords. -/
structure PrefixCode where
  counts : List Nat
  symbols : Array Nat

namespace PrefixCode

/-- The code in which each symbol has the given codeword length, zero for none. -/
def ofLengths (lengths : List Nat) : PrefixCode :=
  let ofLength (length : Nat) : List Nat :=
    lengths.zipIdx.filterMap fun (given, symbol) => if given = length then some symbol else none
  let groups := (List.range' 1 15).map ofLength
  { counts := groups.map List.length
    symbols := groups.flatten.toArray }

def size (code : PrefixCode) : Nat := code.symbols.size

/-- Whether every sequence of fifteen bits starts with exactly one codeword. -/
def isComplete (code : PrefixCode) : Bool :=
  code.counts.foldl (fun space count => 2 * space + count) 0 = 1 <<< 15

/-- A code that leaves bit sequences unused is accepted only for want of a
second symbol, and then a symbol that it has takes a single bit. -/
def isUsable (code : PrefixCode) : Bool :=
  code.isComplete || (code.size ≤ 1 && code.counts.head? = some code.size)

/-- Reads on through the lengths whose counts are left.  The codewords of the
current length start at `first`, and `passed` symbols have shorter ones.  Bits
that no symbol has are recognised as soon as no longer codeword is left. -/
def symbolFrom (code : PrefixCode) : List Nat → Nat → Nat → Nat → Decoder Nat
  | [], _, _, _ => throw .corrupt
  | count :: counts, word, first, passed => do
    let word := 2 * word + (← bit)
    if word < first + count then
      match code.symbols[passed + (word - first)]? with
      | some symbol => return symbol
      | none => throw .corrupt
    else if code.size ≤ passed + count then
      throw .corrupt
    else
      code.symbolFrom counts word (2 * (first + count)) (passed + count)

def symbol (code : PrefixCode) : Decoder Nat :=
  code.symbolFrom code.counts 0 0 0

end PrefixCode

/-- Lengths of matches by symbol: the shortest one, and the bits that add to it. -/
def lengthRanges : Array (Nat × Nat) := #[
  (3, 0), (4, 0), (5, 0), (6, 0), (7, 0), (8, 0), (9, 0), (10, 0), (11, 1), (13, 1), (15, 1),
  (17, 1), (19, 2), (23, 2), (27, 2), (31, 2), (35, 3), (43, 3), (51, 3), (59, 3), (67, 4),
  (83, 4), (99, 4), (115, 4), (131, 5), (163, 5), (195, 5), (227, 5), (258, 0)]

def distanceRanges : Array (Nat × Nat) := #[
  (1, 0), (2, 0), (3, 0), (4, 0), (5, 1), (7, 1), (9, 2), (13, 2), (17, 3), (25, 3), (33, 4),
  (49, 4), (65, 5), (97, 5), (129, 6), (193, 6), (257, 7), (385, 7), (513, 8), (769, 8),
  (1025, 9), (1537, 9), (2049, 10), (3073, 10), (4097, 11), (6145, 11), (8193, 12), (12289, 12),
  (16385, 13), (24577, 13)]

def rangeValue (ranges : Array (Nat × Nat)) (symbol : Nat) : Decoder Nat :=
  match ranges[symbol]? with
  | some (least, extra) => return least + (← bits extra)
  | none => throw .corrupt

/-- Repeats bytes of the window, one at a time, so that a match may run into
its own output. -/
def copyBack (distance : Nat) : Nat → ByteArray → ByteArray
  | 0, window => window
  | length + 1, window =>
    let byte :=
      if h : 0 < distance ∧ distance ≤ window.size then window[window.size - distance] else 0
    copyBack distance length (window.push byte)

/-- The bytes and matches of a coded block up to its end mark.  Each takes at
least one bit, so a budget of as many as there are bits is never used up. -/
def codedBlock (literals distances : PrefixCode) : Nat → ByteArray → Decoder ByteArray
  | 0, _ => throw .incomplete
  | budget + 1, window => do
    let symbol ← literals.symbol
    if symbol < 256 then
      codedBlock literals distances budget (window.push (UInt8.ofNat symbol))
    else if symbol = 256 then
      return window
    else
      let length ← rangeValue lengthRanges (symbol - 257)
      let distance ← rangeValue distanceRanges (← distances.symbol)
      codedBlock literals distances budget (copyBack distance length window)

/-- Bytes that stand for themselves, after their number and its complement. -/
def storedBlock (window : ByteArray) : Decoder ByteArray := do
  align
  let length ← bits 16
  let complement ← bits 16
  if length + complement ≠ 0xFFFF then throw .corrupt
  let input ← get
  let start := input.position / 8
  if start + length ≤ input.data.size then
    set { input with position := 8 * (start + length) }
    return window ++ input.data.extract start (start + length)
  else throw .incomplete

/-- The codes of blocks that do not bring their own. -/
def fixedLiterals : PrefixCode :=
  .ofLengths (List.replicate 144 8 ++ List.replicate 112 9 ++ List.replicate 24 7 ++
    List.replicate 8 8)

def fixedDistances : PrefixCode :=
  .ofLengths (List.replicate 32 5)

def lengthCodeOrder : List Nat :=
  [16, 17, 18, 0, 8, 7, 9, 6, 10, 5, 11, 4, 12, 3, 13, 2, 14, 1, 15]

/-- Codeword lengths up to `total`, last one first.  Every symbol of the length
code gives at least one, so a budget of `total` symbols is never used up. -/
def codewordLengths (lengthCode : PrefixCode) (total : Nat) :
    Nat → List Nat → Decoder (List Nat)
  | 0, lengths => return lengths
  | budget + 1, lengths => do
    if total ≤ lengths.length then return lengths
    let symbol ← lengthCode.symbol
    if symbol < 16 then
      codewordLengths lengthCode total budget (symbol :: lengths)
    else if symbol = 16 then
      match lengths with
      | [] => throw .corrupt
      | previous :: _ =>
        let count := 3 + (← bits 2)
        codewordLengths lengthCode total budget (List.replicate count previous ++ lengths)
    else
      let count ← if symbol = 17 then (3 + ·) <$> bits 3 else (11 + ·) <$> bits 7
      codewordLengths lengthCode total budget (List.replicate count 0 ++ lengths)

def blockCodes : Decoder (PrefixCode × PrefixCode) := do
  let literalCount := 257 + (← bits 5)
  let distanceCount := 1 + (← bits 5)
  let givenCount := 4 + (← bits 4)
  if literalCount > 286 || distanceCount > 30 then throw .corrupt
  let given ← (lengthCodeOrder.take givenCount).mapM fun symbol => return (symbol, ← bits 3)
  let lengthCode := PrefixCode.ofLengths <|
    (List.range 19).map fun symbol => (given.lookup symbol).getD 0
  if !lengthCode.isComplete then throw .corrupt
  let total := literalCount + distanceCount
  let lengths := (← codewordLengths lengthCode total total []).reverse
  -- The last length may be given by a repetition, which must not go beyond it.
  if lengths.length ≠ total then throw .corrupt
  let literals := PrefixCode.ofLengths (lengths.take literalCount)
  let distances := PrefixCode.ofLengths (lengths.drop literalCount)
  if !literals.isUsable || !distances.isUsable then throw .corrupt
  return (literals, distances)

/-- The blocks up to the one marked as last.  Each takes at least three bits, so
a budget of as many as there are bits is never used up. -/
def blocks (symbolBudget : Nat) : Nat → ByteArray → Decoder ByteArray
  | 0, _ => throw .incomplete
  | budget + 1, window => do
    let last ← bit
    let window ← match ← bits 2 with
      | 0 => storedBlock window
      | 1 => codedBlock fixedLiterals fixedDistances symbolBudget window
      | 2 =>
        let (literals, distances) ← blockCodes
        codedBlock literals distances symbolBudget window
      | _ => throw .corrupt
    if last = 1 then return window else blocks symbolBudget budget window

def inflate (data : ByteArray) : Except Fault ByteArray :=
  let budget := 8 * data.size + 1
  ((blocks budget budget .empty).run ⟨data, 0⟩).map Prod.fst

end ClassWarden.Inflate
