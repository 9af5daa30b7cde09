import ClassWarden.Binary.BigEndian
import ClassWarden.DecodeError

/-!
# Sequential reading

A reader consumes bytes from the front and counts them, so that a failure can
tell where in the data the field stands that was cut short.  Every read goes
through `Reader.block`, which either takes all the bytes asked for or none.
-/

namespace ClassWarden

/-- The bytes still to be read and how many were read before them. -/
structure Cursor where
  offset : Nat
  rest : List UInt8
  deriving DecidableEq, Repr

/-- The front of some data. -/
def Cursor.start (bytes : List UInt8) : Cursor := ⟨0, bytes⟩

/-- A computation that consumes bytes and may stop with a failure. -/
abbrev Reader := StateT Cursor (Except DecodeError)

namespace Reader

/-- The next `size` bytes, which hold the field named by `context`. -/
def block (context : String) (size : Nat) : Reader (List UInt8) := fun cursor =>
  let bytes := cursor.rest.take size
  if bytes.length = size then
    .ok (bytes, ⟨cursor.offset + size, cursor.rest.drop size⟩)
  else
    .error (.unexpectedEnd cursor.offset context)

/-- The next field as an unsigned number of `size` bytes. -/
def number (context : String) (size : Nat) : Reader Nat := do
  return BigEndian.toNat (← block context size)

def u8 (context : String) : Reader UInt8 := do
  return UInt8.ofNat (← number context 1)

def u16 (context : String) : Reader UInt16 := do
  return UInt16.ofNat (← number context 2)

def u32 (context : String) : Reader UInt32 := do
  return UInt32.ofNat (← number context 4)

def u64 (context : String) : Reader UInt64 := do
  return UInt64.ofNat (← number context 8)

def fail {α : Type} (failure : DecodeError) : Reader α := fun _ => .error failure

def times {α : Type} (read : Reader α) : Nat → Reader (List α)
  | 0 => return []
  | count + 1 => do
    let value ← read
    return value :: (← times read count)

/-- What a reader finds at the front of some data. -/
def run {α : Type} (read : Reader α) (bytes : List UInt8) : Except DecodeError α :=
  (read (Cursor.start bytes)).map Prod.fst

end Reader

end ClassWarden
