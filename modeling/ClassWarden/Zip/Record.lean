import ClassWarden.Compression.Inflate
import ClassWarden.Digest.Crc32
import ClassWarden.Zip.Directory

/-!
# The records of an archive

What an archive offers of each of its entries: a name, once its local header is
found, and the bytes behind that header.  A fault in one entry leaves the
others as they are, and an entry whose header is faulty has no readable bytes.
-/

namespace ClassWarden.Zip

namespace Entry

def localHeaderSize : Nat := 30

def localMark : Nat := 0x04034b50

/-- Where the data behind the local header starts. -/
def dataPlace (bytes : Bytes) (entry : Entry) : Except Fault Nat := do
  if (← fieldAt bytes entry.headerPlace 4) ≠ localMark then throw .localHeader
  else
    let nameSize ← fieldAt bytes (entry.headerPlace + 26) 2
    let extraSize ← fieldAt bytes (entry.headerPlace + 28) 2
    return entry.headerPlace + localHeaderSize + nameSize + extraSize

/-- The entry's name, if its local header can be found. -/
def header (bytes : Bytes) (entry : Entry) : Except Fault String := do
  let _ ← entry.dataPlace bytes
  return entry.name

def expand (compression : Nat) (run : ByteArray) : Except Fault ByteArray :=
  if compression = 0 then .ok run
  else if compression = 8 then
    match Inflate.inflate run with
    | .ok plain => .ok plain
    | .error .incomplete => .error .incompleteStream
    | .error .corrupt => .error .corruptStream
  else .error .compressionMethod

/-- The entry's bytes.  Data that ends early is read as far as it goes; the
checksum tells whether the result is right. -/
def content (bytes : Bytes) (entry : Entry) : Except Fault (List UInt8) := do
  if entry.needsPassword then throw .passwordRequired
  else
    let place ← entry.dataPlace bytes
    let plain ← expand entry.compression (runAt bytes place entry.compressedSize)
    let plain := plain.data.toList
    if (Crc32.checksum plain).toNat ≠ entry.checksum then throw .checksum
    else return plain

end Entry

/-- An entry as far as it can be read. -/
structure Record where
  header : Except Fault String
  content : Except Fault (List UInt8)

def records (archive : List UInt8) : Except Fault (List Record) :=
  let bytes : Bytes := ⟨archive.toArray⟩
  (entries bytes).map fun entries =>
    entries.map fun entry => ⟨entry.header bytes, entry.content bytes⟩

end ClassWarden.Zip
