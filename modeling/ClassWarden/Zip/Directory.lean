import ClassWarden.Binary.LittleEndian
import ClassWarden.Text.CodePage437
import ClassWarden.Text.Utf8
import ClassWarden.Zip.Fault

/-!
# The directory of an archive

An archive is read from its end.  The end record tells where the directory
stands; a second, larger end record takes over if a locator stands in front of
the first.  Data in front of the archive shifts all its offsets, and the shift
is found from where the records really are.

The directory has one header per entry.  Headers are read one after another,
as many as the end record counts, and a header that cannot be read spoils the
whole directory.
-/

namespace ClassWarden.Zip

/-- An archive's bytes, addressed from the front. -/
abbrev Bytes := ByteArray

/-- The bytes at a place, as many of them as there are up to some number. -/
def runAt (bytes : Bytes) (place size : Nat) : ByteArray :=
  bytes.extract (min place bytes.size) (min (place + size) bytes.size)

/-- The bytes at a place, which have to be there in full. -/
def bytesAt (bytes : Bytes) (place size : Nat) : Except Fault (List UInt8) :=
  let run := (runAt bytes place size).data.toList
  if run.length = size then .ok run else .error .endOfFile

def fieldAt (bytes : Bytes) (place width : Nat) : Except Fault Nat :=
  (bytesAt bytes place width).map LittleEndian.toNat

/-- Offsets and sizes are below this number. -/
def offsetBound : Nat := UInt64.size

/-- A 32-bit size or offset that is given elsewhere. -/
def elsewhere : Nat := UInt32.size - 1

/-- Where the directory stands and how many headers it has. -/
structure Directory where
  /-- Bytes in front of the archive, by which its offsets fall short. -/
  shift : Nat
  start : Nat
  count : Nat
  deriving DecidableEq, Repr

/-- What the directory tells of an entry. -/
structure Entry where
  name : String
  needsPassword : Bool
  compression : Nat
  /-- The entry is enciphered, in a way that an extra field tells. -/
  enciphered : Bool
  checksum : Nat
  compressedSize : Nat
  plainSize : Nat
  headerPlace : Nat
  deriving DecidableEq, Repr

structure EndRecord where
  place : Nat
  disk : Nat
  directoryDisk : Nat
  entriesHere : Nat
  entries : Nat
  directorySize : Nat
  directoryOffset : Nat
  commentSize : Nat
  deriving DecidableEq, Repr

namespace EndRecord

def size : Nat := 22

def mark : Nat := 0x06054b50

/-- The last place, of some number of places up to `place`, where a mark stands. -/
def lastMark? (bytes : Bytes) (place : Nat) : Nat → Option Nat
  | 0 => none
  | places + 1 =>
    match fieldAt bytes place 4 with
    | .ok found => if found = mark then some place else lastMark? bytes (place - 1) places
    | .error _ => lastMark? bytes (place - 1) places

/-- The record at a place, which has to come with its comment in full. -/
def readAt (bytes : Bytes) (place : Nat) : Except Fault EndRecord := do
  let commentSize ← fieldAt bytes (place + 20) 2
  let _ ← bytesAt bytes (place + size) commentSize
  return {
    place
    disk := ← fieldAt bytes (place + 4) 2
    directoryDisk := ← fieldAt bytes (place + 6) 2
    entriesHere := ← fieldAt bytes (place + 8) 2
    entries := ← fieldAt bytes (place + 10) 2
    directorySize := ← fieldAt bytes (place + 12) 4
    directoryOffset := ← fieldAt bytes (place + 16) 4
    commentSize }

/-- The last record whose comment could still reach the end of the file. -/
def find (bytes : Bytes) : Except Fault EndRecord :=
  if bytes.size < size then .error .tooShort
  else
    let last := bytes.size - size
    match lastMark? bytes last (min last 0xFFFF + 1) with
    | some place => readAt bytes place
    | none => .error .noDirectoryEnd

/-- Whether some field of the record is given elsewhere. -/
def isOverflowing (record : EndRecord) : Bool :=
  record.disk == 0xFFFF || record.directoryDisk == 0xFFFF || record.entriesHere == 0xFFFF ||
    record.entries == 0xFFFF || record.directorySize == elsewhere ||
    record.directoryOffset == elsewhere

def directory (record : EndRecord) : Except Fault Directory :=
  let extent := record.directorySize + record.directoryOffset
  if record.place < extent then .error .directoryPlace
  else
    let shift := record.place - extent
    .ok ⟨shift, record.directoryOffset + shift, record.entriesHere⟩

end EndRecord

/-- Stands between the large end record and the small one. -/
structure Locator where
  disk : Nat
  recordOffset : Nat
  deriving DecidableEq, Repr

namespace Locator

def size : Nat := 20

def mark : Nat := 0x07064b50

/-- The locator right in front of an end record that reaches the end of the
file, if there is one. -/
def find? (bytes : Bytes) (record : EndRecord) : Option Locator :=
  let tail := size + EndRecord.size + record.commentSize
  if bytes.size < tail then none
  else
    let place := bytes.size - tail
    match fieldAt bytes place 4, fieldAt bytes (place + 4) 4, fieldAt bytes (place + 8) 8 with
    | .ok found, .ok disk, .ok recordOffset =>
      if found = mark then some ⟨disk, recordOffset⟩ else none
    | _, _, _ => none

end Locator

namespace LargeEndRecord

/-- A large end record starts at least this far in front of the small one. -/
def leastGap : Nat := 60

def mark : Nat := 0x06064b50

/-- The first place, of some number of places from `place` on, where a mark
stands. -/
def firstMark? (bytes : Bytes) (place : Nat) : Nat → Option Nat
  | 0 => none
  | places + 1 =>
    match fieldAt bytes place 4 with
    | .ok found => if found = mark then some place else firstMark? bytes (place + 1) places
    | .error _ => firstMark? bytes (place + 1) places

/-- The directory that the large end record points at.  The record is looked for
from the place that the locator tells up to `bound`. -/
def directory (bytes : Bytes) (locator : Locator) (bound : Nat) : Except Fault Directory := do
  match firstMark? bytes locator.recordOffset (bound + 1 - locator.recordOffset) with
  | none => throw .noLargeEnd
  | some place =>
    let disk ← fieldAt bytes (place + 16) 4
    let directoryDisk ← fieldAt bytes (place + 20) 4
    let count ← fieldAt bytes (place + 32) 8
    let offset ← fieldAt bytes (place + 48) 8
    let shift := place - locator.recordOffset
    if disk ≠ directoryDisk then throw .multiDisk
    else if offsetBound ≤ offset + shift then throw .directoryPlace
    else return ⟨shift, offset + shift, count⟩

end LargeEndRecord

def directory (bytes : Bytes) : Except Fault Directory := do
  let record ← EndRecord.find bytes
  if !record.isOverflowing && record.disk != record.directoryDisk then throw .multiDisk
  else
    match Locator.find? bytes record with
    | none => record.directory
    | some locator =>
      if !record.isOverflowing && record.disk != locator.disk then throw .multiDisk
      else if record.place < LargeEndRecord.leastGap then throw .noRoomForLargeEnd
      else LargeEndRecord.directory bytes locator (record.place - LargeEndRecord.leastGap)

namespace Entry

/-- An 8-byte number from the front of a field's data, for a value that is
given elsewhere; any other value stays and takes no bytes. -/
def widen (value : Nat) (data : List UInt8) : Option (Nat × List UInt8) :=
  if value = elsewhere then LittleEndian.take? 8 data else some (value, data)

/-- The entry with the sizes and the place that a field gives, and what follows
them; nothing follows if the data ends first. -/
def readWide (entry : Entry) (data : List UInt8) : Entry × List UInt8 :=
  match widen entry.plainSize data with
  | none => (entry, [])
  | some (plainSize, data) =>
    let entry := { entry with plainSize }
    match widen entry.compressedSize data with
    | none => (entry, [])
    | some (compressedSize, data) =>
      let entry := { entry with compressedSize }
      match widen entry.headerPlace data with
      | none => (entry, [])
      | some (headerPlace, data) => ({ entry with headerPlace }, data)

/-- The entry as a cipher field tells it, unless the data ends first. -/
def readCipher (entry : Entry) (data : List UInt8) : Except Fault Entry :=
  match LittleEndian.take? 2 data, LittleEndian.take? 2 (data.drop 2),
      LittleEndian.take? 1 (data.drop 4), LittleEndian.take? 2 (data.drop 5) with
  | some (version, _), some (vendor, _), some (strength, _), some (compression, _) =>
    if vendor ≠ 0x4541 then .error .cipherVendor
    else if version ≠ 1 ∧ version ≠ 2 then .error .cipherVersion
    else if strength < 1 ∨ 3 < strength then .error .cipherStrength
    else .ok { entry with enciphered := true, compression }
  | _, _, _, _ => .ok entry

/-- The entry as its extra fields tell it.  A field that is cut short ends them.
A field of wide numbers may take more bytes than it declares; a cipher field's
declared length is passed over once more behind it. -/
def readExtra (entry : Entry) (extra : List UInt8) : Except Fault Entry :=
  match extra with
  | idLow :: idHigh :: lengthLow :: lengthHigh :: data =>
    let id := LittleEndian.toNat [idLow, idHigh]
    let length := LittleEndian.toNat [lengthLow, lengthHigh]
    if id = 1 then
      let read := entry.readWide data
      readExtra read.1 (data.drop (max length (data.length - read.2.length)))
    else if id = 0x9901 then
      if length ≠ 7 then .error .cipherFieldLength
      else
        match entry.readCipher data with
        | .error fault => .error fault
        | .ok entry => readExtra entry (data.drop (7 + length))
    else readExtra entry (data.drop length)
  | _ => .ok entry
termination_by extra.length
decreasing_by
  all_goals
    simp only [List.length_drop, List.length_cons]
    omega

def headerSize : Nat := 46

def headerMark : Nat := 0x02014b50

/-- The directory header at a place, with what it tells of its entry and where
it ends.  Names are in code page 437 unless the header declares UTF-8. -/
def readAt (bytes : Bytes) (shift place : Nat) : Except Fault (Entry × Nat) := do
  if (← fieldAt bytes place 4) ≠ headerMark then throw .directoryHeader
  else
    let flags ← fieldAt bytes (place + 8) 2
    let compression ← fieldAt bytes (place + 10) 2
    let checksum ← fieldAt bytes (place + 16) 4
    let compressedSize ← fieldAt bytes (place + 20) 4
    let plainSize ← fieldAt bytes (place + 24) 4
    let nameSize ← fieldAt bytes (place + 28) 2
    let extraSize ← fieldAt bytes (place + 30) 2
    let commentSize ← fieldAt bytes (place + 32) 2
    let headerPlace ← fieldAt bytes (place + 42) 4
    let name ← bytesAt bytes (place + headerSize) nameSize
    let extra ← bytesAt bytes (place + headerSize + nameSize) extraSize
    let _ ← bytesAt bytes (place + headerSize + nameSize + extraSize) commentSize
    let declared : Entry := {
      name := if flags.testBit 11 then Utf8.decode name else CodePage437.decode name
      needsPassword := flags.testBit 0
      compression, checksum, compressedSize, plainSize, headerPlace
      enciphered := false }
    let entry ← declared.readExtra extra
    -- Method 99 means a cipher, whose field tells the method beneath it.
    if entry.compression = 99 ∧ !entry.enciphered then throw .cipherFieldMissing
    else if offsetBound ≤ entry.headerPlace + shift then throw .headerPlace
    else
      return ({ entry with headerPlace := entry.headerPlace + shift },
        place + headerSize + nameSize + extraSize + commentSize)

end Entry

def entriesFrom (bytes : Bytes) (shift : Nat) : Nat → Nat → Except Fault (List Entry)
  | 0, _ => .ok []
  | count + 1, place =>
    match Entry.readAt bytes shift place with
    | .error fault => .error fault
    | .ok (entry, next) =>
      match entriesFrom bytes shift count next with
      | .error fault => .error fault
      | .ok entries => .ok (entry :: entries)

def entries (bytes : Bytes) : Except Fault (List Entry) := do
  let directory ← directory bytes
  entriesFrom bytes directory.shift directory.count directory.start

end ClassWarden.Zip
