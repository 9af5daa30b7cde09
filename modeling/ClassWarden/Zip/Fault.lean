/-!
# Faults of archives

Causes for which an archive cannot be opened or one of its entries cannot be
read, and their wording.
-/

namespace ClassWarden.Zip

inductive Fault where
  /-- A field runs past the end of the file. -/
  | endOfFile
  /-- The file is shorter than the end record of an empty archive. -/
  | tooShort
  /-- There is no end record. -/
  | noDirectoryEnd
  /-- There is no room for the large end record that a locator announces. -/
  | noRoomForLargeEnd
  /-- The large end record is not where a locator announces it, or later. -/
  | noLargeEnd
  /-- The archive is spread over several disks. -/
  | multiDisk
  /-- The directory would start in front of the file or beyond all offsets. -/
  | directoryPlace
  /-- A directory header does not start with its mark. -/
  | directoryHeader
  /-- The local header of an entry would start beyond all offsets. -/
  | headerPlace
  | cipherFieldLength
  | cipherVendor
  | cipherVersion
  | cipherStrength
  /-- An entry is said to be enciphered, but not how. -/
  | cipherFieldMissing
  /-- A local header does not start with its mark. -/
  | localHeader
  | passwordRequired
  | compressionMethod
  | incompleteStream
  | corruptStream
  | checksum
  deriving DecidableEq, Repr

namespace Fault

/-- What is wrong with a file that is taken for an archive. -/
def invalid (reason : String) : String := "invalid Zip archive: " ++ reason

/-- What an archive needs and does not get. -/
def unsupported (reason : String) : String := "unsupported Zip archive: " ++ reason

def message : Fault → String
  | endOfFile => "failed to fill whole buffer"
  | tooShort => invalid "Invalid zip header"
  | noDirectoryEnd => invalid "Could not find central directory end"
  | noRoomForLargeEnd => invalid "File cannot contain ZIP64 central directory end"
  | noLargeEnd => invalid "Could not find ZIP64 central directory end"
  | multiDisk => unsupported "Support for multi-disk files is not implemented"
  | directoryPlace => invalid "Invalid central directory size or offset"
  | directoryHeader => invalid "Invalid Central Directory header"
  | headerPlace => invalid "Archive header is too large"
  | cipherFieldLength => unsupported "AES extra data field has an unsupported length"
  | cipherVendor => invalid "Invalid AES vendor"
  | cipherVersion => invalid "Invalid AES vendor version"
  | cipherStrength => invalid "Invalid AES encryption strength"
  | cipherFieldMissing => invalid "AES encryption without AES extra data field"
  | localHeader => invalid "Invalid local file header"
  | passwordRequired => unsupported "Password required to decrypt file"
  | compressionMethod => unsupported "Compression method not supported"
  | incompleteStream => "incomplete deflate stream"
  | corruptStream => "corrupt deflate stream"
  | checksum => "Invalid checksum"

end Fault

end ClassWarden.Zip
