import ClassWarden.ClassFile
import ClassWarden.Digest.Sha256
import ClassWarden.Note
import ClassWarden.OsError
import ClassWarden.Signature.Catalog
import ClassWarden.Zip.Record

/-!
# Detection

Brings one subject to its verdict.  A class is decoded and its methods are
compared with the signatures; an archive is opened and each of its classes
becomes a subject of its own.  Whatever goes wrong becomes the verdict of the
subject that it happened to.
-/

namespace ClassWarden

/-- What the file system answers when a file is to be read. -/
inductive FileAnswer where
  | bytes (bytes : List UInt8)
  /-- The path leads to a directory, which can be opened but not read. -/
  | directory
  | refused (error : OsError)
  deriving DecidableEq, Repr

/-- Signatures and how they are matched. -/
structure Detector where
  signatures : List Signature
  options : MatchOptions

namespace Detector

def standard (options : MatchOptions) : Detector := ⟨Signature.catalog, options⟩

/-- The findings in a list of methods, up to the first method whose code cannot
be decoded, and why it cannot. -/
def scanMethods (detector : Detector) (pool : ConstantPool) :
    List Method → List Finding × Option DecodeError
  | [] => ([], none)
  | method :: methods =>
    match method.code with
    | none => detector.scanMethods pool methods
    | some code =>
      match Bytecode.decode code with
      | .error failure => ([], some failure)
      | .ok instructions =>
        let found := Matching.scanMethod detector.options detector.signatures
          (method.displayName pool) (SymbolicInstruction.stream pool instructions)
        let later := detector.scanMethods pool methods
        (found ++ later.1, later.2)

/-- The findings in a class, up to the point where it cannot be decoded, and why
it cannot. -/
def inspect (detector : Detector) (bytes : List UInt8) : List Finding × Option DecodeError :=
  match ClassFile.parse bytes with
  | .error failure => ([], some failure)
  | .ok file => detector.scanMethods file.pool file.methods

/-- The findings in a class that can be decoded throughout. -/
def findMatches (detector : Detector) (bytes : List UInt8) : Except DecodeError (List Finding) :=
  match detector.inspect bytes with
  | (findings, none) => .ok findings
  | (_, some failure) => .error failure

def beginLoading (subject : Subject) : Logged Subject :=
  if subject.status = .added then subject.advance .load else pure subject

/-- Compares the bytes of a class with the signatures and settles it.  The
digest is kept whatever comes of the comparison. -/
def scanClass (detector : Detector) (subject : Subject) (bytes : List UInt8) :
    Logged Subject := do
  let loading ← beginLoading subject
  let scanning ← loading.advance .scan
  -- A rejected event does not keep the digest from being set.
  let scanning := { scanning with sha256 := some (Sha256.text bytes) }
  let (findings, failure?) := detector.inspect bytes
  Logged.remark (findings.map .matched)
  match failure? with
  | some failure => do
    Logged.remark [.undecodable scanning.name failure]
    scanning.fail failure.message
  | none => do
    if !findings.isEmpty then
      Logged.remark [.suspicious scanning.name findings.length]
    scanning.advance (.complete findings)

def isDirectoryName (name : String) : Bool :=
  match name.toList.getLast? with
  | some last => last = '/' || last = '\\'
  | none => false

/-- The subject that an entry becomes: a class, or whatever cannot be named. -/
def discover (index : Nat) (record : Zip.Record) : Logged (Option Subject) :=
  match record.header with
  | .ok name =>
    if !isDirectoryName name && Subject.hasSuffix name ".class" then
      pure (some (.discovered name (.entry index)))
    else pure none
  | .error fault => do
    Logged.remark [.unreadableHeader index fault]
    return some (.discovered s!"entry #{index}" (.entry index))

/-- The subjects among the entries from an index on, each with its record. -/
def discoverFrom : Nat → List Zip.Record → Logged (List (Subject × Zip.Record))
  | _, [] => pure []
  | index, record :: records => do
    let subject? ← discover index record
    let later ← discoverFrom (index + 1) records
    return (subject?.map (·, record)).toList ++ later

def scanEntry (detector : Detector) (subject : Subject) (record : Zip.Record) :
    Logged Subject :=
  match record.content with
  | .error fault => do
    Logged.remark [.unreadableEntry subject.name fault]
    subject.fail ("Unable to read entry: " ++ fault.message)
  | .ok bytes =>
    if bytes.isEmpty then subject.fail "File is empty" else detector.scanClass subject bytes

def scanEntries (detector : Detector) : List (Subject × Zip.Record) → Logged (List Subject)
  | [] => pure []
  | (subject, record) :: entries => do
    let settled ← detector.scanEntry subject record
    return settled :: (← detector.scanEntries entries)

/-- Scans the records of an opened archive and settles it by their verdicts. -/
def scanRecords (detector : Detector) (subject : Subject) (records : List Zip.Record) :
    Logged Subject := do
  let entries ← discoverFrom 0 records
  let scanning ← subject.advance .scan
  Logged.remark [.entries scanning.name entries.length]
  let settled ← detector.scanEntries entries
  scanning.advance (.settle settled)

def archiveBytes (files : String → FileAnswer) : Content → Except String (List UInt8)
  | .file path =>
    match files path with
    | .bytes bytes => .ok bytes
    | .directory => .error s!"Unable to map {path}: {OsError.noDevice.message}"
    | .refused error => .error s!"Unable to open {path}: {error.message}"
  | .memory bytes => .ok bytes
  | .entry _ => .error "Nested archives are not scanned"
  | .missing => .error "File in jar is missing"

def classBytes (files : String → FileAnswer) : Content → Except String (List UInt8)
  | .file path =>
    match files path with
    | .bytes bytes => .ok bytes
    | .directory => .error s!"Unable to read {path}: {OsError.isDirectory.message}"
    | .refused error => .error s!"Unable to read {path}: {error.message}"
  | .memory bytes => .ok bytes
  | .entry _ => .error "Archive entry cannot be read outside its archive"
  | .missing => .error "File is missing"

def scanArchive (detector : Detector) (files : String → FileAnswer) (subject : Subject) :
    Logged Subject :=
  match archiveBytes files subject.content with
  | .error message => subject.fail message
  | .ok bytes =>
    let subject := { subject with sha256 := some (Sha256.text bytes) }
    match Zip.records bytes with
    | .error fault => do
      Logged.remark [.unreadableArchive subject.name fault]
      subject.fail ("Unable to read archive: " ++ fault.message)
    | .ok records => detector.scanRecords subject records

/-- Settles a subject.  One that is settled stays as it is. -/
def detect (detector : Detector) (files : String → FileAnswer) (subject : Subject) :
    Logged Subject :=
  if subject.isSettled then pure subject
  else do
    let loading ← beginLoading subject
    match loading.kind? with
    | some .archive => detector.scanArchive files loading
    | some .classFile =>
      match classBytes files loading.content with
      | .ok bytes => detector.scanClass loading bytes
      | .error message => loading.fail message
    | none => loading.fail "File is not a .jar or .class file"

end Detector

end ClassWarden
