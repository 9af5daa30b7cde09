import ClassWarden.Proofs.Settlement

/-!
# The verdict of an archive

An archive gets one subject for each of its classes and for each entry whose
header cannot be read, in directory order.  Such a subject is judged by its own
record alone, and in the same way as a class that is met outside an archive:
both ways end in the verdict and the digest of the class's bytes.  The archive
itself takes the worst of the verdicts.
-/

namespace ClassWarden

namespace Rank

variable {left right start : Option Rank} {ranks : List (Option Rank)}

theorem combine_eq_error_iff :
    combine left right = some .error ↔
      (left = some .error ∨ right = some .error) ∧
        left ≠ some .infected ∧ right ≠ some .infected := by
  cases left with
  | none => cases right <;> simp [combine]; grind
  | some left =>
      cases right with
      | none => simp [combine]; grind
      | some right => cases left <;> cases right <;> decide

theorem foldl_combine_eq_error_iff :
    ranks.foldl combine start = some .error ↔
      (start = some .error ∨ some .error ∈ ranks) ∧
        start ≠ some .infected ∧ some .infected ∉ ranks := by
  induction ranks generalizing start with
  | nil => simp +contextual
  | cons rank ranks ih =>
      rw [List.foldl_cons, ih, combine_eq_error_iff]
      simp only [ne_eq, combine_eq_infected_iff, List.mem_cons]
      grind

/-- One failure decides where there is no infection. -/
theorem worst_eq_error_iff :
    worst ranks = some .error ↔ some .error ∈ ranks ∧ some .infected ∉ ranks := by
  rw [worst, foldl_combine_eq_error_iff]
  simp

end Rank

namespace Status

theorem rank?_eq_infected_iff {status : Status} :
    status.rank? = some .infected ↔ status = .infected := by
  cases status <;> decide

theorem rank?_eq_error_iff {status : Status} :
    status.rank? = some .error ↔ status = .error := by
  cases status <;> decide

end Status

namespace Subject

theorem worst_children_eq_infected_iff (children : List Subject) :
    Rank.worst (children.map (·.status.rank?)) = some .infected ↔
      ∃ child ∈ children, child.status = .infected := by
  rw [Rank.worst_eq_infected_iff, List.mem_map]
  simp only [Status.rank?_eq_infected_iff]

theorem worst_children_eq_error_iff (children : List Subject) :
    Rank.worst (children.map (·.status.rank?)) = some .error ↔
      (∃ child ∈ children, child.status = .error) ∧
        ¬∃ child ∈ children, child.status = .infected := by
  rw [Rank.worst_eq_error_iff, List.mem_map, List.mem_map]
  simp only [Status.rank?_eq_infected_iff, Status.rank?_eq_error_iff]

/-- A status that is the worst of those of some subjects, clean for none. -/
structure IsWorst (status : Status) (children : List Subject) : Prop where
  infected_iff : status = .infected ↔ ∃ child ∈ children, child.status = .infected
  error_iff : status = .error ↔
    (∃ child ∈ children, child.status = .error) ∧ ¬∃ child ∈ children, child.status = .infected
  clean_iff : status = .clean ↔
    (¬∃ child ∈ children, child.status = .error) ∧ ¬∃ child ∈ children, child.status = .infected

theorem isWorst_aggregate (children : List Subject) :
    IsWorst (aggregate children).status children := by
  have hinfected := worst_children_eq_infected_iff children
  have herror := worst_children_eq_error_iff children
  rw [aggregate]
  split
  case h_1 hworst =>
    have hexists := hinfected.mp hworst
    constructor <;> simp [State.status, hexists]
  case h_2 hworst =>
    have hexists := herror.mp hworst
    constructor <;> simp [State.status, hexists]
  case h_3 hnotInfected hnotError =>
    have hnone := mt hinfected.mpr hnotInfected
    have hclean := mt herror.mpr hnotError
    constructor <;> simp [State.status] <;> grind

end Subject
namespace Zip

/-- Nothing can be read behind a faulty header. -/
def Record.Coherent (record : Record) : Prop :=
  record.header.isOk = false → record.content.isOk = false

theorem Entry.coherent (bytes : Bytes) (entry : Entry) :
    Record.Coherent ⟨entry.header bytes, entry.content bytes⟩ := by
  intro hheader
  rw [Entry.header] at hheader
  rw [Entry.content]
  cases hplace : entry.dataPlace bytes with
  | ok place =>
      rw [hplace] at hheader
      cases hheader
  | error fault =>
      cases entry.needsPassword with
      | true => rfl
      | false => rfl

theorem coherent_of_mem_records {archive : List UInt8} {found : List Record}
    (hrecords : records archive = .ok found) : ∀ record ∈ found, record.Coherent := by
  intro record hrecord
  rw [records] at hrecords
  cases hentries : entries ⟨archive.toArray⟩ with
  | error fault =>
      rw [hentries] at hrecords
      cases hrecords
  | ok entries =>
      rw [hentries] at hrecords
      cases hrecords
      obtain ⟨entry, -, rfl⟩ := List.mem_map.mp hrecord
      exact entry.coherent _

end Zip

namespace Subject

@[simp]
theorem status_discovered (name : String) (content : Content) :
    (discovered name content).status = .loading := by
  rfl

theorem kind?_eq_classFile {subject : Subject} (hname : hasSuffix subject.name ".class" = true) :
    subject.kind? = some .classFile := by
  have hjar : hasSuffix subject.name ".jar" = false := by
    by_contra hjar
    rw [hasSuffix, List.isSuffixOf_iff_suffix] at hname
    rw [Bool.not_eq_false, hasSuffix, List.isSuffixOf_iff_suffix] at hjar
    -- The names would end in different letters.
    have hlast := (hname.getLast (by decide)).trans (hjar.getLast (by decide)).symm
    revert hlast
    decide
  rw [kind?, hjar, hname]
  rfl

end Subject

namespace Detector

variable {detector : Detector} {subject : Subject} {record : Zip.Record}
variable {records : List Zip.Record} {reader : ArchiveReader} {files : String → FileAnswer}

theorem detect_value_memory (detector : Detector) (files : String → FileAnswer) {name : String}
    (hname : Subject.hasSuffix name ".class" = true) (bytes : List UInt8) :
    (detector.detect files (.new name (.memory bytes))).value =
      detector.settleClass (.new name (.memory bytes)) bytes :=
  detect_value_of_provides ⟨rfl, Subject.kind?_eq_classFile hname, rfl⟩

/-- How a record alone decides what its subject is settled as. -/
structure JudgedAlone (detector : Detector) (record : Zip.Record) (index : Nat)
    (child : Subject) : Prop where
  name_eq : child.name = record.header.toOption.getD s!"entry #{index}"
  content_eq : child.content = .entry index
  /-- Bytes that can be read are judged like a class in memory. -/
  state_eq : ∀ bytes, record.content = .ok bytes → bytes ≠ [] → ∀ files,
    let alone := (detector.detect files (.new child.name (.memory bytes))).value
    child.state = alone.state ∧ child.sha256 = alone.sha256
  status_eq_error : (∀ bytes, record.content = .ok bytes → bytes = []) → child.status = .error

/-- A listed entry that can be read has the name of a class. -/
theorem hasSuffix_listedSubject {bytes : List UInt8} (index : Nat)
    (hlisted : isListed record = true) (hcoherent : record.Coherent)
    (hcontent : record.content = .ok bytes) :
    Subject.hasSuffix (listedSubject record index).name ".class" = true := by
  rw [isListed] at hlisted
  rw [listedSubject]
  cases hheader : record.header with
  | ok name =>
      rw [hheader] at hlisted
      exact (Bool.and_eq_true_iff.mp hlisted).2
  | error fault =>
      have hunread : record.content.isOk = false := hcoherent (by rw [hheader]; rfl)
      rw [hcontent] at hunread
      cases hunread

theorem entryVerdict_of_error {fault : Zip.Fault} (index : Nat)
    (hcontent : record.content = .error fault) :
    detector.entryVerdict record index = (listedSubject record index).withState
      (.error ("Unable to read entry: " ++ fault.message)) := by
  rw [entryVerdict, hcontent]

theorem entryVerdict_of_empty (index : Nat) (hcontent : record.content = .ok []) :
    detector.entryVerdict record index =
      (listedSubject record index).withState (.error "File is empty") := by
  rw [entryVerdict, hcontent]
  rfl

theorem entryVerdict_of_bytes {bytes : List UInt8} (index : Nat)
    (hcontent : record.content = .ok bytes) (hne : bytes ≠ []) :
    detector.entryVerdict record index =
      detector.settleClass (listedSubject record index) bytes := by
  rw [entryVerdict, hcontent]
  simp [hne]

theorem judgedAlone_entryVerdict (detector : Detector) (index : Nat)
    (hlisted : isListed record = true) (hcoherent : record.Coherent) :
    detector.JudgedAlone record index (detector.entryVerdict record index) := by
  cases hcontent : record.content with
  | error fault =>
      rw [entryVerdict_of_error index hcontent]
      refine ⟨rfl, rfl, fun bytes hbytes => ?_, fun _ => rfl⟩
      rw [hcontent] at hbytes
      cases hbytes
  | ok bytes =>
      by_cases hempty : bytes = []
      · subst hempty
        rw [entryVerdict_of_empty index hcontent]
        refine ⟨rfl, rfl, fun own hown hne => ?_, fun _ => rfl⟩
        rw [hcontent] at hown
        cases hown
        exact absurd rfl hne
      · rw [entryVerdict_of_bytes index hcontent hempty]
        refine ⟨rfl, rfl, fun own hown _ files => ?_, fun hunread => ?_⟩
        · rw [hcontent] at hown
          cases hown
          have hname := hasSuffix_listedSubject index hlisted hcoherent hcontent
          have halone := detect_value_memory detector files hname bytes
          intro alone
          rw [show alone = _ from halone]
          exact ⟨rfl, rfl⟩
        · exact absurd (hunread bytes hcontent) hempty

/-- An archive that is past its first stage, whose bytes can be had and opened. -/
structure Opens (reader : ArchiveReader) (files : String → FileAnswer) (subject : Subject)
    (records : List Zip.Record) : Prop where
  isOpen : subject.isSettled = false
  status_ne_added : subject.status ≠ .added
  exists_bytes : ∃ bytes, archiveBytes files subject.content = .ok bytes ∧
    reader bytes = .ok records
  coherent : ∀ record ∈ records, record.Coherent

theorem forall₂_listed_entryVerdicts (detector : Detector)
    (hcoherent : ∀ record ∈ records, record.Coherent) :
    List.Forall₂ (fun (record, index) => detector.JudgedAlone record index) (listed records)
      (detector.entryVerdicts records) := by
  rw [entryVerdicts, List.forall₂_map_right_iff, List.forall₂_same]
  rintro ⟨record, index⟩ hmem
  obtain ⟨hrecord, hlisted⟩ := List.mem_filter.mp hmem
  exact detector.judgedAlone_entryVerdict index hlisted
    (hcoherent record (List.fst_mem_of_mem_zipIdx hrecord))

theorem archiveVerdict_of_opens (detector : Detector) (hopens : Opens reader files subject records) :
    ∃ sha256, detector.archiveVerdict reader files subject =
      { subject with
        state := Subject.aggregate (detector.entryVerdicts records)
        children := detector.entryVerdicts records
        sha256 } := by
  obtain ⟨bytes, hbytes, hrecords⟩ := hopens.exists_bytes
  refine ⟨some (Sha256.text bytes), ?_⟩
  rw [archiveVerdict, hbytes]
  dsimp only
  rw [hrecords]

/-- An archive that can be opened is settled with one subject for each listed
entry, each judged by its record alone, and with the worst of their verdicts.
Detection comes to the same subject from every stage. -/
theorem scanArchive_judges_alone (detector : Detector)
    (hopens : Opens reader files subject records) :
    detector.scanArchive = detector.scanArchiveWith Zip.records ∧
      let settled := (detector.scanArchiveWith reader files subject).value
      List.Forall₂ (fun (record, index) => detector.JudgedAlone record index) (listed records)
          settled.children ∧
        Subject.IsWorst settled.status settled.children ∧
        (subject.kind? = some .archive → ∀ state, state.status.isTerminal = false →
          (detector.detectWith reader files (subject.withState state)).value = settled) := by
  refine ⟨detector.scanArchive_eq_scanArchiveWith, ?_⟩
  intro settled
  have hvalue : settled = detector.archiveVerdict reader files subject :=
    scanArchiveWith_value hopens.isOpen hopens.status_ne_added
  obtain ⟨sha256, hverdict⟩ := detector.archiveVerdict_of_opens hopens
  refine ⟨?_, ?_, fun hkind state hstate => ?_⟩
  · rw [hvalue, hverdict]
    exact detector.forall₂_listed_entryVerdicts hopens.coherent
  · rw [hvalue, hverdict]
    exact Subject.isWorst_aggregate _
  · have hopen : (subject.withState state).isSettled = false := hstate
    rw [detectWith_value hopen, settle_withState, hvalue, settle, hkind]

/-! ## An archive of stored entries -/

/-- An entry that is stored as it is, and the mark of its local header. -/
structure StoredEntry where
  name : String
  content : List UInt8
  mark : Nat

namespace StoredEntry

def field (width value : Nat) : List UInt8 :=
  (BigEndian.ofNat width value).reverse

/-- The fields that stand in the local header and in the directory header. -/
def fields (entry : StoredEntry) : List UInt8 :=
  List.replicate 10 0 ++ field 4 (Crc32.checksum entry.content).toNat ++
    field 4 entry.content.length ++ field 4 entry.content.length ++
    field 2 entry.name.toUTF8.size ++ field 2 0

def localBytes (entry : StoredEntry) : List UInt8 :=
  field 4 entry.mark ++ entry.fields ++ entry.name.toUTF8.toList ++ entry.content

/-- The directory headers of entries whose local headers start at a place. -/
def directoryBytes : Nat → List StoredEntry → List UInt8
  | _, [] => []
  | place, entry :: entries =>
    field 4 Zip.Entry.headerMark ++ field 2 0 ++ entry.fields ++ List.replicate 10 0 ++
      field 4 place ++ entry.name.toUTF8.toList ++
      directoryBytes (place + entry.localBytes.length) entries

def archive (entries : List StoredEntry) : List UInt8 :=
  let content := entries.flatMap localBytes
  let directory := directoryBytes 0 entries
  content ++ directory ++ field 4 Zip.EndRecord.mark ++ field 4 0 ++ field 2 entries.length ++
    field 2 entries.length ++ field 4 directory.length ++ field 4 content.length ++ field 2 0

end StoredEntry

def finder (instruction : SymbolicInstruction) : Detector :=
  ⟨[⟨"instruction", "", [instruction], .all⟩], ⟨0, none⟩⟩

/-- A directory, a class and an entry without a local header. -/
def mixedJar : List UInt8 :=
  StoredEntry.archive [⟨"lib/", [], Zip.Entry.localMark⟩,
    ⟨"A.class", oneMethodClass [4, 5], Zip.Entry.localMark⟩, ⟨"B.class", [], 0⟩]

def mixedScan : Subject :=
  ((finder (Signature.plain (.iconst 1))).scanArchive (fun _ => .directory)
    (.discovered "mixed.jar" (.memory mixedJar))).value

theorem mixedScan_children :
    mixedScan.children.map (fun child => (child.name, child.status)) =
      [("A.class", .infected), ("entry #2", .error)] := by
  decide +kernel

theorem exists_records_mixedJar : ∃ records, Zip.records mixedJar = .ok records := by
  cases hrecords : Zip.records mixedJar with
  | ok records => exact ⟨records, rfl⟩
  | error fault =>
      -- The scan would have left no entries behind.
      have hchildren : mixedScan.children = [] := by
        rw [mixedScan, scanArchive_eq_scanArchiveWith, scanArchiveWith_value rfl (by simp),
          archiveVerdict]
        simp only [Subject.discovered, archiveBytes, hrecords, Subject.withState]
      have hlisted := mixedScan_children
      rw [hchildren] at hlisted
      cases hlisted

theorem scanArchive_judges_alone_mixedJar :
    ∃ records, Zip.records mixedJar = .ok records ∧
      List.Forall₂ (fun (record, index) =>
          (finder (Signature.plain (.iconst 1))).JudgedAlone record index)
        (listed records) mixedScan.children ∧
      Subject.IsWorst mixedScan.status mixedScan.children ∧
      mixedScan.children.map (fun child => (child.name, child.status)) =
        [("A.class", .infected), ("entry #2", .error)] := by
  obtain ⟨records, hrecords⟩ := exists_records_mixedJar
  have hopens : Opens Zip.records (fun _ => .directory)
      (.discovered "mixed.jar" (.memory mixedJar)) records :=
    ⟨rfl, by simp, ⟨mixedJar, rfl, hrecords⟩, Zip.coherent_of_mem_records hrecords⟩
  obtain ⟨hscan, hjudged, hworst, -⟩ :=
    scanArchive_judges_alone (finder (Signature.plain (.iconst 1))) hopens
  have hmixed : mixedScan = ((finder (Signature.plain (.iconst 1))).scanArchiveWith Zip.records
      (fun _ => .directory) (.discovered "mixed.jar" (.memory mixedJar))).value := by
    rw [mixedScan, hscan]
  rw [← hmixed] at hjudged hworst
  exact ⟨records, hrecords, hjudged, hworst, mixedScan_children⟩

end Detector

end ClassWarden
