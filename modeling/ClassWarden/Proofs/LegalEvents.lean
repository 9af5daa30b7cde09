import ClassWarden.Proofs.ArchiveVerdict

/-!
# The events of a scan

A scan sends events to its subject and to the entries of an archive from four
places, and an event that does not belong to the stage at hand would be dropped
and logged as an error.  For a subject that is new or being loaded this never
happens: every event of the scan is a move of the lifecycle.  A subject that is
scanning already would be told to scan once more, as soon as its bytes are there.
-/

namespace ClassWarden

namespace Logged

variable {α β : Type}

@[simp]
theorem pure_notes (value : α) : (pure value : Logged α).notes = [] := by
  rfl

@[simp]
theorem bind_notes (first : Logged α) (step : α → Logged β) :
    (first >>= step).notes = first.notes ++ (step first.value).notes := by
  rfl

def Rejects (logged : Logged α) : Prop :=
  ∃ reason, Note.rejected reason ∈ logged.notes

/-- Rejections are the errors of the log. -/
theorem rejects_iff_level (logged : Logged α) :
    logged.Rejects ↔ ∃ note ∈ logged.notes, note.level = .error := by
  constructor
  · rintro ⟨reason, hreason⟩
    exact ⟨_, hreason, rfl⟩
  · rintro ⟨note, hnote, hlevel⟩
    cases note with
    | rejected reason => exact ⟨reason, hnote⟩
    | _ => cases hlevel

theorem not_rejects_pure (value : α) : ¬(pure value : Logged α).Rejects := by
  rintro ⟨reason, hreason⟩
  cases hreason

theorem rejects_bind_iff (first : Logged α) (step : α → Logged β) :
    (first >>= step).Rejects ↔ first.Rejects ∨ (step first.value).Rejects := by
  simp only [Rejects, bind_notes, List.mem_append, exists_or]

theorem not_rejects_remark {notes : List Note}
    (hquiet : ∀ note ∈ notes, note.level ≠ .error) : ¬(remark notes).Rejects := by
  rw [rejects_iff_level]
  rintro ⟨note, hnote, hlevel⟩
  exact hquiet note hnote hlevel

end Logged

namespace Subject

variable {subject next : Subject} {event : Event}

/-- An event is rejected exactly if it is no move. -/
theorem rejects_advance_iff (subject : Subject) (event : Event) :
    (subject.advance event).Rejects ↔ ¬∃ next, Moves subject event next := by
  simp only [← apply_eq_ok_iff]
  rw [advance, Logged.Rejects]
  cases subject.apply event with
  | ok next => simp
  | error reason => simp

theorem Moves.not_rejects (hmoves : Moves subject event next) :
    ¬(subject.advance event).Rejects := by
  rw [rejects_advance_iff, not_not]
  exact ⟨next, hmoves⟩

theorem not_rejects_fail (hopen : subject.isSettled = false) (message : String) :
    ¬(subject.fail message).Rejects :=
  (Moves.fail message hopen).not_rejects

/-- A subject without a verdict, past the first stage, can be told to scan unless
it does so already. -/
theorem rejects_scan_iff (hopen : subject.isSettled = false) (hstage : subject.status ≠ .added) :
    (subject.advance .scan).Rejects ↔ subject.status = .scanning := by
  rw [rejects_advance_iff]
  constructor
  · intro hrejects
    cases hstatus : subject.status with
    | added => exact absurd hstatus hstage
    | loading => exact absurd ⟨_, .scan hstatus⟩ hrejects
    | scanning => rfl
    | clean | infected | error =>
        rw [isSettled, hstatus] at hopen
        cases hopen
  · rintro hscanning ⟨next, hmoves⟩
    cases hmoves with
    | scan hloading =>
        rw [hloading] at hscanning
        cases hscanning

end Subject

namespace Detector

variable {detector : Detector} {subject : Subject} {bytes : List UInt8}
variable {record : Zip.Record} {records : List Zip.Record}

/-! ## Classes -/

theorem not_rejects_beginLoading (subject : Subject) : ¬(beginLoading subject).Rejects := by
  rw [beginLoading]
  split
  case isTrue hstage => exact (Subject.Moves.load hstage).not_rejects
  case isFalse => exact Logged.not_rejects_pure subject

theorem beginLoading_status_eq_scanning_iff (subject : Subject) :
    (beginLoading subject).value.status = .scanning ↔ subject.status = .scanning := by
  rw [beginLoading]
  split
  case isTrue hstage =>
    rw [(Subject.Moves.load hstage).advance_value, hstage]
    simp [State.status]
  case isFalse => rfl

theorem beginLoading_isSettled (hopen : subject.isSettled = false) :
    (beginLoading subject).value.isSettled = false := by
  obtain ⟨state, hvalue, hunsettled⟩ := exists_beginLoading_value hopen
  rw [hvalue]
  exact hunsettled

/-- Only the order to scan can be rejected while a class is compared. -/
theorem rejects_scanClass_iff (hopen : subject.isSettled = false) :
    (detector.scanClass subject bytes).Rejects ↔ subject.status = .scanning := by
  have hscan : ((beginLoading subject).value.advance .scan).Rejects ↔
      subject.status = .scanning := by
    rw [Subject.rejects_scan_iff (beginLoading_isSettled hopen)
      (beginLoading_status_ne_added subject), beginLoading_status_eq_scanning_iff]
  let scanning : Subject :=
    { subject.withState .scanning with sha256 := some (Sha256.text bytes) }
  have hfail : ∀ message, ¬(scanning.fail message).Rejects := Subject.not_rejects_fail rfl
  have hcomplete : ∀ findings, ¬(scanning.advance (.complete findings)).Rejects :=
    fun findings => (Subject.Moves.complete findings rfl).not_rejects
  simp only [scanClass, Logged.rejects_bind_iff, not_rejects_beginLoading, hscan, false_or,
    or_iff_left_iff_imp, scanning_value hopen]
  obtain ⟨findings, failure?⟩ := detector.inspect bytes
  rintro (hmatched | hverdict)
  · exact absurd hmatched (Logged.not_rejects_remark (by simp [Note.level]))
  · cases failure? with
    | some failure =>
        obtain hremark | hrejects := (Logged.rejects_bind_iff _ _).mp hverdict
        · exact absurd hremark (Logged.not_rejects_remark (by simp [Note.level]))
        · exact absurd hrejects (hfail failure.message)
    | none =>
        dsimp only at hverdict
        split at hverdict
        case isTrue =>
          obtain hremark | hrejects := (Logged.rejects_bind_iff _ _).mp hverdict
          · exact absurd hremark (Logged.not_rejects_remark (by simp [Note.level]))
          · exact absurd hrejects (hcomplete findings)
        case isFalse => exact absurd hverdict (hcomplete findings)

/-! ## Archives -/

theorem not_rejects_discover (index : Nat) (record : Zip.Record) :
    ¬(discover index record).Rejects := by
  rw [discover]
  cases record.header with
  | error fault =>
      rw [Logged.rejects_bind_iff, not_or]
      exact ⟨Logged.not_rejects_remark (by simp [Note.level]), Logged.not_rejects_pure _⟩
  | ok name =>
      dsimp only
      split <;> exact Logged.not_rejects_pure _

theorem not_rejects_discoverFrom (index : Nat) (records : List Zip.Record) :
    ¬(discoverFrom index records).Rejects := by
  induction records generalizing index with
  | nil => exact Logged.not_rejects_pure []
  | cons record records ih =>
      rw [discoverFrom, Logged.rejects_bind_iff, Logged.rejects_bind_iff, not_or, not_or]
      exact ⟨not_rejects_discover index record, ih (index + 1), Logged.not_rejects_pure _⟩

/-- An entry is being loaded when it is discovered, so all that happens to it is
in order. -/
theorem not_rejects_scanEntry (hloading : subject.status = .loading) (record : Zip.Record) :
    ¬(detector.scanEntry subject record).Rejects := by
  have hopen : subject.isSettled = false := by
    rw [Subject.isSettled, hloading]
    rfl
  rw [scanEntry]
  cases record.content with
  | error fault =>
      rw [Logged.rejects_bind_iff, not_or]
      exact ⟨Logged.not_rejects_remark (by simp [Note.level]), Subject.not_rejects_fail hopen _⟩
  | ok bytes =>
      dsimp only
      split
      case isTrue => exact Subject.not_rejects_fail hopen _
      case isFalse =>
        rw [rejects_scanClass_iff hopen, hloading]
        decide

theorem not_rejects_scanEntries {entries : List (Subject × Zip.Record)}
    (hloading : ∀ entry ∈ entries, entry.1.status = .loading) :
    ¬(detector.scanEntries entries).Rejects := by
  induction entries with
  | nil => exact Logged.not_rejects_pure []
  | cons entry entries ih =>
      obtain ⟨hentry, hentries⟩ := List.forall_mem_cons.mp hloading
      rw [scanEntries, Logged.rejects_bind_iff, Logged.rejects_bind_iff, not_or, not_or]
      exact ⟨not_rejects_scanEntry hentry entry.2, ih hentries, Logged.not_rejects_pure _⟩

theorem status_of_mem_discoverFrom {index : Nat} {entry : Subject × Zip.Record}
    (hentry : entry ∈ (discoverFrom index records).value) : entry.1.status = .loading := by
  rw [discoverFrom_value] at hentry
  obtain ⟨⟨record, place⟩, -, rfl⟩ := List.mem_map.mp hentry
  rfl

/-- Once an archive scans, all its entries settle, and so can it. -/
theorem rejects_scanRecords_iff (hopen : subject.isSettled = false)
    (hstage : subject.status ≠ .added) :
    (detector.scanRecords subject records).Rejects ↔ subject.status = .scanning := by
  have hsettle : ¬((subject.withState .scanning).advance
      (.settle (detector.entryVerdicts records))).Rejects := by
    refine (Subject.Moves.settle _ rfl (by simp [State.status]) ?_).not_rejects
    exact fun child hchild => (explained_of_mem_entryVerdicts hchild).isSettled
  have hentries : ¬(detector.scanEntries (discoverFrom 0 records).value).Rejects :=
    not_rejects_scanEntries fun _ => status_of_mem_discoverFrom
  have hremark : ∀ name count, ¬(Logged.remark [.entries name count]).Rejects :=
    fun _ _ => Logged.not_rejects_remark (by simp [Note.level])
  simp only [scanRecords, Logged.rejects_bind_iff, not_rejects_discoverFrom, hentries, hremark,
    Subject.rejects_scan_iff hopen hstage, Subject.scan_value hopen hstage,
    scanEntries_discoverFrom_value, hsettle, false_or, or_false]

/-! ## Whole scans -/

variable {reader : ArchiveReader} {files : String → FileAnswer}

/-- There are bytes to scan: the archive can be opened, or the class be read. -/
def Loadable (reader : ArchiveReader) (files : String → FileAnswer) (subject : Subject) : Prop :=
  match subject.kind? with
  | some .archive => ∃ bytes records, archiveBytes files subject.content = .ok bytes ∧
      reader bytes = .ok records
  | some .classFile => ∃ bytes, classBytes files subject.content = .ok bytes
  | none => False

theorem rejects_scanArchiveWith_iff (hopen : subject.isSettled = false)
    (hstage : subject.status ≠ .added) :
    (detector.scanArchiveWith reader files subject).Rejects ↔
      subject.status = .scanning ∧ ∃ bytes records,
        archiveBytes files subject.content = .ok bytes ∧ reader bytes = .ok records := by
  rw [scanArchiveWith]
  cases hbytes : archiveBytes files subject.content with
  | error message => simp [Subject.not_rejects_fail hopen message]
  | ok bytes =>
      have hdigested : Subject.isSettled
          { subject with sha256 := some (Sha256.text bytes) } = false := hopen
      dsimp only
      cases hrecords : reader bytes with
      | error fault =>
          have hremark : ¬(Logged.remark [.unreadableArchive subject.name fault]).Rejects :=
            Logged.not_rejects_remark (by simp [Note.level])
          simp [Logged.rejects_bind_iff, hremark, Subject.not_rejects_fail hdigested, hrecords]
      | ok records =>
          rw [and_iff_left ⟨bytes, records, rfl, hrecords⟩]
          exact rejects_scanRecords_iff hdigested hstage

/-- A scan has an event rejected only if it comes to scan a subject that scans. -/
theorem rejects_detectWith_iff :
    (detector.detectWith reader files subject).Rejects ↔
      subject.status = .scanning ∧ Loadable reader files subject := by
  cases hopen : subject.isSettled with
  | true =>
      rw [detectWith_of_isSettled hopen]
      refine iff_of_false (Logged.not_rejects_pure subject) ?_
      rintro ⟨hscanning, -⟩
      rw [Subject.isSettled, hscanning] at hopen
      cases hopen
  | false =>
      have hunsettled := beginLoading_isSettled hopen
      have hstage := beginLoading_status_ne_added subject
      obtain ⟨state, hloading, -⟩ := exists_beginLoading_value hopen
      have hkind : (beginLoading subject).value.kind? = subject.kind? := by
        rw [hloading]
        rfl
      have hcontent : (beginLoading subject).value.content = subject.content := by
        rw [hloading]
        rfl
      rw [detectWith, hopen]
      simp only [Bool.false_eq_true, if_false, Logged.rejects_bind_iff,
        not_rejects_beginLoading, false_or]
      rw [← beginLoading_status_eq_scanning_iff, Loadable, hkind, ← hcontent]
      cases subject.kind? with
      | none => simp [Subject.not_rejects_fail hunsettled]
      | some kind =>
          cases kind with
          | archive => exact rejects_scanArchiveWith_iff hunsettled hstage
          | classFile =>
              dsimp only
              cases hbytes : classBytes files (beginLoading subject).value.content with
              | error message => simp [Subject.not_rejects_fail hunsettled]
              | ok bytes => simp [rejects_scanClass_iff hunsettled]

/-- Whatever a subject is named, whatever there is to read of it and however
archives are read: while it is new or being loaded, a scan never has an event
rejected, neither by the subject nor by the entries of an archive.  Met while it
scans, the same subject would reject one as soon as there is something to scan. -/
theorem detect_rejects_nothing {subject : Subject}
    (hstage : subject.status = .added ∨ subject.status = .loading) (detector : Detector) :
    detector.detect = detector.detectWith Zip.records ∧
      (∀ bytes, ¬(detector.scanClass subject bytes).Rejects) ∧
        ∀ reader files, ¬(detector.detectWith reader files subject).Rejects ∧
          ((detector.detectWith reader files (subject.withState .scanning)).Rejects ↔
            Loadable reader files subject) := by
  have hscanning : subject.status ≠ .scanning := by
    obtain hstage | hstage := hstage <;> simp [hstage]
  have hopen : subject.isSettled = false := by
    obtain hstage | hstage := hstage <;> simp [Subject.isSettled, hstage, Status.isTerminal,
      Status.rank?]
  refine ⟨detector.detect_eq_detectWith, fun bytes => ?_, fun reader files => ⟨?_, ?_⟩⟩
  · rw [rejects_scanClass_iff hopen]
    exact hscanning
  · rw [rejects_detectWith_iff]
    exact fun hrejects => hscanning hrejects.1
  · rw [rejects_detectWith_iff]
    exact and_iff_right rfl

/-- An archive with an infected class, one that cannot be read and a directory. -/
theorem detect_rejects_nothing_mixedJar :
    let detector := finder (Signature.plain (.iconst 1))
    let subject := Subject.discovered "mixed.jar" (.memory mixedJar)
    subject.status = .loading ∧
      ¬(detector.detect (fun _ => .directory) subject).Rejects ∧
        (detector.detect (fun _ => .directory) (subject.withState .scanning)).Rejects := by
  intro detector subject
  have hstage : subject.status = .loading := rfl
  obtain ⟨hdetect, -, hwith⟩ := detect_rejects_nothing (.inr hstage) detector
  obtain ⟨hnothing, hscanning⟩ := hwith Zip.records fun _ => .directory
  obtain ⟨records, hrecords⟩ := exists_records_mixedJar
  have hkind : subject.kind? = some .archive := by
    decide +kernel
  have hloadable : Loadable Zip.records (fun _ => .directory) subject := by
    rw [Loadable, hkind]
    exact ⟨mixedJar, records, rfl, hrecords⟩
  rw [hdetect]
  exact ⟨hstage, hnothing, hscanning.mpr hloadable⟩

end Detector

end ClassWarden
