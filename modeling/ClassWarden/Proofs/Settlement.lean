import ClassWarden.Proofs.Detection

/-!
# Every scan settles

Detection drives a subject through events that may be rejected without notice,
so a verdict at the end is no matter of course.  The subject that a scan leaves
behind is written down here in closed form, as a function of its name, its
content and the answers of the file system.  That the subject is settled, that
the stage it was met in does not matter and that a second scan changes nothing
are read off it.

Nothing depends on how archives are read: the scan is taken with any reader of
archives in place of the one that it comes with.
-/

namespace ClassWarden

theorem DecodeError.message_ne_empty (failure : DecodeError) : failure.message ≠ "" := by
  rw [message.eq_def]
  cases failure <;> simp

namespace Subject

variable {subject : Subject} {children : List Subject} {message : String}

/-- A subject that has its verdict, with words for it if it is a failure. -/
structure Explained (subject : Subject) : Prop where
  isSettled : subject.isSettled = true
  message_ne_empty : ∀ message, subject.state = .error message → message ≠ ""

theorem fail_value (hopen : subject.isSettled = false) (message : String) :
    (subject.fail message).value = subject.withState (.error message) := by
  exact (Moves.fail message hopen).advance_value

@[simp]
theorem status_withState (subject : Subject) (state : State) :
    (subject.withState state).status = state.status := by
  rfl

/-- Past the first stage a subject gets to scanning. -/
theorem scan_value (hopen : subject.isSettled = false) (hstage : subject.status ≠ .added) :
    (subject.advance .scan).value = subject.withState .scanning := by
  obtain ⟨name, content, state, children, sha256⟩ := subject
  cases state with
  | added => exact absurd rfl hstage
  | loading | scanning => rfl
  | clean | infected | error => cases hopen

theorem explained_withState_error (hmessage : message ≠ "") :
    Explained (subject.withState (.error message)) := by
  refine ⟨rfl, fun own hown => ?_⟩
  cases hown
  exact hmessage

theorem aggregate_eq_error (haggregate : aggregate children = .error message) :
    message ≠ "" := by
  rw [aggregate] at haggregate
  split at haggregate
  case h_2 =>
    cases haggregate
    simp
  case h_1 | h_3 => cases haggregate

end Subject

namespace Detector

variable {detector : Detector} {subject : Subject} {bytes : List UInt8} {message : String}
variable {record : Zip.Record} {records : List Zip.Record}

/-! ## Classes -/

theorem verdict_isTerminal (detector : Detector) (bytes : List UInt8) :
    (detector.verdict bytes).status.isTerminal = true := by
  rw [verdict]
  split
  case h_1 findings =>
    rw [Event.completed]
    split <;> rfl
  case h_2 => rfl

theorem verdict_eq_error (hverdict : detector.verdict bytes = .error message) :
    message ≠ "" := by
  rw [verdict] at hverdict
  split at hverdict
  case h_1 findings =>
    rw [Event.completed] at hverdict
    split at hverdict <;> cases hverdict
  case h_2 failure hfailure =>
    cases hverdict
    exact failure.message_ne_empty

def settleClass (detector : Detector) (subject : Subject) (bytes : List UInt8) : Subject :=
  { subject with
    state := detector.verdict bytes
    sha256 := some (Sha256.text bytes) }

theorem explained_settleClass (detector : Detector) (subject : Subject) (bytes : List UInt8) :
    (detector.settleClass subject bytes).Explained :=
  ⟨detector.verdict_isTerminal bytes, fun _ => verdict_eq_error⟩

/-! ## Entries of an archive -/

/-- Whether an entry becomes a subject. -/
def isListed (record : Zip.Record) : Bool :=
  match record.header with
  | .ok name => !isDirectoryName name && Subject.hasSuffix name ".class"
  | .error _ => true

/-- The subject that a listed entry becomes.  Without a header it goes by its
index. -/
def listedSubject (record : Zip.Record) (index : Nat) : Subject :=
  .discovered (record.header.toOption.getD s!"entry #{index}") (.entry index)

def listed (records : List Zip.Record) : List (Zip.Record × Nat) :=
  records.zipIdx.filter fun (record, _) => isListed record

def entryVerdict (detector : Detector) (record : Zip.Record) (index : Nat) : Subject :=
  let subject := listedSubject record index
  match record.content with
  | .error fault => subject.withState (.error ("Unable to read entry: " ++ fault.message))
  | .ok bytes =>
    if bytes.isEmpty then subject.withState (.error "File is empty")
    else detector.settleClass subject bytes

def entryVerdicts (detector : Detector) (records : List Zip.Record) : List Subject :=
  (listed records).map fun (record, index) => detector.entryVerdict record index

theorem discover_value (index : Nat) (record : Zip.Record) :
    (discover index record).value =
      if isListed record then some (listedSubject record index) else none := by
  rw [discover, isListed, listedSubject]
  cases hheader : record.header with
  | error fault => rfl
  | ok name =>
      dsimp only
      split <;> rfl

theorem discoverFrom_value (index : Nat) (records : List Zip.Record) :
    (discoverFrom index records).value =
      ((records.zipIdx index).filter fun (record, _) => isListed record).map
        fun (record, index) => (listedSubject record index, record) := by
  induction records generalizing index with
  | nil => rfl
  | cons record records ih =>
      rw [discoverFrom, Logged.bind_value, Logged.bind_value, Logged.pure_value, ih,
        discover_value, List.zipIdx_cons, List.filter_cons]
      split <;> rfl

theorem scanEntries_value (detector : Detector) (entries : List (Subject × Zip.Record)) :
    (detector.scanEntries entries).value =
      entries.map fun (subject, record) => (detector.scanEntry subject record).value := by
  induction entries with
  | nil => rfl
  | cons entry entries ih =>
      rw [scanEntries, Logged.bind_value, Logged.bind_value, Logged.pure_value, ih,
        List.map_cons]

theorem scanEntry_value (detector : Detector) (record : Zip.Record) (index : Nat) :
    (detector.scanEntry (listedSubject record index) record).value =
      detector.entryVerdict record index := by
  have hopen : (listedSubject record index).isSettled = false := by
    rfl
  rw [scanEntry, entryVerdict]
  cases hcontent : record.content with
  | error fault => exact Subject.fail_value hopen _
  | ok bytes =>
      dsimp only
      split
      case isTrue => exact Subject.fail_value hopen _
      case isFalse => exact scanClass_value hopen

theorem explained_entryVerdict (detector : Detector) (record : Zip.Record) (index : Nat) :
    (detector.entryVerdict record index).Explained := by
  rw [entryVerdict]
  cases record.content with
  | error fault => exact Subject.explained_withState_error (by simp)
  | ok bytes =>
      dsimp only
      split
      case isTrue => exact Subject.explained_withState_error (by simp)
      case isFalse => exact detector.explained_settleClass _ bytes

theorem explained_of_mem_entryVerdicts {child : Subject}
    (hchild : child ∈ detector.entryVerdicts records) : child.Explained := by
  obtain ⟨⟨record, index⟩, -, rfl⟩ := List.mem_map.mp hchild
  exact detector.explained_entryVerdict record index

theorem children_of_mem_entryVerdicts {child : Subject}
    (hchild : child ∈ detector.entryVerdicts records) : child.children = [] := by
  obtain ⟨⟨record, index⟩, -, rfl⟩ := List.mem_map.mp hchild
  dsimp only
  rw [entryVerdict]
  cases record.content with
  | error fault => rfl
  | ok bytes =>
      dsimp only
      split <;> rfl

theorem scanEntries_discoverFrom_value (detector : Detector) (records : List Zip.Record) :
    (detector.scanEntries (discoverFrom 0 records).value).value =
      detector.entryVerdicts records := by
  simp only [scanEntries_value, discoverFrom_value, entryVerdicts, listed, List.map_map,
    Function.comp_def, scanEntry_value]

/-- An archive settles by its entries from loading and from scanning alike. -/
theorem scanRecords_value (hopen : subject.isSettled = false) (hstage : subject.status ≠ .added) :
    (detector.scanRecords subject records).value =
      { subject with
        state := Subject.aggregate (detector.entryVerdicts records)
        children := detector.entryVerdicts records } := by
  have hsettled : ∀ child ∈ detector.entryVerdicts records, child.isSettled = true :=
    fun child hchild => (explained_of_mem_entryVerdicts hchild).isSettled
  simp only [scanRecords, Logged.bind_value, scanEntries_discoverFrom_value,
    Subject.scan_value hopen hstage]
  exact (Subject.Moves.settle _ rfl (by simp [State.status]) hsettled).advance_value

/-! ## Whole scans -/

/-- Tells the records of an archive, or why it cannot be opened. -/
abbrev ArchiveReader := List UInt8 → Except Zip.Fault (List Zip.Record)

def scanArchiveWith (detector : Detector) (reader : ArchiveReader)
    (files : String → FileAnswer) (subject : Subject) : Logged Subject :=
  match archiveBytes files subject.content with
  | .error message => subject.fail message
  | .ok bytes =>
    let subject := { subject with sha256 := some (Sha256.text bytes) }
    match reader bytes with
    | .error fault => do
      Logged.remark [.unreadableArchive subject.name fault]
      subject.fail ("Unable to read archive: " ++ fault.message)
    | .ok records => detector.scanRecords subject records

/-- Detection where archives are read in some other way. -/
def detectWith (detector : Detector) (reader : ArchiveReader) (files : String → FileAnswer)
    (subject : Subject) : Logged Subject :=
  if subject.isSettled then pure subject
  else do
    let loading ← beginLoading subject
    match loading.kind? with
    | some .archive => detector.scanArchiveWith reader files loading
    | some .classFile =>
      match classBytes files loading.content with
      | .ok bytes => detector.scanClass loading bytes
      | .error message => loading.fail message
    | none => loading.fail "File is not a .jar or .class file"

theorem scanArchive_eq_scanArchiveWith (detector : Detector) :
    detector.scanArchive = detector.scanArchiveWith Zip.records := by
  rfl

theorem detect_eq_detectWith (detector : Detector) :
    detector.detect = detector.detectWith Zip.records := by
  rfl

variable {reader : ArchiveReader} {files : String → FileAnswer}

/-- What an archive is settled as. -/
def archiveVerdict (detector : Detector) (reader : ArchiveReader) (files : String → FileAnswer)
    (subject : Subject) : Subject :=
  match archiveBytes files subject.content with
  | .error message => subject.withState (.error message)
  | .ok bytes =>
    let subject := { subject with sha256 := some (Sha256.text bytes) }
    match reader bytes with
    | .error fault => subject.withState (.error ("Unable to read archive: " ++ fault.message))
    | .ok records =>
      let children := detector.entryVerdicts records
      { subject with state := Subject.aggregate children, children }

/-- What a subject without a verdict is settled as. -/
def settle (detector : Detector) (reader : ArchiveReader) (files : String → FileAnswer)
    (subject : Subject) : Subject :=
  match subject.kind? with
  | some .archive => detector.archiveVerdict reader files subject
  | some .classFile =>
    match classBytes files subject.content with
    | .ok bytes => detector.settleClass subject bytes
    | .error message => subject.withState (.error message)
  | none => subject.withState (.error "File is not a .jar or .class file")

theorem scanArchiveWith_value (hopen : subject.isSettled = false)
    (hstage : subject.status ≠ .added) :
    (detector.scanArchiveWith reader files subject).value =
      detector.archiveVerdict reader files subject := by
  rw [scanArchiveWith, archiveVerdict]
  cases archiveBytes files subject.content with
  | error message => exact Subject.fail_value hopen message
  | ok bytes =>
      dsimp only
      cases reader bytes with
      | error fault =>
          have hdigested : Subject.isSettled
              { subject with sha256 := some (Sha256.text bytes) } = false := hopen
          exact Subject.fail_value hdigested _
      | ok records => exact scanRecords_value hopen hstage

theorem detectWith_of_isSettled (hsettled : subject.isSettled = true) :
    detector.detectWith reader files subject = pure subject := by
  rw [detectWith, if_pos hsettled]

theorem beginLoading_status_ne_added (subject : Subject) :
    (beginLoading subject).value.status ≠ .added := by
  obtain ⟨name, content, state, children, sha256⟩ := subject
  intro hstage
  cases state <;> cases hstage

theorem detectWith_value (hopen : subject.isSettled = false) :
    (detector.detectWith reader files subject).value = detector.settle reader files subject := by
  obtain ⟨state, hloading, hunsettled⟩ := exists_beginLoading_value hopen
  have hstage : (subject.withState state).status ≠ .added := by
    rw [← hloading]
    exact beginLoading_status_ne_added subject
  have hkind : (subject.withState state).kind? = subject.kind? := by
    rfl
  have hcontent : (subject.withState state).content = subject.content := by
    rfl
  rw [detectWith, hopen, settle]
  simp only [Bool.false_eq_true, if_false, Logged.bind_value, hloading, hkind, hcontent]
  cases subject.kind? with
  | none => exact Subject.fail_value hunsettled _
  | some kind =>
      cases kind with
      | archive => exact scanArchiveWith_value hunsettled hstage
      | classFile =>
          cases classBytes files subject.content with
          | error message => exact Subject.fail_value hunsettled message
          | ok bytes => exact scanClass_value hunsettled

theorem settle_withState (subject : Subject) (state : State) :
    detector.settle reader files (subject.withState state) =
      detector.settle reader files subject := by
  rfl

theorem archiveBytes_eq_error {content : Content}
    (hbytes : archiveBytes files content = .error message) : message ≠ "" := by
  cases content with
  | file path =>
      rw [archiveBytes] at hbytes
      split at hbytes <;> cases hbytes <;> simp [toString]
  | memory bytes => cases hbytes
  | entry index | missing =>
      cases hbytes
      simp

theorem classBytes_eq_error {content : Content}
    (hbytes : classBytes files content = .error message) : message ≠ "" := by
  cases content with
  | file path =>
      rw [classBytes] at hbytes
      split at hbytes <;> cases hbytes <;> simp [toString]
  | memory bytes => cases hbytes
  | entry index | missing =>
      cases hbytes
      simp

/-! ## What can be relied on -/

/-- A subject with a verdict that is explained, in itself and in the entries
that came with the verdict. -/
structure ExplainedFrom (subject settled : Subject) : Prop where
  explained : settled.Explained
  children : settled.children = subject.children ∨
    ∀ child ∈ settled.children, child.Explained ∧ child.children = []

theorem explainedFrom_withState_error (hmessage : message ≠ "") :
    ExplainedFrom subject (subject.withState (.error message)) :=
  ⟨Subject.explained_withState_error hmessage, .inl rfl⟩

theorem explainedFrom_archiveVerdict (detector : Detector) (reader : ArchiveReader)
    (files : String → FileAnswer) (subject : Subject) :
    ExplainedFrom subject (detector.archiveVerdict reader files subject) := by
  rw [archiveVerdict]
  cases hbytes : archiveBytes files subject.content with
  | error message => exact explainedFrom_withState_error (archiveBytes_eq_error hbytes)
  | ok bytes =>
      dsimp only
      cases reader bytes with
      | error fault =>
          exact ⟨Subject.explained_withState_error (by simp), .inl rfl⟩
      | ok records =>
          refine ⟨⟨Subject.aggregate_isTerminal _, fun _ => Subject.aggregate_eq_error⟩,
            .inr fun child hchild => ?_⟩
          exact ⟨explained_of_mem_entryVerdicts hchild, children_of_mem_entryVerdicts hchild⟩

theorem explainedFrom_settle (detector : Detector) (reader : ArchiveReader)
    (files : String → FileAnswer) (subject : Subject) :
    ExplainedFrom subject (detector.settle reader files subject) := by
  rw [settle]
  cases subject.kind? with
  | none => exact explainedFrom_withState_error (by simp)
  | some kind =>
      cases kind with
      | archive => exact detector.explainedFrom_archiveVerdict reader files subject
      | classFile =>
          cases hbytes : classBytes files subject.content with
          | error message => exact explainedFrom_withState_error (classBytes_eq_error hbytes)
          | ok bytes => exact ⟨detector.explained_settleClass subject bytes, .inl rfl⟩

/-- What holds of every scan of a single subject. -/
structure Settles (run : Subject → Logged Subject) : Prop where
  isSettled : ∀ subject, (run subject).value.isSettled = true
  explained : ∀ subject, subject.isSettled = false → ExplainedFrom subject (run subject).value
  stage_irrelevant : ∀ subject state, subject.isSettled = false →
    state.status.isTerminal = false → (run (subject.withState state)).value = (run subject).value
  of_isSettled : ∀ subject, subject.isSettled = true → run subject = pure subject
  idempotent : ∀ subject, run (run subject).value = pure (run subject).value

/-- However archives are read and whatever the file system answers, a scan
settles every subject, and settles it once. -/
theorem settles_detect (detector : Detector) :
    detector.detect = detector.detectWith Zip.records ∧
      ∀ reader files, Settles (detector.detectWith reader files) := by
  refine ⟨detector.detect_eq_detectWith, fun reader files => ?_⟩
  have hsettled : ∀ subject, (detector.detectWith reader files subject).value.isSettled = true := by
    intro subject
    cases hopen : subject.isSettled with
    | true =>
        rw [detectWith_of_isSettled hopen]
        exact hopen
    | false =>
        rw [detectWith_value hopen]
        exact (detector.explainedFrom_settle reader files subject).explained.isSettled
  constructor
  case isSettled => exact hsettled
  case explained =>
    intro subject hopen
    rw [detectWith_value hopen]
    exact detector.explainedFrom_settle reader files subject
  case stage_irrelevant =>
    intro subject state hopen hstate
    have hopen' : (subject.withState state).isSettled = false := hstate
    rw [detectWith_value hopen', detectWith_value hopen, settle_withState]
  case of_isSettled => exact fun subject => detectWith_of_isSettled
  case idempotent => exact fun subject => detectWith_of_isSettled (hsettled subject)

end Detector

end ClassWarden
