import ClassWarden.Files.Tree
import ClassWarden.Program
import ClassWarden.Proofs.Persistence

/-!
# The verdict of a whole scan

A scan that gets to its end reports every subject that it collected as clean,
infected or failed, and its exit status tells whether some class that it read has
findings.  The class may be a file of its own or an entry of an archive; failures
and clean classes next to it do not matter.

File systems are taken as they come: answers may depend on what was asked before,
which is what the state of a run stands for.  How archives are read is left open
as well.
-/

namespace ClassWarden

namespace Summary

variable {subjects : List Subject}

/-- Settled subjects are counted once each. -/
theorem scanned_ofSubjects (hsettled : ∀ subject ∈ subjects, subject.isSettled = true) :
    (ofSubjects subjects).scanned =
      (ofSubjects subjects).clean + (ofSubjects subjects).infected +
        (ofSubjects subjects).error := by
  simp only [ofSubjects]
  induction subjects with
  | nil => rfl
  | cons subject subjects ih =>
      obtain ⟨hsubject, hsubjects⟩ := List.forall_mem_cons.mp hsettled
      have hlater := ih hsubjects
      rw [Subject.isSettled] at hsubject
      simp only [List.filter_cons, List.length_cons]
      cases hstatus : subject.status with
      | added | loading | scanning =>
          rw [hstatus] at hsubject
          cases hsubject
      | clean | infected | error =>
          simp only [reduceCtorEq, decide_false, decide_true, if_true, if_false,
            Bool.false_eq_true, List.length_cons]
          omega

theorem infected_ofSubjects_pos_iff :
    0 < (ofSubjects subjects).infected ↔ ∃ subject ∈ subjects, subject.status = .infected := by
  simp only [ofSubjects, List.length_pos_iff_exists_mem, List.mem_filter, decide_eq_true_eq]

end Summary

namespace Detector

variable {detector : Detector} {record : Zip.Record} {records : List Zip.Record}
variable {reader : ArchiveReader} {files : String → FileAnswer} {subject : Subject}

/-! ## Infections -/

theorem status_entryVerdict_eq_infected_iff {index : Nat} :
    (detector.entryVerdict record index).status = .infected ↔
      ∃ bytes, record.content = .ok bytes ∧ bytes ≠ [] ∧
        (detector.verdict bytes).status = .infected := by
  cases hcontent : record.content with
  | error fault =>
      rw [entryVerdict_of_error index hcontent]
      simp [State.status]
  | ok bytes =>
      by_cases hempty : bytes = []
      · subst hempty
        rw [entryVerdict_of_empty index hcontent]
        simp [State.status]
      · rw [entryVerdict_of_bytes index hcontent hempty]
        simp only [Except.ok.injEq, exists_eq_left', ne_eq, hempty, not_false_eq_true, true_and]
        rfl

/-- A class among the entries of an archive. -/
def IsClassEntry (record : Zip.Record) : Prop :=
  ∃ name, record.header = .ok name ∧ isDirectoryName name = false ∧
    Subject.hasSuffix name ".class" = true

/-- An entry that becomes a subject and can be read is a class. -/
theorem isListed_iff_isClassEntry {bytes : List UInt8} (hcoherent : record.Coherent)
    (hcontent : record.content = .ok bytes) : isListed record = true ↔ IsClassEntry record := by
  rw [isListed, IsClassEntry]
  cases hheader : record.header with
  | ok name => simp
  | error fault =>
      have hunread := hcoherent (by rw [hheader]; rfl)
      rw [hcontent] at hunread
      cases hunread

theorem exists_entryVerdict_infected_iff (hcoherent : ∀ record ∈ records, record.Coherent) :
    (∃ child ∈ detector.entryVerdicts records, child.status = .infected) ↔
      ∃ record ∈ records, IsClassEntry record ∧ ∃ bytes, record.content = .ok bytes ∧
        bytes ≠ [] ∧ (detector.verdict bytes).status = .infected := by
  constructor
  · rintro ⟨child, hchild, hinfected⟩
    obtain ⟨⟨record, index⟩, hmem, rfl⟩ := List.mem_map.mp hchild
    obtain ⟨hmem, hlisted⟩ := List.mem_filter.mp hmem
    obtain ⟨bytes, hcontent, hne, hverdict⟩ := status_entryVerdict_eq_infected_iff.mp hinfected
    have hrecord := List.fst_mem_of_mem_zipIdx hmem
    have hclass := (isListed_iff_isClassEntry (hcoherent record hrecord) hcontent).mp hlisted
    exact ⟨record, hrecord, hclass, bytes, hcontent, hne, hverdict⟩
  · rintro ⟨record, hrecord, hclass, bytes, hcontent, hne, hverdict⟩
    obtain ⟨index, hindex⟩ := List.mem_iff_getElem?.mp hrecord
    have hlisted := (isListed_iff_isClassEntry (hcoherent record hrecord) hcontent).mpr hclass
    have hmem : (record, index) ∈ listed records :=
      List.mem_filter.mpr ⟨List.mem_zipIdx_iff_getElem?.mpr hindex, hlisted⟩
    exact ⟨_, List.mem_map_of_mem hmem,
      status_entryVerdict_eq_infected_iff.mpr ⟨bytes, hcontent, hne, hverdict⟩⟩

/-- No faulty header in front of something that can be read. -/
def Coherent (reader : ArchiveReader) : Prop :=
  ∀ archive records, reader archive = .ok records → ∀ record ∈ records, record.Coherent

/-- Where a scan that gets an answer for its subject comes by the bytes of a class:
in a file of its own, or in an archive as an entry that is not empty. -/
inductive Reads (reader : ArchiveReader) : Subject → FileAnswer → List UInt8 → Prop where
  | file {subject : Subject} {bytes : List UInt8} (hkind : subject.kind? = some .classFile) :
      Reads reader subject (.bytes bytes) bytes
  | entry {subject : Subject} {archive : List UInt8} {records : List Zip.Record}
      {record : Zip.Record} {bytes : List UInt8} (hkind : subject.kind? = some .archive)
      (hrecords : reader archive = .ok records) (hrecord : record ∈ records)
      (hclass : IsClassEntry record) (hcontent : record.content = .ok bytes)
      (hne : bytes ≠ []) : Reads reader subject (.bytes archive) bytes

theorem reads_iff_of_classFile (hkind : subject.kind? = some .classFile) {answer : FileAnswer}
    {bytes : List UInt8} : Reads reader subject answer bytes ↔ answer = .bytes bytes := by
  constructor
  · rintro (_ | hother)
    · rfl
    · rw [hkind] at hother
      cases hother
  · rintro rfl
    exact .file hkind

theorem reads_iff_of_archive (hkind : subject.kind? = some .archive) {answer : FileAnswer}
    {bytes : List UInt8} :
    Reads reader subject answer bytes ↔
      ∃ archive records, answer = .bytes archive ∧ reader archive = .ok records ∧
        ∃ record ∈ records, IsClassEntry record ∧ record.content = .ok bytes ∧ bytes ≠ [] := by
  constructor
  · rintro (hother | ⟨-, hrecords, hrecord, hclass, hcontent, hne⟩)
    · rw [hkind] at hother
      cases hother
    · exact ⟨_, _, rfl, hrecords, _, hrecord, hclass, hcontent, hne⟩
  · rintro ⟨archive, records, rfl, hrecords, record, hrecord, hclass, hcontent, hne⟩
    exact .entry hkind hrecords hrecord hclass hcontent hne

theorem not_reads_of_kind?_eq_none (hkind : subject.kind? = none) {answer : FileAnswer}
    {bytes : List UInt8} : ¬Reads reader subject answer bytes := by
  rintro (hother | hother) <;> rw [hkind] at hother <;> cases hother

theorem status_archiveVerdict_eq_infected_iff (hcoherent : Coherent reader) {path : String}
    (hcontent : subject.content = .file path) {answer : FileAnswer} :
    (detector.archiveVerdict reader (fun _ => answer) subject).status = .infected ↔
      ∃ archive records, answer = .bytes archive ∧ reader archive = .ok records ∧
        ∃ record ∈ records, IsClassEntry record ∧ ∃ bytes, record.content = .ok bytes ∧
          bytes ≠ [] ∧ (detector.verdict bytes).status = .infected := by
  rw [archiveVerdict, hcontent]
  cases answer with
  | directory | refused error => simp [archiveBytes, State.status]
  | bytes archive =>
      simp only [archiveBytes, FileAnswer.bytes.injEq, exists_and_left, exists_eq_left']
      cases hrecords : reader archive with
      | error fault => simp [State.status]
      | ok records =>
          simp only [Except.ok.injEq, exists_eq_left']
          rw [← exists_entryVerdict_infected_iff (hcoherent archive records hrecords)]
          exact (Subject.isWorst_aggregate _).infected_iff

/-- A file infects its subject through the classes that are read from it. -/
theorem status_settle_eq_infected_iff (hcoherent : Coherent reader) {path : String}
    (hcontent : subject.content = .file path) {answer : FileAnswer} :
    (detector.settle reader (fun _ => answer) subject).status = .infected ↔
      ∃ bytes, Reads reader subject answer bytes ∧
        (detector.verdict bytes).status = .infected := by
  rw [settle]
  cases hkind : subject.kind? with
  | none => simp [not_reads_of_kind?_eq_none hkind, State.status]
  | some kind =>
      cases kind with
      | classFile =>
          simp only [reads_iff_of_classFile hkind, hcontent, classBytes]
          cases answer with
          | directory | refused error => simp [State.status]
          | bytes bytes =>
              simp only [FileAnswer.bytes.injEq, exists_eq_left']
              rfl
      | archive =>
          simp only [reads_iff_of_archive hkind,
            status_archiveVerdict_eq_infected_iff hcoherent hcontent]
          constructor
          · rintro ⟨archive, records, hanswer, hrecords, record, hrecord, hclass, bytes,
              hbytes, hne, hverdict⟩
            exact ⟨bytes, ⟨archive, records, hanswer, hrecords, record, hrecord, hclass,
              hbytes, hne⟩, hverdict⟩
          · rintro ⟨bytes, ⟨archive, records, hanswer, hrecords, record, hrecord, hclass,
              hbytes, hne⟩, hverdict⟩
            exact ⟨archive, records, hanswer, hrecords, record, hrecord, hclass, bytes,
              hbytes, hne, hverdict⟩

end Detector

namespace Program

open Detector (ArchiveReader)

/-! ## A scan in two steps -/

section

variable {m : Type → Type} [Monad m] [FileSystem m]

/-- Subjects with what the system answers for their bytes. -/
def readings : List Subject → m (List (Subject × FileAnswer))
  | [] => return []
  | subject :: subjects => do
    let answer ← answerFor subject
    return (subject, answer) :: (← readings subjects)

def judge (options : MatchOptions) (reader : ArchiveReader) (reading : Subject × FileAnswer) :
    Subject :=
  ((Detector.standard options).detectWith reader (fun _ => reading.2) reading.1).value

def reportOn (options : MatchOptions) (reader : ArchiveReader)
    (readings : List (Subject × FileAnswer)) : Report :=
  .ofSubjects (readings.map (judge options reader))

/-- A scan that reads archives in some other way.  It reads all files before it
looks into any of them. -/
def scanWith (reader : ArchiveReader) (options : MatchOptions) (paths : List String)
    (format : Format) (output? : Option String) : m (Except Failure Outcome) := do
  match ← collect paths with
  | .error failure => return .error failure
  | .ok subjects =>
    let report := reportOn options reader (← readings subjects)
    deliver output? (render report format) (if report.anyInfected then 1 else 0)

variable [LawfulMonad m]

theorem settle_eq_map_readings (options : MatchOptions) (subjects : List Subject) :
    settle (m := m) (.standard options) subjects =
      List.map (judge options Zip.records) <$> readings subjects := by
  induction subjects with
  | nil => simp [settle, readings]
  | cons subject subjects ih =>
      simp only [settle, readings, ih, map_bind, bind_map_left, map_pure, List.map_cons]
      rfl

theorem scan_eq_scanWith (options : MatchOptions) (paths : List String) (format : Format)
    (output? : Option String) :
    scan (m := m) options paths format output? =
      scanWith Zip.records options paths format output? := by
  simp only [scan, scanWith, settle_eq_map_readings, bind_map_left]
  rfl

end

/-! ## What the steps of a scan give -/

/-- A run that gives up when its first step fails and ends well went through that
step. -/
theorem bind_eq_ok {σ α β : Type} {start finish : σ} {first : StateM σ (Except Failure α)}
    {rest : Except Failure α → StateM σ (Except Failure β)} {value : β}
    (hrun : (first >>= rest).run start = (.ok value, finish))
    (hfails : ∀ failure, rest (.error failure) = pure (.error failure)) :
    ∃ given middle, first.run start = (.ok given, middle) ∧
      (rest (.ok given)).run middle = (.ok value, finish) := by
  rw [StateT.run_bind] at hrun
  rcases hfirst : first.run start with ⟨failure | given, middle⟩
  · rw [hfirst] at hrun
    change (rest (.error failure)).run middle = _ at hrun
    rw [hfails] at hrun
    cases hrun
  · rw [hfirst] at hrun
    exact ⟨given, middle, rfl, hrun⟩

section

variable {σ : Type} [FileSystem (StateM σ)] {start finish : σ} {subjects : List Subject}

theorem subjectsAt_eq_ok {path : String}
    (hsubjects : (subjectsAt (m := StateM σ) path).run start = (.ok subjects, finish)) :
    ∃ targets : List String, subjects = targets.map fileSubject := by
  rw [subjectsAt, StateT.run_bind] at hsubjects
  rcases hlist : (FileSystem.list (m := StateM σ) path).run start with
    ⟨failure | (_ | entries | _), middle⟩
  all_goals
    rw [hlist] at hsubjects
    cases hsubjects
  · exact ⟨[path], rfl⟩
  · exact ⟨_, rfl⟩
  · exact ⟨[path], rfl⟩

/-- Only files are collected. -/
theorem collect_eq_ok {paths : List String}
    (hsubjects : (collect (m := StateM σ) paths).run start = (.ok subjects, finish)) :
    ∃ targets : List String, subjects = targets.map fileSubject := by
  induction paths generalizing start finish subjects with
  | nil =>
      cases hsubjects
      exact ⟨[], rfl⟩
  | cons path paths ih =>
      rw [collect] at hsubjects
      obtain ⟨first, middle, hfirst, hrest⟩ := bind_eq_ok hsubjects fun _ => rfl
      obtain ⟨later, after, hlater, hjoined⟩ := bind_eq_ok hrest fun _ => rfl
      obtain ⟨targets, rfl⟩ := subjectsAt_eq_ok hfirst
      obtain ⟨more, rfl⟩ := ih hlater
      cases hjoined
      exact ⟨targets ++ more, List.map_append.symm⟩

/-- Every subject gets its answer. -/
theorem map_fst_readings (subjects : List Subject) (start : σ) :
    ((readings (m := StateM σ) subjects).run start).1.map Prod.fst = subjects := by
  induction subjects generalizing start with
  | nil => rfl
  | cons subject subjects ih => exact congrArg (subject :: ·) (ih _)

/-- A report that is handed over leaves its status behind. -/
theorem deliver_eq_ok {output? : Option String} {content : String} {status : Nat}
    {outcome : Outcome}
    (hdeliver : (deliver (m := StateM σ) output? content status).run start =
      (.ok outcome, finish)) : outcome.status = status := by
  cases output? with
  | none =>
      cases hdeliver
      rfl
  | some path =>
      rw [deliver] at hdeliver
      obtain ⟨_, written, _, hdone⟩ := bind_eq_ok hdeliver fun _ => rfl
      cases hdone
      rfl

/-! ## Counts and exit status -/

variable {options : MatchOptions} {reader : ArchiveReader} {paths arguments : List String}
variable {environment : Environment} {format : Format} {output? : Option String}
variable {outcome : Outcome} {targets : List String}

/-- Among what a scan read there is a class with findings. -/
def FindsSomething (options : MatchOptions) (reader : ArchiveReader)
    (readings : List (Subject × FileAnswer)) : Prop :=
  ∃ reading ∈ readings, ∃ bytes, Detector.Reads reader reading.1 reading.2 bytes ∧
    ∃ findings, (Detector.standard options).findMatches bytes = .ok findings ∧ findings ≠ []

/-- Counts and an exit status that agree with what a scan collected and read. -/
structure Accounts (options : MatchOptions) (reader : ArchiveReader) (subjects : List Subject)
    (readings : List (Subject × FileAnswer)) (status : Nat) : Prop where
  subjects_eq : readings.map Prod.fst = subjects
  scanned_eq_length : (reportOn options reader readings).summary.scanned = subjects.length
  scanned_eq_sum : (reportOn options reader readings).summary.scanned =
    (reportOn options reader readings).summary.clean +
      (reportOn options reader readings).summary.infected +
      (reportOn options reader readings).summary.error
  status_eq_one_iff : status = 1 ↔ FindsSomething options reader readings
  status_eq_zero_iff : status = 0 ↔ ¬FindsSomething options reader readings

theorem judge_fileSubject (options : MatchOptions) (reader : ArchiveReader) (path : String)
    (answer : FileAnswer) :
    judge options reader (fileSubject path, answer) =
      (Detector.standard options).settle reader (fun _ => answer) (fileSubject path) :=
  Detector.detectWith_value rfl

theorem isSettled_judge (options : MatchOptions) (reader : ArchiveReader) (path : String)
    (answer : FileAnswer) : (judge options reader (fileSubject path, answer)).isSettled = true := by
  rw [judge_fileSubject]
  exact (Detector.explainedFrom_settle _ reader _ _).explained.isSettled

theorem status_judge_eq_infected_iff (hcoherent : Detector.Coherent reader) (path : String)
    (answer : FileAnswer) :
    (judge options reader (fileSubject path, answer)).status = .infected ↔
      ∃ bytes, Detector.Reads reader (fileSubject path) answer bytes ∧
        ∃ findings, (Detector.standard options).findMatches bytes = .ok findings ∧
          findings ≠ [] := by
  rw [judge_fileSubject, Detector.status_settle_eq_infected_iff hcoherent rfl]
  simp only [Detector.status_verdict_eq_infected_iff]

/-- The exit status that goes with a report. -/
theorem anyInfected_reportOn_iff (hcoherent : Detector.Coherent reader)
    {readings : List (Subject × FileAnswer)}
    (hfiles : ∀ reading ∈ readings, ∃ path, reading.1 = fileSubject path) :
    (reportOn options reader readings).anyInfected = true ↔
      FindsSomething options reader readings := by
  rw [Report.anyInfected, decide_eq_true_eq, reportOn, Report.ofSubjects,
    Summary.infected_ofSubjects_pos_iff, FindsSomething]
  constructor
  · rintro ⟨subject, hsubject, hinfected⟩
    obtain ⟨⟨subject, answer⟩, hreading, rfl⟩ := List.mem_map.mp hsubject
    obtain ⟨path, rfl⟩ := hfiles _ hreading
    exact ⟨_, hreading, (status_judge_eq_infected_iff hcoherent path answer).mp hinfected⟩
  · rintro ⟨⟨subject, answer⟩, hreading, hfinds⟩
    obtain ⟨path, rfl⟩ := hfiles _ hreading
    exact ⟨_, List.mem_map_of_mem hreading,
      (status_judge_eq_infected_iff hcoherent path answer).mpr hfinds⟩

theorem accounts_of_readings (hcoherent : Detector.Coherent reader)
    {readings : List (Subject × FileAnswer)}
    (hsubjects : readings.map Prod.fst = targets.map fileSubject) :
    Accounts options reader (targets.map fileSubject) readings
      (if (reportOn options reader readings).anyInfected then 1 else 0) := by
  have hfiles : ∀ reading ∈ readings, ∃ path, reading.1 = fileSubject path := by
    intro reading hreading
    have hsubject : reading.1 ∈ targets.map fileSubject := by
      rw [← hsubjects]
      exact List.mem_map_of_mem hreading
    obtain ⟨path, -, hpath⟩ := List.mem_map.mp hsubject
    exact ⟨path, hpath.symm⟩
  have hsettled : ∀ subject ∈ readings.map (judge options reader), subject.isSettled = true := by
    intro subject hsubject
    obtain ⟨⟨subject, answer⟩, hreading, rfl⟩ := List.mem_map.mp hsubject
    obtain ⟨path, rfl⟩ := hfiles _ hreading
    exact isSettled_judge options reader path answer
  have hfinds : (reportOn options reader readings).anyInfected = true ↔
      FindsSomething options reader readings :=
    anyInfected_reportOn_iff hcoherent hfiles
  refine ⟨hsubjects, ?_, Summary.scanned_ofSubjects hsettled, ?_, ?_⟩
  · rw [← hsubjects]
    simp [reportOn, Report.ofSubjects, Summary.ofSubjects]
  · rw [← hfinds]
    split <;> simp_all
  · rw [← hfinds]
    split <;> simp_all

/-- The command line asks for a scan, and every setting of it can be resolved. -/
def AsksForScan (environment : Environment) (arguments : List String) (options : MatchOptions)
    (paths : List String) (format : Format) (output? : Option String) : Prop :=
  ∃ values threads?,
    Arguments.parse (ImplicitScan.complete arguments) = .ok ⟨.scan paths, values⟩ ∧
      Settings.threads environment values = .ok threads? ∧
      Settings.matchOptions environment values = .ok options ∧
      values.format.getD .json = format ∧ values.output = output?

theorem run_eq_scan (hasks : AsksForScan environment arguments options paths format output?)
    (hscan : (scan (m := StateM σ) options paths format output?).run start =
      (.ok outcome, finish)) :
    (run (m := StateM σ) environment arguments).run start = (outcome, finish) := by
  obtain ⟨values, threads?, hparse, hthreads, hoptions, rfl, rfl⟩ := hasks
  have hperform : (perform (m := StateM σ) environment ⟨.scan paths, values⟩).run start =
      (.ok outcome, finish) := by
    rw [perform]
    simp only [hthreads, hoptions]
    exact hscan
  rw [run, hparse]
  dsimp only
  rw [StateT.run_bind, hperform]
  rfl

/-- A scan that gets to its end hands over a report that counts every collected
subject under its verdict, and its exit status is 1 if some class that it read has
findings, else 0.  With the program's own reader of archives this is the run of the
whole program. -/
theorem scan_exit_status (hcoherent : Detector.Coherent reader)
    (hasks : AsksForScan environment arguments options paths format output?)
    (hend : (scanWith (m := StateM σ) reader options paths format output?).run start =
      (.ok outcome, finish)) :
    (reader = Zip.records →
        (run (m := StateM σ) environment arguments).run start = (outcome, finish)) ∧
      ∃ subjects collected,
        (collect (m := StateM σ) paths).run start = (.ok subjects, collected) ∧
          let read := (readings (m := StateM σ) subjects).run collected
          (deliver (m := StateM σ) output? (render (reportOn options reader read.1) format)
              outcome.status).run read.2 = (.ok outcome, finish) ∧
            Accounts options reader subjects read.1 outcome.status := by
  constructor
  · rintro rfl
    rw [← scan_eq_scanWith] at hend
    exact run_eq_scan hasks hend
  · rw [scanWith] at hend
    obtain ⟨subjects, collected, hcollect, hdeliver⟩ := bind_eq_ok hend fun _ => rfl
    refine ⟨subjects, collected, hcollect, ?_⟩
    intro read
    replace hdeliver : (deliver (m := StateM σ) output?
        (render (reportOn options reader read.1) format)
        (if (reportOn options reader read.1).anyInfected then 1 else 0)).run read.2 =
          (.ok outcome, finish) := hdeliver
    obtain ⟨targets, rfl⟩ := collect_eq_ok hcollect
    rw [deliver_eq_ok hdeliver]
    exact ⟨hdeliver, accounts_of_readings hcoherent (map_fst_readings _ _)⟩

end

/-- A class with the third signature, one that is cut short and a file of another
kind. -/
theorem scan_exit_status_mixedTree :
    let code := [0x59, 0x03] ++ Detector.encode Signature.addressBytes.pattern ++ [0x54, 0xb1]
    let tree : FileTree := ⟨[("A.class", .file (Detector.oneMethodClass code)),
      ("B.class", .file [0xca, 0xfe]), ("notes.txt", .file [])]⟩
    let arguments := ["class-warden", "B.class", "A.class", "notes.txt"]
    ∃ outcome finish,
      (run (m := InTree) (fun _ => none) arguments).run tree = (outcome, finish) ∧
        outcome.status = 1 ∧
        ∃ subjects collected,
          (collect (m := InTree) arguments.tail).run tree = (.ok subjects, collected) ∧
            subjects.length = 3 ∧
            FindsSomething .standard Zip.records
              ((readings (m := InTree) subjects).run collected).1 := by
  intro code tree arguments
  have hasks : AsksForScan (fun _ => none) arguments .standard arguments.tail .json none :=
    ⟨⟨none, none, none, none, none⟩, none, by decide +kernel, rfl, rfl, rfl, rfl⟩
  rcases hend : (scanWith (m := InTree) Zip.records .standard arguments.tail .json none).run tree
    with ⟨failure | outcome, finish⟩
  · have hok : ((scanWith (m := InTree) Zip.records .standard arguments.tail .json none).run
        tree).1.isOk = true := by
      decide +kernel
    rw [hend] at hok
    cases hok
  · have hcoherent : Detector.Coherent Zip.records :=
      fun _ _ hrecords => Zip.coherent_of_mem_records hrecords
    obtain ⟨hrun, subjects, collected, hcollect, -, haccounts⟩ :=
      scan_exit_status hcoherent hasks hend
    have hstatus : ((run (m := InTree) (fun _ => none) arguments).run tree).1.status = 1 := by
      decide +kernel
    rw [hrun rfl] at hstatus
    have hlength : ((collect (m := InTree) arguments.tail).run tree).1.toOption.map List.length =
        some 3 := by
      decide +kernel
    rw [hcollect] at hlength
    exact ⟨outcome, finish, hrun rfl, hstatus, subjects, collected, hcollect,
      Option.some.inj hlength, haccounts.status_eq_one_iff.mp hstatus⟩

end Program

end ClassWarden
