import ClassWarden.Note
import ClassWarden.Report
import Mathlib.Data.List.Basic

/-!
# The lifecycle of a subject

One event moves a subject in one of five ways or not at all.  What a subject
carries in its verdict is therefore known of every subject that events can lead
to, whatever archives and entries it was put together from: an infection has
findings, and an archive with entries has the verdict that its entries have
together.
-/

namespace ClassWarden

namespace Rank

theorem combine_eq_infected_iff {left right : Option Rank} :
    combine left right = some .infected ↔ left = some .infected ∨ right = some .infected := by
  cases left with
  | none => simp [combine]
  | some left =>
      cases right with
      | none => simp [combine]
      | some right => cases left <;> cases right <;> decide

theorem foldl_combine_eq_infected_iff {start : Option Rank} {ranks : List (Option Rank)} :
    ranks.foldl combine start = some .infected ↔
      start = some .infected ∨ some .infected ∈ ranks := by
  induction ranks generalizing start with
  | nil => simp
  | cons rank ranks ih =>
      rw [List.foldl_cons, ih, combine_eq_infected_iff, List.mem_cons, or_assoc,
        eq_comm (a := rank)]

/-- One infection decides. -/
theorem worst_eq_infected_iff {ranks : List (Option Rank)} :
    worst ranks = some .infected ↔ some .infected ∈ ranks := by
  rw [worst, foldl_combine_eq_infected_iff]
  simp

end Rank

namespace Subject

variable {subject next node child : Subject} {event : Event}

/-! ## One event -/

inductive Moves (subject : Subject) : Event → Subject → Prop where
  | load (hstage : subject.status = .added) :
      Moves subject .load (subject.withState .loading)
  | scan (hstage : subject.status = .loading) :
      Moves subject .scan (subject.withState .scanning)
  | complete (findings : List Finding) (hstage : subject.status = .scanning) :
      Moves subject (.complete findings) (subject.withState (Event.completed findings))
  | fail (message : String) (hopen : subject.isSettled = false) :
      Moves subject (.fail message) (subject.withState (.error message))
  | settle (children : List Subject) (hopen : subject.isSettled = false)
      (hstage : subject.status ≠ .added)
      (hsettled : ∀ child ∈ children, child.isSettled = true) :
      Moves subject (.settle children)
        { subject with state := aggregate children, children }

theorem Moves.isSettled_eq_false (hmoves : Moves subject event next) :
    subject.isSettled = false := by
  cases hmoves with
  | load hstage | scan hstage | complete findings hstage => rw [isSettled, hstage]; rfl
  | fail message hopen | settle children hopen => exact hopen

theorem apply_of_isSettled (hsettled : subject.isSettled = true) (event : Event) :
    subject.apply event = .error (.alreadySettled subject.name subject.status) := by
  rw [isSettled] at hsettled
  simp [apply, hsettled]

theorem accept_eq_ok_iff {stage : Prop} [Decidable stage] {moved : Subject}
    {reason : TransitionError} :
    (if stage then Except.ok moved else .error reason) = .ok next ↔ stage ∧ moved = next := by
  by_cases hstage : stage
  · simp [hstage]
  · simp [hstage]

/-- An event is accepted exactly for the moves. -/
theorem apply_eq_ok_iff : subject.apply event = .ok next ↔ Moves subject event next := by
  constructor
  · intro happly
    cases hopen : subject.isSettled with
    | true =>
        rw [apply_of_isSettled hopen] at happly
        cases happly
    | false =>
        have hstatus : subject.status.isTerminal = false := hopen
        cases event with
        | load =>
            simp only [apply, hstatus, Bool.false_eq_true, if_false, accept_eq_ok_iff] at happly
            obtain ⟨hstage, rfl⟩ := happly
            exact .load hstage
        | scan =>
            simp only [apply, hstatus, Bool.false_eq_true, if_false, accept_eq_ok_iff] at happly
            obtain ⟨hstage, rfl⟩ := happly
            exact .scan hstage
        | complete findings =>
            simp only [apply, hstatus, Bool.false_eq_true, if_false, accept_eq_ok_iff] at happly
            obtain ⟨hstage, rfl⟩ := happly
            exact .complete findings hstage
        | fail message =>
            simp only [apply, hstatus, Bool.false_eq_true, if_false] at happly
            cases happly
            exact .fail message hopen
        | settle children =>
            simp only [apply, hstatus, Bool.false_eq_true, if_false] at happly
            split at happly
            case isTrue => cases happly
            case isFalse hstage =>
              cases hfind : children.find? (!·.isSettled) with
              | some child =>
                  rw [hfind] at happly
                  cases happly
              | none =>
                  rw [hfind] at happly
                  cases happly
                  refine .settle children hopen hstage fun child hmem => ?_
                  simpa using List.find?_eq_none.mp hfind child hmem
  · intro hmoves
    have hopen : subject.status.isTerminal = false := hmoves.isSettled_eq_false
    cases hmoves with
    | load hstage | scan hstage | complete findings hstage =>
        simp [apply, hstage, Status.isTerminal, Status.rank?]
    | fail message hunsettled => simp [apply, hopen]
    | settle children hunsettled hstage hsettled =>
        have hfind : children.find? (!·.isSettled) = none :=
          List.find?_eq_none.mpr fun child hmem => by simp [hsettled child hmem]
        simp [apply, hopen, hstage, hfind]

/-! ## Verdicts of archives -/

theorem aggregate_isTerminal (children : List Subject) :
    (aggregate children).status.isTerminal = true := by
  rw [aggregate]
  split <;> rfl

theorem mem_findings_aggregate {findings : List Finding} {children : List Subject}
    (haggregate : aggregate children = .infected findings) :
    findings = children.flatMap (·.state.findings) ∧
      ∃ child ∈ children, ∃ own, child.state = .infected own := by
  rw [aggregate] at haggregate
  split at haggregate
  case h_1 hworst =>
    cases haggregate
    refine ⟨rfl, ?_⟩
    obtain ⟨child, hmem, hrank⟩ := List.mem_map.mp (Rank.worst_eq_infected_iff.mp hworst)
    refine ⟨child, hmem, ?_⟩
    cases hstate : child.state <;>
      simp [status, hstate, State.status, Status.rank?] at hrank ⊢
  case h_2 | h_3 => cases haggregate

/-! ## Subjects with everything below them -/

/-- The nodes of a subject's tree, the subject among them. -/
inductive Within : Subject → Subject → Prop where
  | self (subject : Subject) : Within subject subject
  | entry {node child subject : Subject} (hchild : child ∈ subject.children)
      (hnode : Within node child) : Within node subject

/-- What a subject's verdict has to agree with: an infection has findings, and
entries are settled and decide their archive's verdict. -/
structure Consistent (subject : Subject) : Prop where
  findings_ne_nil : ∀ findings, subject.state = .infected findings → findings ≠ []
  isSettled : subject.children ≠ [] → subject.isSettled = true
  children_isSettled : ∀ child ∈ subject.children, child.isSettled = true
  state_eq : subject.children ≠ [] → subject.state = aggregate subject.children

end Subject

namespace Event

/-- The subjects that an event brings with it. -/
def children : Event → List Subject
  | settle children => children
  | _ => []

end Event

namespace Subject

variable {subject next node : Subject} {event : Event}

/-- The subjects that events lead to.  Entries of an archive have come about in
the same way. -/
inductive Reachable : Subject → Prop where
  | new (name : String) (content : Content) : Reachable (new name content)
  | discovered (name : String) (content : Content) : Reachable (discovered name content)
  | apply {subject next : Subject} {event : Event} (hsubject : Reachable subject)
      (hchildren : ∀ child ∈ event.children, Reachable child)
      (happly : subject.apply event = .ok next) : Reachable next
  | advance {subject : Subject} {event : Event} (hsubject : Reachable subject)
      (hchildren : ∀ child ∈ event.children, Reachable child) :
      Reachable (subject.advance event).value
  | fail {subject : Subject} (message : String) (hsubject : Reachable subject) :
      Reachable (subject.fail message).value

/-- A step that was rejected leaves the subject as it is. -/
theorem advance_value_cases (subject : Subject) (event : Event) :
    (subject.advance event).value = subject ∨
      Moves subject event (subject.advance event).value := by
  rw [advance]
  cases happly : subject.apply event with
  | ok next => exact .inr (apply_eq_ok_iff.mp happly)
  | error reason => exact .inl rfl

/-- Consistency of every node. -/
def Sound (subject : Subject) : Prop :=
  ∀ node, Within node subject → Consistent node

theorem sound_of_children_eq_nil (hchildren : subject.children = [])
    (hfindings : ∀ findings, subject.state = .infected findings → findings ≠ []) :
    Sound subject := by
  intro node hnode
  cases hnode with
  | self =>
      refine ⟨hfindings, ?_, ?_, ?_⟩ <;> simp [hchildren]
  | entry hchild => simp [hchildren] at hchild

/-- Entries come only with the verdict. -/
theorem Sound.children_eq_nil (hsound : Sound subject) (hopen : subject.isSettled = false) :
    subject.children = [] := by
  by_contra hchildren
  have hsettled := (hsound subject (.self subject)).isSettled hchildren
  rw [hopen] at hsettled
  cases hsettled

theorem Sound.withState (hsound : Sound subject) (hopen : subject.isSettled = false)
    {state : State} (hfindings : ∀ findings, state = .infected findings → findings ≠ []) :
    Sound (subject.withState state) :=
  sound_of_children_eq_nil (hsound.children_eq_nil hopen) hfindings

theorem completed_ne_nil (findings : List Finding) :
    ∀ own, Event.completed findings = .infected own → own ≠ [] := by
  intro own hcompleted
  rw [Event.completed] at hcompleted
  split at hcompleted
  case isTrue => cases hcompleted
  case isFalse hne =>
    cases hcompleted
    simpa using hne

theorem Sound.settle {children : List Subject} (hchildren : ∀ child ∈ children, Sound child)
    (hsettled : ∀ child ∈ children, child.isSettled = true) :
    Sound { subject with state := aggregate children, children } := by
  intro node hnode
  cases hnode with
  | entry hchild hnode => exact hchildren _ hchild _ hnode
  | self =>
      refine ⟨fun findings hinfected => ?_, fun _ => aggregate_isTerminal children,
        hsettled, fun _ => rfl⟩
      obtain ⟨rfl, child, hmem, own, hown⟩ := mem_findings_aggregate hinfected
      have hne := (hchildren child hmem child (.self child)).findings_ne_nil own hown
      simp only [ne_eq, List.flatMap_eq_nil_iff, not_forall]
      exact ⟨child, hmem, by simpa [State.findings, State.findings?, hown] using hne⟩

/-- One event keeps soundness, if the subjects it brings are sound. -/
theorem Moves.sound (hmoves : Moves subject event next) (hsound : Sound subject)
    (hchildren : ∀ child ∈ event.children, Sound child) : Sound next := by
  have hopen := hmoves.isSettled_eq_false
  -- No move but the last one touches the entries, and an open subject has none.
  cases hmoves with
  | load hstage | scan hstage | fail message hunsettled =>
      exact hsound.withState hopen (by simp)
  | complete findings hstage => exact hsound.withState hopen (completed_ne_nil findings)
  | settle children hunsettled hstage hsettled => exact .settle hchildren hsettled

theorem advance_sound (hsound : Sound subject)
    (hchildren : ∀ child ∈ event.children, Sound child) :
    Sound (subject.advance event).value := by
  obtain hsame | hmoves := advance_value_cases subject event
  · rw [hsame]
    exact hsound
  · exact hmoves.sound hsound hchildren

theorem Reachable.sound (hreachable : Reachable subject) : Sound subject := by
  induction hreachable with
  | new name content => exact sound_of_children_eq_nil rfl (by simp [Subject.new])
  | discovered name content => exact sound_of_children_eq_nil rfl (by simp [Subject.discovered])
  | apply _ _ happly hsound hchildren =>
      exact (apply_eq_ok_iff.mp happly).sound hsound hchildren
  | advance _ _ hsound hchildren => exact advance_sound hsound hchildren
  | fail message _ hsound => exact advance_sound hsound (by simp [Event.children])

end Subject

/-! ## Reports of subjects -/

namespace SubjectReport

/-- The reports in a report, the whole among them. -/
inductive Within : SubjectReport → SubjectReport → Prop where
  | self (report : SubjectReport) : Within report report
  | entry {node child report : SubjectReport} (hchild : child ∈ report.children)
      (hnode : Within node child) : Within node report

theorem ofSubjects_eq_map (subjects : List Subject) :
    ofSubjects subjects = subjects.map ofSubject := by
  induction subjects with
  | nil => rw [ofSubjects, List.map_nil]
  | cons subject subjects ih => rw [ofSubjects, ih, List.map_cons]

theorem ofSubject_eq (subject : Subject) :
    ofSubject subject =
      { name := subject.name
        status := subject.status
        sha256 := subject.sha256
        findings := subject.state.findings
        error := subject.state.error?
        children := subject.children.map ofSubject } := by
  cases subject
  rw [ofSubject, ofSubjects_eq_map]
  rfl

/-- The reports in a subject's report are those of its nodes. -/
theorem exists_of_within_ofSubject {report : SubjectReport} {subject : Subject}
    (hreport : Within report (ofSubject subject)) :
    ∃ node, node.Within subject ∧ report = ofSubject node := by
  generalize hwhole : ofSubject subject = whole at hreport
  induction hreport generalizing subject with
  | self => exact ⟨subject, .self subject, hwhole.symm⟩
  | entry hchild _ ih =>
      rw [← hwhole, ofSubject_eq] at hchild
      obtain ⟨child, hmem, rfl⟩ := List.mem_map.mp hchild
      obtain ⟨node, hnode, rfl⟩ := ih rfl
      exact ⟨node, .entry hmem hnode, rfl⟩

/-- A report shows findings for an infection only and an error for a failure
only. -/
theorem ofSubject_payload {subject : Subject} (hconsistent : subject.Consistent) :
    ((ofSubject subject).findings ≠ [] ↔ (ofSubject subject).status = .infected) ∧
      ((ofSubject subject).error.isSome = true ↔ (ofSubject subject).status = .error) := by
  rw [ofSubject_eq]
  have hfindings := hconsistent.findings_ne_nil
  cases hstate : subject.state with
  | infected findings =>
      have hne := hfindings findings hstate
      simp [State.findings, State.findings?, State.error?, Subject.status, State.status, hstate,
        hne]
  | added | loading | scanning | clean | error message =>
      simp [State.findings, State.findings?, State.error?, Subject.status, State.status, hstate]

end SubjectReport

namespace Subject

/-- Wherever events lead, every node of the subject is consistent, and its
report shows findings and errors with the statuses they belong to. -/
theorem consistent_of_reachable {subject : Subject} (hreachable : Reachable subject) :
    (∀ node, Within node subject → Consistent node) ∧
      ∀ report, SubjectReport.Within report (SubjectReport.ofSubject subject) →
        (report.findings ≠ [] ↔ report.status = .infected) ∧
          (report.error.isSome = true ↔ report.status = .error) := by
  refine ⟨hreachable.sound, fun report hreport => ?_⟩
  obtain ⟨node, hnode, rfl⟩ := SubjectReport.exists_of_within_ofSubject hreport
  exact SubjectReport.ofSubject_payload (hreachable.sound node hnode)

/-- An archive with an infected entry and one that could not be read. -/
theorem consistent_of_reachable_archive :
    let infected := (((discovered "A.class" (.entry 0)).advance .scan).value.advance
      (.complete [⟨"run", "sig2", 0, 1⟩])).value
    let broken := ((discovered "B.class" (.entry 1)).fail "File is empty").value
    let archive := ((discovered "lib.jar" .missing).advance (.settle [infected, broken])).value
    Reachable archive ∧ archive.state = .infected [⟨"run", "sig2", 0, 1⟩] ∧
      ∀ node, Within node archive → Consistent node := by
  intro infected broken archive
  have hinfected : Reachable infected :=
    .advance (.advance (.discovered _ _) (by simp [Event.children])) (by simp [Event.children])
  have hbroken : Reachable broken := .fail _ (.discovered _ _)
  have harchive : Reachable archive :=
    .advance (.discovered _ _) (by simp [Event.children, hinfected, hbroken])
  exact ⟨harchive, by decide, (consistent_of_reachable harchive).1⟩

end Subject

end ClassWarden
