import ClassWarden.Proofs.Lifecycle
import Mathlib.Data.List.Chain

/-!
# Runs of the lifecycle

A run drives a subject through any events, of which the ones that do not belong
to its stage are rejected.  Whatever the events are, the subject only goes
forward: every event that is accepted brings it to a later stage, so there are
never more than three of them, and the verdict is final.  All that events change
besides is the entries, which come with the event that settles an archive.
-/

namespace ClassWarden

namespace Status

def stage : Status → Nat
  | added => 0
  | loading => 1
  | scanning => 2
  | clean | infected | error => 3

theorem stage_le (status : Status) : status.stage ≤ 3 := by
  cases status <;> decide

theorem stage_lt_of_isTerminal {status verdict : Status} (hopen : status.isTerminal = false)
    (hverdict : verdict.isTerminal = true) : status.stage < verdict.stage := by
  cases status with
  | clean | infected | error => cases hopen
  | added | loading | scanning =>
      cases verdict with
      | added | loading | scanning => cases hverdict
      | clean | infected | error => decide

end Status

namespace Subject

variable {subject next : Subject} {event : Event}

/-! ## What a move changes -/

theorem completed_isTerminal (findings : List Finding) :
    (Event.completed findings).status.isTerminal = true := by
  rw [Event.completed]
  split <;> rfl

theorem Moves.stage_lt (hmoves : Moves subject event next) :
    subject.status.stage < next.status.stage := by
  have hopen : subject.status.isTerminal = false := hmoves.isSettled_eq_false
  cases hmoves with
  | load hstage | scan hstage =>
      rw [hstage]
      exact Nat.lt_succ_self _
  | complete findings hstage =>
      exact Status.stage_lt_of_isTerminal hopen (completed_isTerminal findings)
  | fail message hunsettled => exact Status.stage_lt_of_isTerminal hopen rfl
  | settle children hunsettled hstage hsettled =>
      exact Status.stage_lt_of_isTerminal hopen (aggregate_isTerminal children)

/-- The two subjects go by one name and have the same bytes behind them. -/
structure SameOrigin (left right : Subject) : Prop where
  name_eq : right.name = left.name
  content_eq : right.content = left.content
  sha256_eq : right.sha256 = left.sha256

theorem SameOrigin.refl (subject : Subject) : SameOrigin subject subject :=
  ⟨rfl, rfl, rfl⟩

theorem SameOrigin.trans {left middle right : Subject} (hleft : SameOrigin left middle)
    (hright : SameOrigin middle right) : SameOrigin left right where
  name_eq := hright.name_eq.trans hleft.name_eq
  content_eq := hright.content_eq.trans hleft.content_eq
  sha256_eq := hright.sha256_eq.trans hleft.sha256_eq

theorem Moves.sameOrigin (hmoves : Moves subject event next) : SameOrigin subject next := by
  cases hmoves <;> exact ⟨rfl, rfl, rfl⟩

/-- Entries come with one event only. -/
theorem Moves.event_eq_settle (hmoves : Moves subject event next)
    (hchildren : next.children ≠ subject.children) : event = .settle next.children := by
  cases hmoves with
  | load | scan | complete | fail => exact absurd rfl hchildren
  | settle children => rfl

/-- A subject becomes clean or infected by the comparison with the signatures or
by its settled entries. -/
theorem Moves.clean_or_infected (hmoves : Moves subject event next)
    (hverdict : next.status = .clean ∨ next.status = .infected) :
    (∃ findings, event = .complete findings ∧ subject.status = .scanning) ∨
      ∃ children, event = .settle children ∧
        (subject.status = .loading ∨ subject.status = .scanning) ∧
          ∀ child ∈ children, child.isSettled = true := by
  cases hmoves with
  | load | scan | fail => obtain hverdict | hverdict := hverdict <;> cases hverdict
  | complete findings hstage => exact .inl ⟨findings, rfl, hstage⟩
  | settle children hopen hstage hsettled =>
      refine .inr ⟨children, rfl, ?_, hsettled⟩
      rw [isSettled] at hopen
      cases hstatus : subject.status with
      | added => exact absurd hstatus hstage
      | loading => exact .inl rfl
      | scanning => exact .inr rfl
      | clean | infected | error =>
          rw [hstatus] at hopen
          cases hopen

/-! ## Runs -/

/-- One event of a run, with the subject that it met and the one that it left. -/
structure Step where
  before : Subject
  event : Event
  after : Subject

def Step.accepted (step : Step) : Bool :=
  (step.before.apply step.event).isOk

/-- The events of a run, one after another. -/
def steps (subject : Subject) : List Event → List Step
  | [] => []
  | event :: events =>
    let next := (subject.advance event).value
    ⟨subject, event, next⟩ :: next.steps events

/-- The subject as it goes through a run, from the start on. -/
def course (subject : Subject) (events : List Event) : List Subject :=
  subject :: (subject.steps events).map Step.after

variable {events : List Event} {step : Step}

theorem course_cons (subject : Subject) (event : Event) (events : List Event) :
    subject.course (event :: events) =
      subject :: (subject.advance event).value.course events := by
  rfl

theorem after_eq_of_mem_steps (hstep : step ∈ subject.steps events) :
    step.after = (step.before.advance step.event).value := by
  induction events generalizing subject with
  | nil => cases hstep
  | cons event events ih =>
      obtain rfl | hlater := List.mem_cons.mp hstep
      · rfl
      · exact ih hlater

/-- What becomes of an event: it moves the subject, or it is rejected and leaves
the subject as it is. -/
inductive Step.Outcome (step : Step) : Prop where
  | moved (haccepted : step.accepted = true) (hmoves : Moves step.before step.event step.after)
  | rejected (hrejected : step.accepted = false) (hsame : step.after = step.before)

theorem outcome_of_advance (subject : Subject) (event : Event) :
    Step.Outcome ⟨subject, event, (subject.advance event).value⟩ := by
  rw [advance]
  cases happly : subject.apply event with
  | ok next =>
      refine .moved ?_ (apply_eq_ok_iff.mp happly)
      rw [Step.accepted, happly]
      rfl
  | error reason =>
      refine .rejected ?_ rfl
      rw [Step.accepted, happly]
      rfl

theorem outcome_of_mem_steps (hstep : step ∈ subject.steps events) : step.Outcome := by
  have hstep : step = ⟨step.before, step.event, (step.before.advance step.event).value⟩ := by
    rw [← after_eq_of_mem_steps hstep]
  rw [hstep]
  exact outcome_of_advance step.before step.event

theorem advance_stage_le (subject : Subject) (event : Event) :
    subject.status.stage ≤ (subject.advance event).value.status.stage := by
  obtain hsame | hmoves := advance_value_cases subject event
  · rw [hsame]
  · exact hmoves.stage_lt.le

theorem advance_sameOrigin (subject : Subject) (event : Event) :
    SameOrigin subject (subject.advance event).value := by
  obtain hsame | hmoves := advance_value_cases subject event
  · rw [hsame]
    exact .refl subject
  · exact hmoves.sameOrigin

theorem advance_value_of_isSettled (subject : Subject) (event : Event)
    (hsettled : subject.isSettled = true) : (subject.advance event).value = subject := by
  rw [advance, apply_of_isSettled hsettled]

/-- What holds across every single event holds across any part of a run. -/
theorem pairwise_course (relation : Subject → Subject → Prop)
    (htrans : ∀ first second third, relation first second → relation second third →
      relation first third)
    (hadvance : ∀ subject event, relation subject (subject.advance event).value)
    (subject : Subject) (events : List Event) :
    (subject.course events).Pairwise relation := by
  have : IsTrans Subject relation := ⟨htrans⟩
  rw [← List.isChain_iff_pairwise]
  induction events generalizing subject with
  | nil => exact .singleton subject
  | cons event events ih =>
      rw [course_cons]
      exact .cons_cons (hadvance subject event) (ih _)

theorem stages_sorted_course (subject : Subject) (events : List Event) :
    (subject.course events).Pairwise fun earlier later =>
      earlier.status.stage ≤ later.status.stage := by
  refine pairwise_course _ ?_ advance_stage_le subject events
  intro first second third hsecond hthird
  exact hsecond.trans hthird

theorem sameOrigin_of_mem_course {met : Subject} (hmet : met ∈ subject.course events) :
    SameOrigin subject met := by
  have hsame := pairwise_course SameOrigin (fun _ _ _ => .trans) advance_sameOrigin subject events
  obtain rfl | hlater := List.mem_cons.mp hmet
  · exact .refl met
  · exact List.rel_of_pairwise_cons hsame hlater

/-- A verdict is final. -/
theorem final_course (subject : Subject) (events : List Event) :
    (subject.course events).Pairwise fun earlier later =>
      earlier.isSettled = true → later = earlier := by
  refine pairwise_course _ ?_ advance_value_of_isSettled subject events
  intro first second third hsecond hthird hsettled
  obtain rfl := hsecond hsettled
  exact hthird hsettled

/-- At most three events of a run are accepted, fewer if it starts at a later
stage. -/
theorem countP_accepted_add_stage_le (subject : Subject) (events : List Event) :
    (subject.steps events).countP Step.accepted + subject.status.stage ≤ 3 := by
  induction events generalizing subject with
  | nil => simpa [steps] using subject.status.stage_le
  | cons event events ih =>
      have hlater := ih (subject.advance event).value
      rw [steps, List.countP_cons]
      cases outcome_of_advance subject event with
      | moved haccepted hmoves =>
          have hstage := hmoves.stage_lt
          rw [if_pos haccepted]
          dsimp only at hstage
          omega
      | rejected hrejected hsame =>
          dsimp only at hsame
          rw [hrejected, hsame]
          rw [hsame] at hlater
          simpa using hlater

/-- A run goes forward from a subject.  All statuses lie on the way `added`,
`loading`, `scanning`, verdict, which is counted by stages. -/
structure Forward (subject : Subject) (events : List Event) : Prop where
  /-- Every event moves the subject or is rejected without effect. -/
  outcome : ∀ step ∈ subject.steps events, step.Outcome
  stages_sorted : (subject.course events).Pairwise fun earlier later =>
    earlier.status.stage ≤ later.status.stage
  stage_lt_of_accepted : ∀ step ∈ subject.steps events, step.accepted = true →
    step.before.status.stage < step.after.status.stage
  accepted_le : (subject.steps events).countP Step.accepted + subject.status.stage ≤ 3
  sameOrigin : ∀ met ∈ subject.course events, SameOrigin subject met
  /-- Entries change in one accepted event only, which brings them. -/
  children_of_settle : ∀ step ∈ subject.steps events,
    step.after.children ≠ step.before.children →
      step.accepted = true ∧ step.event = .settle step.after.children
  /-- A subject turns clean or infected in two ways only. -/
  clean_or_infected : ∀ step ∈ subject.steps events,
    step.after.status ≠ step.before.status →
    step.after.status = .clean ∨ step.after.status = .infected →
      (∃ findings, step.event = .complete findings ∧ step.before.status = .scanning) ∨
        ∃ children, step.event = .settle children ∧
          (step.before.status = .loading ∨ step.before.status = .scanning) ∧
            ∀ child ∈ children, child.isSettled = true
  /-- A subject with a verdict stays as it is. -/
  final : (subject.course events).Pairwise fun earlier later =>
    earlier.isSettled = true → later = earlier

/-- From whatever subject a run starts, new or discovered or on its way, it goes
forward: the stage only grows, with every accepted event and so three times at
most, and a verdict ends it. -/
theorem forward_of_events (subject : Subject) (events : List Event) : Forward subject events where
  outcome _ := outcome_of_mem_steps
  stages_sorted := stages_sorted_course subject events
  stage_lt_of_accepted step hstep haccepted := by
    cases outcome_of_mem_steps hstep with
    | moved _ hmoves => exact hmoves.stage_lt
    | rejected hrejected => simp [haccepted] at hrejected
  accepted_le := countP_accepted_add_stage_le subject events
  sameOrigin _ := sameOrigin_of_mem_course
  children_of_settle step hstep hchildren := by
    cases outcome_of_mem_steps hstep with
    | moved haccepted hmoves => exact ⟨haccepted, hmoves.event_eq_settle hchildren⟩
    | rejected _ hsame => exact absurd (congrArg children hsame) hchildren
  clean_or_infected step hstep hentered hverdict := by
    cases outcome_of_mem_steps hstep with
    | moved _ hmoves => exact hmoves.clean_or_infected hverdict
    | rejected _ hsame => exact absurd (congrArg status hsame) hentered
  final := final_course subject events

end Subject

end ClassWarden
