import ClassWarden.Matching
import ClassWarden.Status

/-!
# Subjects of a scan and their lifecycle

A subject is a file, an archive or an archive entry on its way to a verdict.
It goes from `added` through `loading` and `scanning` and settles once, as
`clean`, `infected` or `error`.

Events move it.  An event either gives the subject's successor or is rejected
for a stated reason, and a settled subject rejects every event.
-/

namespace ClassWarden

/-- Where the bytes of a subject come from. -/
inductive Content where
  | file (path : String)
  | memory (bytes : List UInt8)
  /-- An entry of the archive that the subject belongs to. -/
  | entry (index : Nat)
  | missing
  deriving DecidableEq, Repr

inductive State where
  | added
  | loading
  | scanning
  | clean
  | infected (findings : List Finding)
  | error (message : String)
  deriving DecidableEq, Repr

namespace State

def status : State → Status
  | added => .added
  | loading => .loading
  | scanning => .scanning
  | clean => .clean
  | infected _ => .infected
  | error _ => .error

def findings? : State → Option (List Finding)
  | infected findings => some findings
  | _ => none

/-- What was found; nothing in any other state. -/
def findings (state : State) : List Finding :=
  state.findings?.getD []

/-- What went wrong, in a failure. -/
def error? : State → Option String
  | error message => some message
  | _ => none

end State

/-- What the scan takes a subject for. -/
inductive Kind where
  | classFile
  | archive
  deriving DecidableEq, Repr

structure Subject where
  name : String
  content : Content
  state : State
  /-- The entries of a settled archive. -/
  children : List Subject
  sha256 : Option String

namespace Subject

def new (name : String) (content : Content) : Subject :=
  { name, content, state := .added, children := [], sha256 := none }

/-- A subject that was met inside a container, which is being loaded already. -/
def discovered (name : String) (content : Content) : Subject :=
  { name, content, state := .loading, children := [], sha256 := none }

def hasSuffix (name ending : String) : Bool :=
  ending.toList.isSuffixOf name.toList

/-- The kind goes by the name. -/
def kind? (subject : Subject) : Option Kind :=
  if hasSuffix subject.name ".jar" then some .archive
  else if hasSuffix subject.name ".class" then some .classFile
  else none

def status (subject : Subject) : Status := subject.state.status

def isSettled (subject : Subject) : Bool := subject.status.isTerminal

/-- State of an archive with these entries: the worst verdict among them, with
all their findings if it is an infection.  Without a verdict it is clean. -/
def aggregate (children : List Subject) : State :=
  match Rank.worst (children.map (·.status.rank?)) with
  | some .infected => .infected (children.flatMap (·.state.findings))
  | some .error =>
    let failed := (children.filter (·.status = .error)).length
    .error s!"{failed} of {children.length} entries could not be scanned"
  | _ => .clean

end Subject

inductive Event where
  | load
  | scan
  /-- The subject was compared with every signature. -/
  | complete (findings : List Finding)
  | fail (message : String)
  /-- All entries of an archive have their verdicts. -/
  | settle (children : List Subject)

inductive TransitionError where
  /-- The subject has its verdict. -/
  | alreadySettled (name : String) (status : Status)
  /-- The event does not belong to this stage. -/
  | illegal (name : String) (source target : Status)
  /-- An archive's entry has no verdict yet. -/
  | unsettledChild (name child : String)
  deriving DecidableEq, Repr

def TransitionError.message : TransitionError → String
  | alreadySettled name status => s!"unit `{name}` already settled as {status.display}"
  | illegal name source target =>
    s!"unit `{name}` cannot go from {source.display} to {target.display}"
  | unsettledChild name child =>
    s!"archive `{name}` cannot settle while `{child}` is still in progress"

namespace Event

/-- State of a subject that was compared with every signature. -/
def completed (findings : List Finding) : State :=
  if findings.isEmpty then .clean else .infected findings

end Event

namespace Subject

/-- The subject in another state. -/
def withState (subject : Subject) (state : State) : Subject :=
  { subject with state }

/-- The subject's successor, if the event belongs to its stage. -/
def apply (subject : Subject) (event : Event) : Except TransitionError Subject :=
  let stage := subject.status
  let illegal (target : Status) : Except TransitionError Subject :=
    .error (.illegal subject.name stage target)
  if stage.isTerminal then .error (.alreadySettled subject.name stage)
  else
    match event with
    | .load => if stage = .added then .ok (subject.withState .loading) else illegal .loading
    | .scan => if stage = .loading then .ok (subject.withState .scanning) else illegal .scanning
    | .complete findings =>
      let verdict := Event.completed findings
      if stage = .scanning then .ok (subject.withState verdict) else illegal verdict.status
    | .fail message => .ok (subject.withState (.error message))
    | .settle children =>
      if stage = .added then illegal (aggregate children).status
      else
        match children.find? (!·.isSettled) with
        | some child => .error (.unsettledChild subject.name child.name)
        | none => .ok { subject with state := aggregate children, children }

end Subject

end ClassWarden
