import ClassWarden.Subject
import ClassWarden.Zip.Fault

/-!
# The log of a scan

What a scan remarks on its way, next to the verdicts that it returns.  A remark
never changes a verdict.
-/

namespace ClassWarden

inductive Level where
  | debug
  | info
  | warn
  | error
  deriving DecidableEq, Repr

def Level.display : Level → String
  | debug => "DEBUG"
  | info => "INFO"
  | warn => "WARN"
  | error => "ERROR"

inductive Note where
  /-- A signature was seen in a method. -/
  | matched (finding : Finding)
  /-- A class has findings. -/
  | suspicious (subject : String) (count : Nat)
  | undecodable (subject : String) (failure : DecodeError)
  | unreadableArchive (subject : String) (fault : Zip.Fault)
  | unreadableHeader (index : Nat) (fault : Zip.Fault)
  | unreadableEntry (subject : String) (fault : Zip.Fault)
  /-- The entries of an archive are about to be scanned. -/
  | entries (subject : String) (count : Nat)
  /-- An event did not belong to its subject's stage and was dropped. -/
  | rejected (reason : TransitionError)
  deriving DecidableEq, Repr

namespace Note

def level : Note → Level
  | matched _ => .debug
  | suspicious _ _ | entries _ _ => .info
  | undecodable _ _ | unreadableArchive _ _ | unreadableHeader _ _ | unreadableEntry _ _ => .warn
  | rejected _ => .error

def message : Note → String
  | matched finding =>
    s!"{finding.signature} matched in {finding.method} at offset {finding.offset} " ++
      s!"(distance {finding.distance})"
  | suspicious subject count => s!"{subject}: {count} signature match(es)"
  | undecodable subject failure => s!"failed to decode {subject}: {failure.message}"
  | unreadableArchive subject fault => s!"{subject} is not a readable archive: {fault.message}"
  | unreadableHeader index fault =>
    s!"unreadable header for archive entry #{index}: {fault.message}"
  | unreadableEntry subject fault => s!"failed to read {subject}: {fault.message}"
  | entries subject count => s!"{subject}: scanning {count} class entries"
  | rejected reason => reason.message

def display (note : Note) : String :=
  note.level.display ++ " " ++ note.message

end Note

/-- A value and the remarks made on the way to it. -/
structure Logged (α : Type) where
  value : α
  notes : List Note

namespace Logged

/-- The remarks of both steps, in order. -/
instance : Monad Logged where
  pure value := ⟨value, []⟩
  bind first step :=
    let second := step first.value
    ⟨second.value, first.notes ++ second.notes⟩

/-- Makes remarks. -/
def remark (notes : List Note) : Logged Unit := ⟨(), notes⟩

end Logged

namespace Subject

/-- The subject's successor.  An event that is rejected is logged and leaves the
subject as it is. -/
def advance (subject : Subject) (event : Event) : Logged Subject :=
  match subject.apply event with
  | .ok next => pure next
  | .error reason => ⟨subject, [.rejected reason]⟩

/-- The subject with a verdict of failure, unless it is settled. -/
def fail (subject : Subject) (message : String) : Logged Subject :=
  subject.advance (.fail message)

end Subject

end ClassWarden
