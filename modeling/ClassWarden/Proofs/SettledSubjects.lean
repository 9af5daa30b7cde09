import ClassWarden.Proofs.Settlement

/-!
# Settled subjects

A verdict is final: whatever is tried on a settled subject is rejected, and the
subject comes back with its name, its content, its verdict, its entries and its
digest.  The comparison of a class's bytes with the signatures is the one
exception.  It writes the digest of the bytes down without asking whether they
still count, so a settled subject comes back as it was only if it carries that
digest already.
-/

namespace ClassWarden

namespace Subject

variable {subject : Subject}

/-- A rejection is logged and leaves the subject as it is. -/
theorem advance_of_isSettled (hsettled : subject.isSettled = true) (event : Event) :
    subject.advance event =
      ⟨subject, [.rejected (.alreadySettled subject.name subject.status)]⟩ := by
  rw [advance, apply_of_isSettled hsettled]

@[simp]
theorem isSettled_digested (subject : Subject) (sha256 : Option String) :
    isSettled { subject with sha256 } = subject.isSettled := by
  rfl

/-- Nothing that goes through events changes the subject. -/
structure Frozen (subject : Subject) : Prop where
  apply_eq : ∀ event, subject.apply event =
    .error (.alreadySettled subject.name subject.status)
  advance_eq : ∀ event, (subject.advance event).value = subject
  fail_eq : ∀ message, (subject.fail message).value = subject
  detect_eq : ∀ (detector : Detector) files, (detector.detect files subject).value = subject

theorem frozen_of_isSettled (hsettled : subject.isSettled = true) : Frozen subject where
  apply_eq := apply_of_isSettled hsettled
  advance_eq event := by rw [advance_of_isSettled hsettled]
  fail_eq message := by rw [fail, advance_of_isSettled hsettled]
  detect_eq detector files := by
    rw [detector.detect_eq_detectWith, Detector.detectWith_of_isSettled hsettled,
      Logged.pure_value]

end Subject

namespace Detector

variable {subject : Subject}

theorem beginLoading_of_isSettled (hsettled : subject.isSettled = true) :
    beginLoading subject = pure subject := by
  have hstage : subject.status ≠ .added := by
    intro hstage
    rw [Subject.isSettled, hstage] at hsettled
    cases hsettled
  rw [beginLoading, if_neg hstage]

/-- The comparison replaces the digest of a settled subject and nothing else. -/
theorem scanClass_value_of_isSettled (detector : Detector) (hsettled : subject.isSettled = true)
    (bytes : List UInt8) :
    (detector.scanClass subject bytes).value =
      { subject with sha256 := some (Sha256.text bytes) } := by
  have hdigested : Subject.isSettled { subject with sha256 := some (Sha256.text bytes) } = true := by
    rw [Subject.isSettled_digested, hsettled]
  simp only [scanClass, beginLoading_of_isSettled hsettled, Logged.bind_value, Logged.pure_value,
    Subject.advance_of_isSettled hsettled]
  obtain ⟨findings, failure?⟩ := detector.inspect bytes
  cases failure? with
  | some failure =>
      simp only [Logged.bind_value, Subject.fail, Subject.advance_of_isSettled hdigested]
  | none =>
      dsimp only
      split <;> simp only [Logged.bind_value, Subject.advance_of_isSettled hdigested]

/-- A settled subject is frozen for events and for detection.  Where its class is
compared once more, it keeps everything but its digest, which becomes that of the
bytes at hand. -/
theorem frozen_except_digest {subject : Subject} (hsettled : subject.isSettled = true) :
    subject.Frozen ∧ ∀ (detector : Detector) bytes,
      (detector.scanClass subject bytes).value =
          { subject with sha256 := some (Sha256.text bytes) } ∧
        ((detector.scanClass subject bytes).value = subject ↔
          subject.sha256 = some (Sha256.text bytes)) := by
  refine ⟨Subject.frozen_of_isSettled hsettled, fun detector bytes => ?_⟩
  have hvalue := detector.scanClass_value_of_isSettled hsettled bytes
  refine ⟨hvalue, ?_⟩
  rw [hvalue]
  constructor
  · intro hsame
    exact (congrArg Subject.sha256 hsame).symm
  · intro hdigest
    cases subject
    subst hdigest
    rfl

/-- A clean class that was scanned before keeps its verdict when a broken class
is compared in its place, and takes the digest of that one. -/
theorem frozen_except_digest_cleanClass :
    let subject : Subject := ⟨"A.class", .missing, .clean, [], some "00"⟩
    subject.isSettled = true ∧ subject.Frozen ∧
      ((standard .standard).scanClass subject [0xca, 0xfe]).value =
        ⟨"A.class", .missing, .clean, [], some (Sha256.text [0xca, 0xfe])⟩ := by
  intro subject
  have hsettled : subject.isSettled = true := by decide
  obtain ⟨hfrozen, hscan⟩ := frozen_except_digest hsettled
  exact ⟨hsettled, hfrozen, (hscan (standard .standard) [0xca, 0xfe]).1⟩

/-- A settled subject does not come back as it was. -/
theorem settled_digest_overwritten :
    let subject := (Subject.new "A.class" .missing).withState .clean
    let bytes := [0xca, 0xfe, 0xba, 0xbe, 0x00, 0x00, 0x00, 0x34, 0x00]
    subject.isSettled = true ∧
      ((standard .standard).scanClass subject bytes).value ≠ subject := by
  intro subject bytes
  have hsettled : subject.isSettled = true := by decide
  refine ⟨hsettled, fun hsame => ?_⟩
  rw [scanClass_value_of_isSettled _ hsettled] at hsame
  cases congrArg Subject.sha256 hsame

end Detector

end ClassWarden
