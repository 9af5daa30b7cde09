import ClassWarden.Detector
import ClassWarden.Proofs.Lifecycle
import ClassWarden.Proofs.Matching

/-!
# The verdict of a class

A class that can be decoded throughout is settled by the matches in its
methods, whatever stage it is met in and wherever its bytes come from.  Without
tolerance such a match is an occurrence of the pattern.  A pattern that stands
in one block is found unless the view ends with it: only then is the start of
the block not tried, and an earlier start has to do.
-/

namespace ClassWarden

namespace Logged

variable {α β : Type}

@[simp]
theorem pure_value (value : α) : (pure value : Logged α).value = value := by
  rfl

@[simp]
theorem bind_value (first : Logged α) (step : α → Logged β) :
    (first >>= step).value = (step first.value).value := by
  rfl

end Logged

namespace Subject

variable {subject next : Subject} {event : Event}

/-- Subjects contain subjects, so this is not true by `rfl`. -/
theorem withState_state (subject : Subject) : subject.withState subject.state = subject := by
  cases subject
  rfl

theorem Moves.advance_value (hmoves : Moves subject event next) :
    (subject.advance event).value = next := by
  rw [advance, apply_eq_ok_iff.mpr hmoves]
  rfl

end Subject

namespace Method

def stream? (pool : ConstantPool) (method : Method) : Option (List SymbolicInstruction) :=
  method.code.bind fun code =>
    (Bytecode.decode code).toOption.map (SymbolicInstruction.stream pool)

/-- Any code of the method can be decoded. -/
def Decodes (method : Method) : Prop :=
  ∀ code ∈ method.code, (Bytecode.decode code).isOk = true

instance : DecidablePred Decodes := fun method =>
  inferInstanceAs (Decidable (∀ code ∈ method.code, (Bytecode.decode code).isOk = true))

theorem stream?_of_decode {pool : ConstantPool} {method : Method} {code : List UInt8}
    {instructions : List Instruction} (hcode : method.code = some code)
    (hdecode : Bytecode.decode code = .ok instructions) :
    method.stream? pool = some (SymbolicInstruction.stream pool instructions) := by
  rw [stream?, hcode, Option.bind_some, hdecode]
  rfl

end Method

namespace Detector

variable {detector : Detector} {pool : ConstantPool} {methods : List Method}
variable {method : Method} {stream : List SymbolicInstruction} {signature : Signature}
variable {subject : Subject} {bytes : List UInt8}

/-! ## The findings in a class -/

def methodFindings (detector : Detector) (pool : ConstantPool) (method : Method) :
    List Finding :=
  (method.stream? pool).elim []
    (Matching.scanMethod detector.options detector.signatures (method.displayName pool))

theorem scanMethods_of_decodes (hdecodes : ∀ method ∈ methods, method.Decodes) :
    detector.scanMethods pool methods =
      (methods.flatMap (detector.methodFindings pool), none) := by
  induction methods with
  | nil => rfl
  | cons method methods ih =>
      obtain ⟨hmethod, hmethods⟩ := List.forall_mem_cons.mp hdecodes
      have hlater := ih hmethods
      rw [scanMethods, List.flatMap_cons, methodFindings]
      cases hcode : method.code with
      | none =>
          rw [Method.stream?, hcode]
          exact hlater
      | some code =>
          have hisOk := hmethod code hcode
          cases hdecode : Bytecode.decode code with
          | error failure =>
              rw [hdecode] at hisOk
              cases hisOk
          | ok instructions =>
              rw [Method.stream?_of_decode hcode hdecode, hlater]
              simp only [hdecode, Option.elim_some]

theorem findMatches_of_decodes {file : ClassFile} (hparse : ClassFile.parse bytes = .ok file)
    (hdecodes : ∀ method ∈ file.methods, method.Decodes) :
    detector.findMatches bytes =
      .ok (file.methods.flatMap (detector.methodFindings file.pool)) := by
  have hinspect : detector.inspect bytes =
      (file.methods.flatMap (detector.methodFindings file.pool), none) := by
    rw [inspect, hparse]
    exact scanMethods_of_decodes hdecodes
  rw [findMatches, hinspect]

theorem mem_methodFindings {finding : Finding} (hstream : method.stream? pool = some stream)
    (hsignature : signature ∈ detector.signatures)
    (hfound : Matching.findSignature detector.options (method.displayName pool) stream
      signature = some finding) :
    finding ∈ detector.methodFindings pool method := by
  rw [methodFindings, hstream]
  exact List.mem_filterMap.mpr ⟨signature, hsignature, hfound⟩

/-! ## The way to the verdict -/

/-- The state that the bytes of a class lead to. -/
def verdict (detector : Detector) (bytes : List UInt8) : State :=
  match detector.findMatches bytes with
  | .ok findings => Event.completed findings
  | .error failure => .error failure.message

theorem verdict_eq_infected {findings : List Finding}
    (hfindings : detector.findMatches bytes = .ok findings) (hne : findings ≠ []) :
    detector.verdict bytes = .infected findings := by
  rw [verdict, hfindings]
  simp [Event.completed, hne]

/-- A subject is being loaded before anything else happens to it, unless it has
come further. -/
theorem exists_beginLoading_value (hopen : subject.isSettled = false) :
    ∃ state, (beginLoading subject).value = subject.withState state ∧
      (subject.withState state).isSettled = false := by
  rw [beginLoading]
  split
  case isTrue hstage =>
    exact ⟨.loading, (Subject.Moves.load hstage).advance_value, rfl⟩
  case isFalse =>
    rw [Logged.pure_value]
    exact ⟨subject.state, subject.withState_state.symm, hopen⟩

/-- From every stage without a verdict a class gets to scanning. -/
theorem scanning_value (hopen : subject.isSettled = false) :
    ((beginLoading subject).value.advance .scan).value = subject.withState .scanning := by
  obtain ⟨name, content, state, children, sha256⟩ := subject
  cases state with
  | added | loading | scanning => rfl
  | clean | infected | error => cases hopen

theorem scanClass_value (hopen : subject.isSettled = false) :
    (detector.scanClass subject bytes).value =
      { subject with
        state := detector.verdict bytes
        sha256 := some (Sha256.text bytes) } := by
  have hscanning : Subject.status
      { subject.withState .scanning with sha256 := some (Sha256.text bytes) } = .scanning := by
    rfl
  simp only [scanClass, Logged.bind_value, scanning_value hopen, verdict, findMatches]
  obtain ⟨findings, failure?⟩ := detector.inspect bytes
  cases failure? with
  | some failure =>
      simp only [Logged.bind_value]
      exact (Subject.Moves.fail failure.message rfl).advance_value
  | none =>
      have hcompleted := (Subject.Moves.complete findings hscanning).advance_value
      dsimp only
      split
      · exact hcompleted
      · exact hcompleted

/-- A class without a verdict, with bytes that can be had. -/
structure Provides (files : String → FileAnswer) (subject : Subject) (bytes : List UInt8) :
    Prop where
  isOpen : subject.isSettled = false
  kind_eq : subject.kind? = some .classFile
  bytes_eq : classBytes files subject.content = .ok bytes

theorem detect_value_of_provides {files : String → FileAnswer}
    (hprovides : Provides files subject bytes) :
    (detector.detect files subject).value =
      { subject with
        state := detector.verdict bytes
        sha256 := some (Sha256.text bytes) } := by
  obtain ⟨state, hloading, hopen⟩ := exists_beginLoading_value hprovides.isOpen
  have hkind : (subject.withState state).kind? = some .classFile := hprovides.kind_eq
  have hbytes : classBytes files (subject.withState state).content = .ok bytes :=
    hprovides.bytes_eq
  rw [detect, hprovides.isOpen]
  simp only [Bool.false_eq_true, if_false, Logged.bind_value, hloading, hkind, hbytes]
  exact scanClass_value hopen

/-! ## Patterns in one block -/

/-- The block is followed by something, or the pattern also occurs from a start
in front of it. -/
def Exposed (limit : Option Nat) (pattern before after : List SymbolicInstruction) : Prop :=
  after ≠ [] ∨ ∃ start < before.length,
    Alignment.Occurs limit pattern ((before ++ pattern ++ after).drop start)

variable {limit : Option Nat} {before after : List SymbolicInstruction}

/-- The start of the block is tried exactly if something follows the block. -/
theorem findSignature_isSome_iff_exposed {name : String}
    (hview : signature.scope.view stream = before ++ signature.pattern ++ after) :
    (Matching.findSignature ⟨0, limit⟩ name stream signature).isSome = true ↔
      Exposed limit signature.pattern before after := by
  have hlength : (before ++ signature.pattern ++ after).length =
      before.length + signature.pattern.length + after.length := by
    rw [List.length_append, List.length_append]
  rw [Matching.findSignature_isSome_iff, hview, hlength]
  simp only [Nat.le_zero_eq]
  constructor
  · rintro ⟨start, hstart, hcost⟩
    -- At the end of the view only the starts in front of the block are tried.
    by_cases hafter : after = []
    · subst hafter
      have hresolved : ∀ instruction ∈ (before ++ signature.pattern ++ []).drop start,
          instruction.isResolved = true := by
        intro instruction hmem
        rw [← hview] at hmem
        exact Scope.isResolved_of_mem_view (List.mem_of_mem_drop hmem)
      rw [List.length_nil] at hstart
      exact .inr ⟨start, by omega, (Alignment.cost_eq_zero_iff_occurs hresolved).mp hcost⟩
    · exact .inl hafter
  · rintro (hafter | ⟨start, hstart, hoccurs⟩)
    · have hpositive : 0 < after.length := List.length_pos_iff.mpr hafter
      refine ⟨before.length, by omega, ?_⟩
      rw [List.append_assoc, List.drop_left]
      exact Alignment.cost_self_append limit signature.pattern after
    · exact ⟨start, by omega, hoccurs.cost_eq_zero⟩

/-- A match in one of its methods infects a class that can be decoded
throughout. -/
theorem exists_verdict_eq_infected (detector : Detector) {file : ClassFile}
    {finding : Finding} (hparse : ClassFile.parse bytes = .ok file)
    (hdecodes : ∀ method ∈ file.methods, method.Decodes)
    (hmethod : method ∈ file.methods) (hstream : method.stream? file.pool = some stream)
    (hsignature : signature ∈ detector.signatures)
    (hfound : Matching.findSignature detector.options (method.displayName file.pool) stream
      signature = some finding) :
    ∃ findings, finding ∈ findings ∧ detector.verdict bytes = .infected findings := by
  have hmem : finding ∈ file.methods.flatMap (detector.methodFindings file.pool) :=
    List.mem_flatMap.mpr ⟨method, hmethod, mem_methodFindings hstream hsignature hfound⟩
  exact ⟨_, hmem, verdict_eq_infected (findMatches_of_decodes hparse hdecodes)
    (List.ne_nil_of_mem hmem)⟩

/-- Without tolerance, a block of a built-in signature is found in its method
exactly if it is exposed.  The class is then infected by it, as an entry of an
archive and on its own. -/
theorem infected_of_exposed_block (limit : Option Nat) {file : ClassFile}
    (hsignature : signature ∈ Signature.catalog)
    (hparse : ClassFile.parse bytes = .ok file)
    (hdecodes : ∀ method ∈ file.methods, method.Decodes)
    (hmethod : method ∈ file.methods) (hstream : method.stream? file.pool = some stream)
    (hview : signature.scope.view stream = before ++ signature.pattern ++ after) :
    let found := Matching.findSignature ⟨0, limit⟩ (method.displayName file.pool) stream signature
    (found.isSome = true ↔ Exposed limit signature.pattern before after) ∧
      (Exposed limit signature.pattern before after →
        ∃ findings, ∃ finding ∈ findings,
          finding.method = method.displayName file.pool ∧
            finding.signature = signature.name ∧ finding.distance = 0 ∧
            (∀ subject : Subject, subject.isSettled = false →
              ((standard ⟨0, limit⟩).scanClass subject bytes).value.state =
                .infected findings) ∧
            ∀ files subject, Provides files subject bytes →
              ((standard ⟨0, limit⟩).detect files subject).value.state =
                .infected findings) := by
  intro found
  have hexposed : found.isSome = true ↔ Exposed limit signature.pattern before after :=
    findSignature_isSome_iff_exposed hview
  refine ⟨hexposed, fun hblock => ?_⟩
  obtain ⟨finding, hfound⟩ := Option.isSome_iff_exists.mp (hexposed.mpr hblock)
  obtain ⟨hname, hsignatureName, hlocated⟩ := Matching.findSignature_eq_some_iff.mp hfound
  obtain ⟨-, -, htolerated, -⟩ := Matching.locate_eq_some_iff.mp hlocated
  obtain ⟨findings, hmem, hverdict⟩ :=
    exists_verdict_eq_infected (standard ⟨0, limit⟩) hparse hdecodes hmethod hstream hsignature
      hfound
  refine ⟨findings, finding, hmem, hname, hsignatureName, ?_, ?_, ?_⟩
  · exact Nat.le_zero.mp htolerated
  · intro subject hopen
    rw [scanClass_value hopen, hverdict]
  · intro files subject hprovides
    rw [detect_value_of_provides hprovides, hverdict]

/-! ## A class of one method -/

/-- The bytes of resolved instructions whose operands are bytes themselves. -/
def encode : List SymbolicInstruction → List UInt8
  | [] => []
  | .resolved opcode operands :: instructions =>
    let bytes := operands.filterMap fun
      | .number value => some (UInt8.ofNat value.toNat)
      | .text _ => none
    opcode.byte :: bytes ++ encode instructions
  | .unresolved _ :: instructions => encode instructions

def oneMethodClass (code : List UInt8) : List UInt8 :=
  let constants := [1, 0, 4] ++ "Code".toUTF8.toList ++ [1, 0, 1] ++ "m".toUTF8.toList
  let codeAttribute := [0, 0, 0, 0] ++ BigEndian.ofNat 4 code.length ++ code ++ [0, 0, 0, 0]
  [0xca, 0xfe, 0xba, 0xbe, 0, 0, 0, 52, 0, 3] ++ constants ++
    [0, 0, 0, 0, 0, 0] ++ [0, 0] ++ [0, 0] ++
    [0, 1, 0, 0, 0, 2, 0, 0, 0, 1, 0, 1] ++ BigEndian.ofNat 4 codeAttribute.length ++
    codeAttribute ++ [0, 0]

def oneMethodFile (code : List UInt8) : ClassFile where
  minor := 0
  major := 52
  pool := .ofConstants [.utf8 "Code".toUTF8.toList, .utf8 "m".toUTF8.toList]
  access := 0
  thisClass := 0
  superClass := 0
  methods := [⟨0, 2, 0, some code⟩]

/-- The method that puts the address of the third signature together, from the
duplicated array reference in front of the first store to the last store. -/
theorem infected_of_exposed_block_addressBytes :
    let code := [0x59, 0x03] ++ encode Signature.addressBytes.pattern ++ [0x54, 0xb1]
    let subject := Subject.new "A.class" (.memory (oneMethodClass code))
    ClassFile.parse (oneMethodClass code) = .ok (oneMethodFile code) ∧
      ∃ findings, ∃ finding ∈ findings, finding.method = "m" ∧ finding.signature = "sig3-ip" ∧
        finding.distance = 0 ∧
        ((standard ⟨0, some 512⟩).detect (fun _ => .directory) subject).value.state =
          .infected findings := by
  intro code subject
  let method : Method := ⟨0, 2, 0, some code⟩
  let stream := (method.stream? (oneMethodFile code).pool).getD []
  have hparse : ClassFile.parse (oneMethodClass code) = .ok (oneMethodFile code) := by
    decide +kernel
  have hstream : method.stream? (oneMethodFile code).pool = some stream := by
    decide +kernel
  have hview : Signature.addressBytes.scope.view stream =
      [Signature.plain .dup] ++ Signature.addressBytes.pattern ++
        [Signature.plain .bastore] := by
    decide +kernel
  obtain ⟨-, hinfected⟩ := infected_of_exposed_block (some 512) (by decide +kernel) hparse
    (by decide +kernel) (List.mem_singleton_self method) hstream hview
  obtain ⟨findings, finding, hmem, hmethod, hsignature, hdistance, -, hdetect⟩ :=
    hinfected (.inl (List.cons_ne_nil _ _))
  have hname : method.displayName (oneMethodFile code).pool = "m" := by
    decide +kernel
  exact ⟨hparse, findings, finding, hmem, hmethod.trans hname, hsignature, hdistance,
    hdetect _ subject ⟨rfl, by decide +kernel, rfl⟩⟩

/-- A method whose view is the third signature's pattern goes undetected. -/
theorem addressBytes_alone_not_detected :
    let code := encode Signature.addressBytes.pattern ++ [0xb1]
    let method : Method := ⟨0, 2, 0, some code⟩
    let subject := Subject.new "A.class" (.memory (oneMethodClass code))
    Signature.addressBytes ∈ Signature.catalog ∧
      ClassFile.parse (oneMethodClass code) = .ok (oneMethodFile code) ∧
      (∀ method ∈ (oneMethodFile code).methods, method.Decodes) ∧
      method ∈ (oneMethodFile code).methods ∧
      (method.stream? (oneMethodFile code).pool).map Signature.addressBytes.scope.view =
        some Signature.addressBytes.pattern ∧
      ((standard ⟨0, some 512⟩).detect (fun _ => .directory) subject).value.state = .clean := by
  decide +kernel

end Detector

end ClassWarden
