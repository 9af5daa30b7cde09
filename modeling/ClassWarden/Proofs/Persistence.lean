import ClassWarden.Proofs.ArchiveVerdict
import ClassWarden.Proofs.Findings

/-!
# What a match survives

A match is the first start with a tolerated cost, so it can only move to an
earlier start while its own cost stays tolerated.  Code in front of it does not
touch that cost, and code behind it never raises it: a search that ran off the
code has left nothing for later positions anyway.  A higher tolerance touches
no cost at all.  For classes and archives this means that more tolerance only
adds findings.
-/

namespace ClassWarden

namespace Alignment

variable {limit : Option Nat} {wanted : Option Opcode} {instruction : SymbolicInstruction}
variable {code following : List SymbolicInstruction}

/-! ## Code behind a search -/

theorem seek_append_of_found (hprobe : seek wanted limit code = .found instruction following)
    (more : List SymbolicInstruction) :
    seek wanted limit (code ++ more) = .found instruction (following ++ more) := by
  obtain ⟨hopcode, skipped, rfl, hskipped, hpermits⟩ := seek_eq_found_iff.mp hprobe
  refine seek_eq_found_iff.mpr ⟨hopcode, skipped, ?_, hskipped, hpermits⟩
  rw [List.append_assoc, List.cons_append]

theorem seek_append_of_limited (hprobe : seek wanted limit code = .limited)
    (more : List SymbolicInstruction) : seek wanted limit (code ++ more) = .limited := by
  obtain ⟨allowed, rfl, hallowed, hother⟩ := seek_eq_limited_iff.mp hprobe
  refine seek_eq_limited_iff.mpr ⟨allowed, rfl, ?_, ?_⟩
  · rw [List.length_append]
    omega
  · rwa [List.take_append_of_le_length hallowed]

/-- Behind the end of the code every position lacks its instruction. -/
theorem cost_nil_right (limit : Option Nat) (pattern : List SymbolicInstruction) :
    cost limit pattern [] = pattern.length := by
  induction pattern with
  | nil => rfl
  | cons expected pattern ih =>
      rw [cost_cons, seek, afterProbe, ih, List.length_cons, Nat.add_comm]
      rfl

/-- More code behind costs nothing. -/
theorem cost_append_le (limit : Option Nat) (pattern code more : List SymbolicInstruction) :
    cost limit pattern (code ++ more) ≤ cost limit pattern code := by
  induction pattern generalizing code with
  | nil => rfl
  | cons expected pattern ih =>
      cases hprobe : seek expected.opcode? limit code with
      | found instruction following =>
          rw [cost_cons, cost_cons, hprobe, seek_append_of_found hprobe]
          exact Nat.add_le_add_left (ih following) _
      | limited =>
          have hcode : code ≠ [] := by
            rintro rfl
            cases hprobe
          rw [cost_cons, cost_cons, hprobe, seek_append_of_limited hprobe, afterProbe, afterProbe,
            List.tail_append_of_ne_nil hcode]
          exact Nat.add_le_add_left (ih code.tail) _
      | exhausted =>
          -- The shorter code is used up, so the positions left cost as much as they can.
          have hall : cost limit (expected :: pattern) code = (expected :: pattern).length := by
            rw [cost_cons, hprobe, afterProbe, cost_nil_right, List.length_cons, Nat.add_comm]
            rfl
          rw [hall]
          exact cost_le_length limit _ _

end Alignment

namespace Scope

theorem view_surrounded (scope : Scope) (front stream back : List SymbolicInstruction) :
    scope.view (front ++ stream ++ back) =
      scope.view front ++ scope.view stream ++ scope.view back := by
  rw [view_append, view_append]

theorem length_view_eq_countP (scope : Scope) (stream : List SymbolicInstruction) :
    (scope.view stream).length = stream.countP scope.admits :=
  List.countP_eq_length_filter.symm

/-- A start moves back by what is visible of the code in front. -/
theorem drop_view_surrounded (scope : Scope) (front back : List SymbolicInstruction)
    {stream : List SymbolicInstruction} {start : Nat}
    (hstart : start ≤ (scope.view stream).length) :
    (scope.view (front ++ stream ++ back)).drop (start + front.countP scope.admits) =
      (scope.view stream).drop start ++ scope.view back := by
  rw [view_surrounded, ← length_view_eq_countP, List.append_assoc, Nat.add_comm,
    ← List.drop_drop, List.drop_left, List.drop_append_of_le_length hstart]

end Scope

namespace Matching

open ClassWarden.Alignment

variable {options : MatchOptions} {signature : Signature} {method : String}
variable {stream : List SymbolicInstruction} {finding : Finding}

/-- A start with a tolerated cost is reported unless an earlier one is. -/
theorem exists_offset_le (options : MatchOptions) (method : String)
    (stream : List SymbolicInstruction) {start : Nat}
    (hstart : start + signature.pattern.length < (signature.scope.view stream).length)
    (hcost : cost options.maxSkip signature.pattern ((signature.scope.view stream).drop start) ≤
      options.maxDistance) :
    ∃ finding, findSignature options method stream signature = some finding ∧
      finding.offset ≤ start := by
  obtain ⟨⟨offset, distance⟩, hlocated⟩ := exists_locate_iff.mpr ⟨start, hstart, hcost⟩
  obtain ⟨-, -, -, hearlier⟩ := locate_eq_some_iff.mp hlocated
  refine ⟨⟨method, signature.name, offset, distance⟩,
    findSignature_eq_some_iff.mpr ⟨rfl, rfl, hlocated⟩, ?_⟩
  by_contra hlater
  exact absurd hcost (hearlier start (Nat.lt_of_not_le hlater)).not_ge

/-- What is reported of a match is its start and the cost there. -/
theorem cost_offset_eq (hfound : findSignature options method stream signature = some finding) :
    finding.offset + signature.pattern.length < (signature.scope.view stream).length ∧
      cost options.maxSkip signature.pattern
        ((signature.scope.view stream).drop finding.offset) = finding.distance ∧
      finding.distance ≤ options.maxDistance := by
  obtain ⟨-, -, hlocated⟩ := findSignature_eq_some_iff.mp hfound
  obtain ⟨hstart, hcost, htolerated, -⟩ := locate_eq_some_iff.mp hlocated
  exact ⟨hstart, hcost, htolerated⟩

/-! ## Surrounding code -/

/-- A signature found in a stream is found wherever the stream stands in a
longer one, at the same place or in front of it.  At the same place the distance
is no larger. -/
theorem findSignature_surrounded (front back : List SymbolicInstruction)
    (hfound : findSignature options method stream signature = some finding) :
    ∃ outer, findSignature options method (front ++ stream ++ back) signature = some outer ∧
      outer.offset ≤ finding.offset + front.countP signature.scope.admits ∧
      (outer.offset = finding.offset + front.countP signature.scope.admits →
        outer.distance ≤ finding.distance) := by
  obtain ⟨hstart, hcost, htolerated⟩ := cost_offset_eq hfound
  have houterStart : finding.offset + front.countP signature.scope.admits +
      signature.pattern.length <
        (signature.scope.view (front ++ stream ++ back)).length := by
    rw [Scope.view_surrounded, List.length_append, List.length_append,
      Scope.length_view_eq_countP _ front]
    omega
  have houterCost : cost options.maxSkip signature.pattern
      ((signature.scope.view (front ++ stream ++ back)).drop
        (finding.offset + front.countP signature.scope.admits)) ≤ finding.distance := by
    rw [Scope.drop_view_surrounded _ _ _ (by omega), ← hcost]
    exact cost_append_le _ _ _ _
  obtain ⟨outer, houter, hoffset⟩ := exists_offset_le options method (front ++ stream ++ back)
    houterStart (houterCost.trans htolerated)
  refine ⟨outer, houter, hoffset, fun hsame => ?_⟩
  obtain ⟨-, hdistance, -⟩ := cost_offset_eq houter
  rwa [← hdistance, hsame]

/-- The Base64 command without its last call, and then with that call behind it:
a start in front of the first one already has no mismatch left. -/
theorem findSignature_surrounded_encodedCommand :
    let pattern := Signature.encodedCommand.pattern
    let stream := pattern.dropLast ++ [Signature.stringOfBytes, Signature.stringOfBytes]
    let front := [.unresolved "aload_0", Signature.stringOfBytes]
    let back := pattern.drop 6
    findSignature .standard "run" stream Signature.encodedCommand =
        some ⟨"run", "sig2", 0, 1⟩ ∧
      front.countP Signature.encodedCommand.scope.admits = 1 ∧
      ∃ outer, findSignature .standard "run" (front ++ stream ++ back) Signature.encodedCommand =
          some outer ∧ outer.offset ≤ 1 ∧ outer = ⟨"run", "sig2", 0, 0⟩ := by
  intro pattern stream front back
  have hfound : findSignature .standard "run" stream Signature.encodedCommand =
      some ⟨"run", "sig2", 0, 1⟩ := by
    decide +kernel
  have hfront : front.countP Signature.encodedCommand.scope.admits = 1 := by
    decide +kernel
  obtain ⟨outer, houter, hoffset, -⟩ := findSignature_surrounded front back hfound
  rw [hfront] at hoffset
  have hvalue : findSignature .standard "run" (front ++ stream ++ back)
      Signature.encodedCommand = some ⟨"run", "sig2", 0, 0⟩ := by
    decide +kernel
  exact ⟨hfound, hfront, outer, houter, hoffset, Option.some.inj (houter.symm.trans hvalue)⟩

/-! ## Tolerance -/

/-- What a higher tolerance may put in the place of a finding: the same method
and signature at the same start, and then with the same distance, or at an
earlier start. -/
structure Precedes (raised finding : Finding) : Prop where
  method_eq : raised.method = finding.method
  signature_eq : raised.signature = finding.signature
  offset_le : raised.offset ≤ finding.offset
  distance_eq : raised.offset = finding.offset → raised.distance = finding.distance

theorem findSignature_tolerant {maxSkip : Option Nat} {low high : Nat} (hle : low ≤ high)
    (hfound : findSignature ⟨low, maxSkip⟩ method stream signature = some finding) :
    ∃ raised, findSignature ⟨high, maxSkip⟩ method stream signature = some raised ∧
      Precedes raised finding := by
  obtain ⟨hstart, hcost, htolerated⟩ := cost_offset_eq hfound
  obtain ⟨raised, hraised, hoffset⟩ := exists_offset_le ⟨high, maxSkip⟩ method stream hstart
    (hcost.trans_le (htolerated.trans hle))
  obtain ⟨hmethod, hsignature, -⟩ := findSignature_eq_some_iff.mp hfound
  obtain ⟨hraisedMethod, hraisedSignature, -⟩ := findSignature_eq_some_iff.mp hraised
  refine ⟨raised, hraised, hraisedMethod.trans hmethod.symm,
    hraisedSignature.trans hsignature.symm, hoffset, fun hsame => ?_⟩
  obtain ⟨-, hraisedCost, -⟩ := cost_offset_eq hraised
  rw [← hraisedCost, hsame]
  exact hcost

end Matching

namespace Detector

open ClassWarden.Matching (Precedes)

variable {narrow wide : Detector} {reader : ArchiveReader} {files : String → FileAnswer}
variable {subject : Subject}

theorem status_verdict_eq_infected_iff {detector : Detector} {bytes : List UInt8} :
    (detector.verdict bytes).status = .infected ↔
      ∃ findings, detector.findMatches bytes = .ok findings ∧ findings ≠ [] := by
  rw [verdict]
  cases hfindings : detector.findMatches bytes with
  | error failure => simp [State.status]
  | ok findings => cases findings <;> simp [Event.completed, State.status]

/-- Another detector for which every class is infected that was infected before. -/
def Covers (wide narrow : Detector) : Prop :=
  ∀ bytes, (narrow.verdict bytes).status = .infected → (wide.verdict bytes).status = .infected

theorem Covers.entryVerdict (hcovers : wide.Covers narrow) {record : Zip.Record} {index : Nat}
    (hinfected : (narrow.entryVerdict record index).status = .infected) :
    (wide.entryVerdict record index).status = .infected := by
  cases hcontent : record.content with
  | error fault =>
      rw [entryVerdict_of_error index hcontent] at hinfected
      cases hinfected
  | ok bytes =>
      by_cases hempty : bytes = []
      · subst hempty
        rw [entryVerdict_of_empty index hcontent] at hinfected
        cases hinfected
      · rw [entryVerdict_of_bytes index hcontent hempty] at hinfected ⊢
        exact hcovers bytes hinfected

theorem Covers.archiveVerdict (hcovers : wide.Covers narrow)
    (hinfected : (narrow.archiveVerdict reader files subject).status = .infected) :
    (wide.archiveVerdict reader files subject).status = .infected := by
  rw [Detector.archiveVerdict] at hinfected ⊢
  cases hbytes : archiveBytes files subject.content with
  | error message =>
      rw [hbytes] at hinfected
      cases hinfected
  | ok bytes =>
      rw [hbytes] at hinfected
      dsimp only at hinfected ⊢
      cases hrecords : reader bytes with
      | error fault =>
          rw [hrecords] at hinfected
          cases hinfected
      | ok records =>
          rw [hrecords] at hinfected
          obtain ⟨child, hchild, hstatus⟩ :=
            (Subject.isWorst_aggregate _).infected_iff.mp hinfected
          obtain ⟨⟨record, index⟩, hlisted, rfl⟩ := List.mem_map.mp hchild
          exact (Subject.isWorst_aggregate _).infected_iff.mpr
            ⟨_, List.mem_map.mpr ⟨(record, index), hlisted, rfl⟩, hcovers.entryVerdict hstatus⟩

theorem Covers.settle (hcovers : wide.Covers narrow)
    (hinfected : (narrow.settle reader files subject).status = .infected) :
    (wide.settle reader files subject).status = .infected := by
  rw [Detector.settle] at hinfected ⊢
  cases hkind : subject.kind? with
  | none =>
      rw [hkind] at hinfected
      cases hinfected
  | some kind =>
      rw [hkind] at hinfected
      cases kind with
      | archive => exact hcovers.archiveVerdict hinfected
      | classFile =>
          dsimp only at hinfected ⊢
          cases hbytes : classBytes files subject.content with
          | error message =>
              rw [hbytes] at hinfected
              cases hinfected
          | ok bytes =>
              rw [hbytes] at hinfected
              exact hcovers bytes hinfected

/-- Such a detector finds every subject infected that was found infected before. -/
theorem Covers.detect (hcovers : wide.Covers narrow)
    (hinfected : (narrow.detect files subject).value.status = .infected) :
    (wide.detect files subject).value.status = .infected := by
  rw [detect_eq_detectWith] at hinfected ⊢
  cases hopen : subject.isSettled with
  | true =>
      rw [detectWith_of_isSettled hopen] at hinfected ⊢
      exact hinfected
  | false =>
      rw [detectWith_value hopen] at hinfected ⊢
      exact hcovers.settle hinfected

variable {signatures : List Signature} {maxSkip : Option Nat} {low high : Nat}

theorem attempt_tolerant {pool : ConstantPool} {pair : Method × Signature} {finding : Finding}
    (hle : low ≤ high)
    (hfound : attempt ⟨signatures, ⟨low, maxSkip⟩⟩ pool pair = some finding) :
    ∃ raised, attempt ⟨signatures, ⟨high, maxSkip⟩⟩ pool pair = some raised ∧
      Precedes raised finding := by
  obtain ⟨stream, hstream, hsignature⟩ := Option.bind_eq_some_iff.mp hfound
  obtain ⟨raised, hraised, hprecedes⟩ := Matching.findSignature_tolerant hle hsignature
  exact ⟨raised, Option.bind_eq_some_iff.mpr ⟨stream, hstream, hraised⟩, hprecedes⟩

theorem attempts_tolerant_ne_nil {file : ClassFile} (hle : low ≤ high)
    (hne : attempts ⟨signatures, ⟨low, maxSkip⟩⟩ file ≠ []) :
    attempts ⟨signatures, ⟨high, maxSkip⟩⟩ file ≠ [] := by
  obtain ⟨finding, hfinding⟩ := List.exists_mem_of_ne_nil _ hne
  obtain ⟨pair, hpair, hfound⟩ := List.mem_filterMap.mp hfinding
  obtain ⟨raised, hraised, -⟩ := attempt_tolerant hle hfound
  exact List.ne_nil_of_mem (List.mem_filterMap.mpr ⟨pair, hpair, hraised⟩)

theorem covers_of_le (hle : low ≤ high) :
    Covers ⟨signatures, ⟨high, maxSkip⟩⟩ ⟨signatures, ⟨low, maxSkip⟩⟩ := by
  intro bytes hinfected
  obtain ⟨findings, hfindings, hne⟩ := status_verdict_eq_infected_iff.mp hinfected
  refine status_verdict_eq_infected_iff.mpr ?_
  cases hparse : ClassFile.parse bytes with
  | error failure =>
      rw [findMatches_of_parse_eq_error hparse] at hfindings
      cases hfindings
  | ok file =>
      rw [findMatches_of_parse hparse] at hfindings ⊢
      cases hfailure : file.methods.findSome? Method.failure? with
      | some failure =>
          rw [hfailure] at hfindings
          cases hfindings
      | none =>
          rw [hfailure] at hfindings
          obtain rfl := Except.ok.inj hfindings
          exact ⟨_, rfl, attempts_tolerant_ne_nil hle hne⟩

/-- More tolerance only adds findings.  The same classes fail to be decoded, with
the same failure.  In any other class every comparison that finds something
still does, at the same start with the same distance or at an earlier start.  And
whatever was infected, on its own or in an archive, still is. -/
theorem findMatches_more_tolerant (signatures : List Signature) (maxSkip : Option Nat)
    (bytes : List UInt8) {low high : Nat} (hle : low ≤ high) :
    let narrow : Detector := ⟨signatures, ⟨low, maxSkip⟩⟩
    let wide : Detector := ⟨signatures, ⟨high, maxSkip⟩⟩
    (∀ failure, narrow.findMatches bytes = .error failure ↔
        wide.findMatches bytes = .error failure) ∧
      (∀ findings, narrow.findMatches bytes = .ok findings →
        ∃ file, ClassFile.parse bytes = .ok file ∧
          findings = (file.methods ×ˢ signatures).filterMap (narrow.attempt file.pool) ∧
          wide.findMatches bytes =
            .ok ((file.methods ×ˢ signatures).filterMap (wide.attempt file.pool)) ∧
          ∀ pair ∈ file.methods ×ˢ signatures, ∀ finding,
            narrow.attempt file.pool pair = some finding →
              ∃ raised, wide.attempt file.pool pair = some raised ∧
                Precedes raised finding) ∧
      ∀ files subject, (narrow.detect files subject).value.status = .infected →
        (wide.detect files subject).value.status = .infected := by
  intro narrow wide
  have hinfected : ∀ files subject, (narrow.detect files subject).value.status = .infected →
      (wide.detect files subject).value.status = .infected :=
    fun files subject => (covers_of_le hle).detect
  cases hparse : ClassFile.parse bytes with
  | error failure =>
      rw [findMatches_of_parse_eq_error hparse, findMatches_of_parse_eq_error hparse]
      exact ⟨fun _ => Iff.rfl, nofun, hinfected⟩
  | ok file =>
      rw [findMatches_of_parse hparse, findMatches_of_parse hparse]
      cases hfailure : file.methods.findSome? Method.failure? with
      | some failure => exact ⟨fun _ => Iff.rfl, nofun, hinfected⟩
      | none =>
          refine ⟨fun _ => ⟨nofun, nofun⟩, ?_, hinfected⟩
          rintro findings ⟨⟩
          exact ⟨file, rfl, rfl, rfl, fun pair _ finding hfound => attempt_tolerant hle hfound⟩

/-- A byte pushed in front of the right one is taken for it as soon as one mismatch
is tolerated. -/
theorem findMatches_more_tolerant_pushedByte :
    let signature : Signature :=
      .wide "pushed" "" [Signature.push 1, Signature.plain .dup]
    let code : List UInt8 := [0x10, 2, 0x59, 0x10, 1, 0x59, 0x57]
    let method : Method := ⟨0, 2, 0, some code⟩
    let strict : Detector := ⟨[signature], ⟨0, some 512⟩⟩
    let lenient : Detector := ⟨[signature], ⟨1, some 512⟩⟩
    let subject := Subject.new "A.class" (.memory (oneMethodClass code))
    strict.findMatches (oneMethodClass code) = .ok [⟨"m", "pushed", 1, 0⟩] ∧
      (strict.detect (fun _ => .directory) subject).value.status = .infected ∧
      (∃ raised, lenient.attempt (oneMethodFile code).pool (method, signature) = some raised ∧
        Precedes raised ⟨"m", "pushed", 1, 0⟩) ∧
      lenient.findMatches (oneMethodClass code) = .ok [⟨"m", "pushed", 0, 1⟩] ∧
      (lenient.detect (fun _ => .directory) subject).value.status = .infected := by
  intro signature code method strict lenient subject
  have hfindings : strict.findMatches (oneMethodClass code) = .ok [⟨"m", "pushed", 1, 0⟩] := by
    decide +kernel
  have hstatus : (strict.detect (fun _ => .directory) subject).value.status = .infected := by
    decide +kernel
  have hparse : ClassFile.parse (oneMethodClass code) = .ok (oneMethodFile code) := by
    decide +kernel
  have hfound : strict.attempt (oneMethodFile code).pool (method, signature) =
      some ⟨"m", "pushed", 1, 0⟩ := by
    decide +kernel
  have hraised : lenient.findMatches (oneMethodClass code) = .ok [⟨"m", "pushed", 0, 1⟩] := by
    decide +kernel
  obtain ⟨-, hfinds, hinfected⟩ := findMatches_more_tolerant [signature] (some 512)
    (oneMethodClass code) (Nat.zero_le 1)
  obtain ⟨file, hfile, -, -, hpairs⟩ := hfinds _ hfindings
  obtain rfl := Except.ok.inj (hparse.symm.trans hfile)
  have hpair : (method, signature) ∈ (oneMethodFile code).methods ×ˢ [signature] := by
    decide +kernel
  exact ⟨hfindings, hstatus, hpairs _ hpair _ hfound, hraised, hinfected _ subject hstatus⟩

end Detector

end ClassWarden
