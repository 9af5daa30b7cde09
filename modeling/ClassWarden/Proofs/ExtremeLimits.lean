import ClassWarden.Proofs.Places
import ClassWarden.Proofs.SkipLimit
import Mathlib.Data.Fintype.Fin
import Mathlib.InformationTheory.Hamming

/-!
# The two ends of the skip limit

A search is given up only where more instructions are left than the limit lets it
skip.  A limit that the whole view fits into therefore never shows: it has the
result that no limit has.

At the other end, where nothing may be skipped, each position looks at the one
instruction at its own place.  The mismatches of a start are then the Hamming
distance between the pattern and the window of the view at that start, and the
first window that is near enough is reported.
-/

namespace ClassWarden

namespace Alignment

variable {limit : Option Nat} {expected first : SymbolicInstruction}
variable {pattern code view : List SymbolicInstruction} {offset : Nat}

/-! ## Limits that never show -/

/-- A limit that all of the code fits into costs what no limit costs. -/
theorem cost_eq_cost_none (hpermits : Permits limit code.length)
    (pattern : List SymbolicInstruction) : cost limit pattern code = cost none pattern code := by
  induction pattern generalizing code with
  | nil => rfl
  | cons expected pattern ih =>
      have hprobe : seek expected.opcode? none code = seek expected.opcode? limit code := by
        apply AtMost.seek_eq
        · exact atMost_none limit
        · exact seek_ne_limited hpermits expected.opcode?
      -- What a position leaves is no longer than what it got, so it fits as well.
      obtain ⟨taken, hafter, -⟩ := exists_afterProbe_eq_drop expected.opcode? limit code
      have hrest : Permits limit (afterProbe code (seek expected.opcode? limit code)).length := by
        apply hpermits.mono
        rw [hafter, List.length_drop]
        exact Nat.sub_le _ _
      rw [cost_cons, cost_cons, hprobe, ih hrest]

/-! ## No skips -/

/-- A position that may not skip is compared with the instruction at hand and uses it up,
whether or not the two are equal. -/
theorem cost_zero_cons (hresolved : first.isResolved = true) (expected : SymbolicInstruction)
    (pattern code : List SymbolicInstruction) :
    cost (some 0) (expected :: pattern) (first :: code) =
      (if first = expected then 0 else 1) + cost (some 0) pattern code := by
  by_cases hopcode : first.opcode? = expected.opcode?
  · have hsame : first.operands = expected.operands ↔ first = expected := by
      constructor
      · exact SymbolicInstruction.eq_of_isResolved hresolved hopcode
      · intro hfirst
        rw [hfirst]
    rw [cost_cons, seek_cons_self hopcode]
    simp only [agrees, afterProbe, beq_iff_eq, hsame]
  · have hdiffers : first ≠ expected := by
      intro hfirst
      exact hopcode (congrArg _ hfirst)
    rw [cost_cons_of_limited (seek_zero_cons hopcode), if_neg hdiffers]

/-- Number of pattern positions that differ from the instruction at their place in the
window of a view that starts at the offset. -/
def windowDistance (view pattern : List SymbolicInstruction) (offset : Nat) : Nat :=
  hammingDist (fun index : Fin pattern.length => view[offset + index]?) fun index =>
    some pattern[index]

theorem windowDistance_nil (view : List SymbolicInstruction) (offset : Nat) :
    windowDistance view [] offset = 0 := by
  rfl

theorem windowDistance_cons (hoffset : offset < view.length) :
    windowDistance view (expected :: pattern) offset =
      (if view[offset] = expected then 0 else 1) + windowDistance view pattern (offset + 1) := by
  have hplace (index : Nat) : offset + 1 + index = offset + (index + 1) := by
    omega
  apply (Fin.card_filter_univ_succ' _).trans
  congr 1
  · simp [hoffset]
  · simp [windowDistance, hammingDist, hplace]

/-- Without skips the mismatches of a start are those of its window. -/
theorem fullCost_zero_eq_windowDistance
    (hresolved : ∀ instruction ∈ view, instruction.isResolved = true)
    (hwindow : offset + pattern.length ≤ view.length) :
    fullCost (some 0) view pattern offset = windowDistance view pattern offset := by
  induction pattern generalizing offset with
  | nil => rw [windowDistance_nil, fullCost]
  | cons expected pattern ih =>
      rw [List.length_cons] at hwindow
      have hoffset : offset < view.length := by
        omega
      have hlater : offset + 1 + pattern.length ≤ view.length := by
        omega
      calc fullCost (some 0) view (expected :: pattern) offset
          = cost (some 0) (expected :: pattern) (view[offset] :: view.drop (offset + 1)) := by
            rw [fullCost_eq_cost, List.drop_eq_getElem_cons hoffset]
        _ = (if view[offset] = expected then 0 else 1) +
              cost (some 0) pattern (view.drop (offset + 1)) := by
            apply cost_zero_cons
            exact hresolved _ (List.getElem_mem hoffset)
        _ = (if view[offset] = expected then 0 else 1) +
              windowDistance view pattern (offset + 1) := by
            rw [← fullCost_eq_cost, ih hlater]
        _ = windowDistance view (expected :: pattern) offset :=
            (windowDistance_cons hoffset).symm

end Alignment

namespace Matching

open ClassWarden.Alignment

variable {signature : Signature} {stream : List SymbolicInstruction}

/-! ## Views that the limit covers -/

theorem findSignature_eq_unlimited {limit : Option Nat}
    (hpermits : Permits limit (signature.scope.view stream).length) (maxDistance : Nat)
    (method : String) :
    findSignature ⟨maxDistance, limit⟩ method stream signature =
      findSignature ⟨maxDistance, none⟩ method stream signature := by
  have hcost (start : Nat) :
      cost limit signature.pattern ((signature.scope.view stream).drop start) =
        cost none signature.pattern ((signature.scope.view stream).drop start) := by
    apply cost_eq_cost_none
    apply hpermits.mono
    rw [List.length_drop]
    exact Nat.sub_le _ _
  have hlocate : locate ⟨maxDistance, limit⟩ signature stream =
      locate ⟨maxDistance, none⟩ signature stream := by
    apply Option.ext
    rintro ⟨offset, distance⟩
    simp only [locate_eq_some_iff, hcost]
  rw [findSignature, hlocate, findSignature]

/-- A limit of at least the view's length has the result that no limit has.  So the standard
limit is as good as none for all signatures that see at most 512 instructions of a method. -/
theorem findSignature_unlimited (maxDistance : Nat) (method : String)
    (stream : List SymbolicInstruction) :
    (∀ signature limit, (signature.scope.view stream).length ≤ limit →
      findSignature ⟨maxDistance, some limit⟩ method stream signature =
        findSignature ⟨maxDistance, none⟩ method stream signature) ∧
      ∀ signatures : List Signature,
        (∀ signature ∈ signatures, (signature.scope.view stream).length ≤ 512) →
          scanMethod ⟨maxDistance, MatchOptions.standard.maxSkip⟩ signatures method stream =
            scanMethod ⟨maxDistance, none⟩ signatures method stream := by
  constructor
  · intro signature limit hlimit
    apply findSignature_eq_unlimited
    exact permits_some_iff.mpr hlimit
  · intro signatures hshort
    apply List.filterMap_congr
    intro signature hsignature
    apply findSignature_eq_unlimited
    exact permits_some_iff.mpr (hshort signature hsignature)

/-- The Base64 command with a constructor call in front of and behind each of its calls. -/
theorem findSignature_unlimited_encodedCommand :
    let signature := Signature.encodedCommand
    let stream := Signature.stringOfBytes ::
      signature.pattern.flatMap fun call => [call, Signature.stringOfBytes]
    let found : Finding := ⟨"run", "sig2", 0, 0⟩
    (signature.scope.view stream).length = 15 ∧
      findSignature ⟨0, none⟩ "run" stream signature = some found ∧
      findSignature ⟨0, some 15⟩ "run" stream signature = some found ∧
      scanMethod ⟨0, MatchOptions.standard.maxSkip⟩ [signature] "run" stream =
        scanMethod ⟨0, none⟩ [signature] "run" stream := by
  intro signature stream found
  have hlength : (signature.scope.view stream).length = 15 := by
    decide +kernel
  have hfound : findSignature ⟨0, none⟩ "run" stream signature = some found := by
    decide +kernel
  obtain ⟨hlimit, hstandard⟩ := findSignature_unlimited 0 "run" stream
  refine ⟨hlength, hfound, ?_, ?_⟩
  · rw [hlimit signature 15 hlength.le, hfound]
  · apply hstandard
    intro other hother
    rw [List.mem_singleton.mp hother, hlength]
    decide

/-- A limit of one less can show.  It keeps the first search from running off the view, so
that the store is still there for the second one. -/
example :
    let signature := Signature.wide "store" "" [Signature.plain .dup, Signature.plain .bastore]
    let stream := [Signature.push 7, Signature.plain .bastore, Signature.push 7]
    findSignature ⟨1, some 2⟩ "run" stream signature = some ⟨"run", "store", 0, 1⟩ ∧
      findSignature ⟨1, some 3⟩ "run" stream signature = none := by
  decide

/-! ## Windows -/

/-- The starts behind which the view is longer than the pattern and whose windows differ
from it in a tolerated number of positions. -/
def toleratedWindows (maxDistance : Nat) (signature : Signature)
    (stream : List SymbolicInstruction) : Set Nat :=
  let view := signature.scope.view stream
  {start | start + signature.pattern.length < view.length ∧
    windowDistance view signature.pattern start ≤ maxDistance}

theorem fullCost_zero_view {start : Nat}
    (hstart : start + signature.pattern.length < (signature.scope.view stream).length) :
    fullCost (some 0) (signature.scope.view stream) signature.pattern start =
      windowDistance (signature.scope.view stream) signature.pattern start := by
  apply fullCost_zero_eq_windowDistance
  · intro instruction hmem
    exact Scope.isResolved_of_mem_view hmem
  · exact hstart.le

theorem toleratedStarts_zero (maxDistance : Nat) (signature : Signature)
    (stream : List SymbolicInstruction) :
    toleratedStarts ⟨maxDistance, some 0⟩ signature stream =
      toleratedWindows maxDistance signature stream := by
  ext start
  apply and_congr_right
  intro hstart
  rw [fullCost_zero_view hstart]

/-- Without skips a signature is found at the first window that differs from its pattern in
a tolerated number of positions, with that number, and not at all if there is none. -/
theorem findSignature_without_skips (maxDistance : Nat) (method : String)
    (stream : List SymbolicInstruction) (signature : Signature) :
    (∀ finding, findSignature ⟨maxDistance, some 0⟩ method stream signature = some finding ↔
      finding.method = method ∧ finding.signature = signature.name ∧
        IsLeast (toleratedWindows maxDistance signature stream) finding.offset ∧
        finding.distance = windowDistance (signature.scope.view stream) signature.pattern
          finding.offset) ∧
      (findSignature ⟨maxDistance, some 0⟩ method stream signature = none ↔
        toleratedWindows maxDistance signature stream = ∅) := by
  constructor
  · intro finding
    rw [findSignature_eq_some_iff, locate_eq_some_iff_isLeast, toleratedStarts_zero]
    refine and_congr_right fun _ => and_congr_right fun _ => and_congr_right fun hleast => ?_
    -- The start of a match is in range, where the walk counts what its window counts.
    rw [fullCost_zero_view hleast.1.1]
  · rw [← toleratedStarts_zero, ← Set.not_nonempty_iff_eq_empty, ← Option.not_isSome_iff_eq_none,
      findSignature_isSome_iff]
    simp only [Set.Nonempty, mem_toleratedStarts_iff, fullCost_eq_cost]

/-- The unresolved position differs from whatever stands at its place, and the store from
the duplication that is one place too early for it. -/
example :
    let dup := Signature.plain .dup
    let signature : Signature :=
      .wide "store" "" [dup, .unresolved "pop", dup, Signature.plain .bastore]
    let stream := [dup, dup, dup, dup, Signature.plain .bastore]
    windowDistance stream signature.pattern 0 = 2 ∧
      findSignature ⟨2, some 0⟩ "run" stream signature = some ⟨"run", "store", 0, 2⟩ := by
  decide +kernel

end Matching

end ClassWarden
