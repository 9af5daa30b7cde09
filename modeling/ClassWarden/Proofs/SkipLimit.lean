import ClassWarden.Proofs.EditedPattern
import ClassWarden.Proofs.Persistence
import Mathlib.Data.List.Chain

/-!
# Raising the skip limit

A search that is given up at the limit costs one mismatch and leaves the later
positions all but one of its instructions.  Under a higher limit the same search
may go on to an instruction far behind, or to the end of the code, and the later
positions have to do with what follows.  So a match can be lost when the limit is
raised or removed.

What is certain is the part of the alignment in front of the first position that
only the lower limit gives up.  A match that can afford to lose all positions
from there on is kept, and so is every match without a mismatch.  Whether a
signature keeps its matches in all code is known as well: it tolerates no
mismatch or any number of them, or it repeats a single instruction, or it sees
instructions of a single opcode.
-/

namespace ClassWarden

namespace Alignment

variable {low high : Option Nat} {wanted : Option Opcode}
variable {expected next other : SymbolicInstruction}
variable {pattern back code rest : List SymbolicInstruction}

/-- The first limit is no higher than the second.  Having none is higher than any. -/
def AtMost : Option Nat → Option Nat → Prop
  | _, none => True
  | none, some _ => False
  | some low, some high => low ≤ high

theorem atMost_none (limit : Option Nat) : AtMost limit none := by
  cases limit <;> trivial

/-! ## The common part of two alignments -/

theorem AtMost.permits (hle : AtMost low high) {count : Nat} (hpermits : Permits low count) :
    Permits high count := by
  intro allowed hallowed
  obtain rfl : high = some allowed := hallowed
  cases low with
  | none => cases hle
  | some lower => exact (hpermits lower rfl).trans hle

/-- A search that is not given up ends at the same place under a higher limit. -/
theorem AtMost.seek_eq (hle : AtMost low high) (hprobe : seek wanted low code ≠ .limited) :
    seek wanted high code = seek wanted low code := by
  cases hlow : seek wanted low code with
  | found instruction following =>
      obtain ⟨hopcode, skipped, hcode, hskipped, hpermits⟩ := seek_eq_found_iff.mp hlow
      exact seek_eq_found_iff.mpr ⟨hopcode, skipped, hcode, hskipped, hle.permits hpermits⟩
  | limited => exact absurd hlow hprobe
  | exhausted =>
      obtain ⟨hother, hpermits⟩ := seek_eq_exhausted_iff.mp hlow
      exact seek_eq_exhausted_iff.mpr ⟨hother, hle.permits hpermits⟩

/-- What a pattern costs at most when the limit is raised: as much as before up to
the first position that only the lower limit gives up, and one mismatch for every
position from there on. -/
def raisedCost (low high : Option Nat) :
    List SymbolicInstruction → List SymbolicInstruction → Nat
  | [], _ => 0
  | expected :: pattern, code =>
    let probe := seek expected.opcode? low code
    if probe = .limited ∧ seek expected.opcode? high code ≠ .limited then pattern.length + 1
    else
      (if agrees expected probe then 0 else 1) +
        raisedCost low high pattern (afterProbe code probe)

theorem cost_le_raisedCost (hle : AtMost low high) (pattern code : List SymbolicInstruction) :
    cost high pattern code ≤ raisedCost low high pattern code := by
  induction pattern generalizing code with
  | nil => rfl
  | cons expected pattern ih =>
      rw [raisedCost]
      split
      case isTrue => exact cost_le_length high (expected :: pattern) code
      case isFalse hsame =>
        have hprobe : seek expected.opcode? high code = seek expected.opcode? low code := by
          by_cases hlimited : seek expected.opcode? low code = .limited
          · rw [hlimited]
            exact not_not.mp fun hhigh => hsame ⟨hlimited, hhigh⟩
          · exact hle.seek_eq hlimited
        rw [cost_cons, hprobe]
        exact Nat.add_le_add_left (ih _) _

/-- A position that is given up is a mismatch. -/
theorem raisedCost_eq_zero (hcost : cost low pattern code = 0) :
    raisedCost low high pattern code = 0 := by
  induction pattern generalizing code with
  | nil => rfl
  | cons expected pattern ih =>
      rw [cost_cons, Nat.add_eq_zero_iff] at hcost
      have hagrees : agrees expected (seek expected.opcode? low code) = true := by
        simpa using hcost.1
      obtain ⟨instruction, following, hprobe, -⟩ := agrees_iff.mp hagrees
      have hfound : ¬ (seek expected.opcode? low code = .limited ∧
          seek expected.opcode? high code ≠ .limited) := by
        rintro ⟨hlimited, -⟩
        rw [hprobe] at hlimited
        cases hlimited
      rw [raisedCost]
      rw [if_neg hfound, if_pos hagrees, ih hcost.2]

/-! ## Patterns that a higher limit serves no worse -/

theorem cost_pattern_append_le (limit : Option Nat)
    (pattern more code : List SymbolicInstruction) :
    cost limit (pattern ++ more) code ≤ cost limit pattern code + more.length := by
  induction pattern generalizing code with
  | nil => simpa [cost] using cost_le_length limit more code
  | cons expected pattern ih =>
      have hlater := ih (afterProbe code (seek expected.opcode? limit code))
      rw [List.cons_append, cost_cons, cost_cons]
      omega

theorem atMost_spend (limit : Option Nat) : AtMost (spend limit) limit := by
  cases limit with
  | none => trivial
  | some allowed => exact Nat.sub_le allowed 1

/-- Code in front that the first search goes past does not matter. -/
theorem cost_cons_of_skipped {limit : Option Nat} (hother : other.opcode? ≠ expected.opcode?)
    (hprobe : seek expected.opcode? limit (other :: code) ≠ .limited) :
    cost limit (expected :: pattern) (other :: code) = cost limit (expected :: pattern) code := by
  have hlimit : limit ≠ some 0 := by
    rintro rfl
    exact hprobe (seek_zero_cons hother)
  rw [seek, if_neg hother, if_neg hlimit] at hprobe
  have hsame := (atMost_spend limit).seek_eq hprobe
  rw [cost_cons, cost_cons, seek, if_neg hother, if_neg hlimit, hsame]
  cases hspent : seek expected.opcode? (spend limit) code with
  | found instruction following => rfl
  | limited => exact absurd hspent hprobe
  | exhausted => rfl

theorem cost_cons_of_limited {limit : Option Nat}
    (hprobe : seek expected.opcode? limit (other :: code) = .limited) :
    cost limit (expected :: pattern) (other :: code) = 1 + cost limit pattern code := by
  rw [cost_cons, hprobe, afterProbe, List.tail_cons]
  rfl

/-- An instruction of another opcode in front is worth no more than one position. -/
theorem cost_replicate_cons_le (hother : other.opcode? ≠ expected.opcode?) (limit : Option Nat)
    (count : Nat) (code : List SymbolicInstruction) :
    cost limit (List.replicate (count + 1) expected) (other :: code) ≤
      cost limit (List.replicate count expected) code + 1 := by
  by_cases hprobe : seek expected.opcode? limit (other :: code) = .limited
  · rw [List.replicate_succ, cost_cons_of_limited hprobe, Nat.add_comm]
  · rw [List.replicate_succ, cost_cons_of_skipped hother hprobe, ← List.replicate_succ,
      List.replicate_succ']
    exact cost_pattern_append_le limit _ [expected] code

/-- A pattern that repeats one instruction takes the instructions of its opcode one
after another, whichever of them it compares. -/
theorem cost_replicate_le (hle : AtMost low high) (expected : SymbolicInstruction) (count : Nat)
    (code : List SymbolicInstruction) :
    cost high (List.replicate count expected) code ≤
      cost low (List.replicate count expected) code := by
  induction count generalizing code with
  | zero => rfl
  | succ count ih =>
      by_cases hprobe : seek expected.opcode? low code = .limited
      · obtain ⟨allowed, -, hlength, hahead⟩ := seek_eq_limited_iff.mp hprobe
        cases code with
        | nil => cases hprobe
        | cons other code =>
            have hother : other.opcode? ≠ expected.opcode? := hahead other (by simp)
            calc cost high (List.replicate (count + 1) expected) (other :: code)
                ≤ cost high (List.replicate count expected) code + 1 :=
                  cost_replicate_cons_le hother high count code
              _ ≤ cost low (List.replicate count expected) code + 1 :=
                  Nat.add_le_add_right (ih code) 1
              _ = cost low (List.replicate (count + 1) expected) (other :: code) := by
                  rw [List.replicate_succ, cost_cons_of_limited hprobe, Nat.add_comm]
      · rw [List.replicate_succ, cost_cons, cost_cons, hle.seek_eq hprobe]
        exact Nat.add_le_add_left (ih _) _

/-- Where pattern and code share one opcode, no search skips anything. -/
theorem cost_eq_of_opcode_eq (low high : Option Nat)
    (hopcode : ∀ expected ∈ pattern, ∀ instruction ∈ code,
      instruction.opcode? = expected.opcode?) :
    cost high pattern code = cost low pattern code := by
  induction pattern generalizing code with
  | nil => rfl
  | cons expected pattern ih =>
      cases code with
      | nil => rw [cost_nil_right, cost_nil_right]
      | cons instruction code =>
          have hfirst := hopcode expected List.mem_cons_self instruction List.mem_cons_self
          rw [cost_cons, cost_cons, seek_cons_self hfirst, seek_cons_self hfirst, afterProbe]
          rw [ih fun expected hexpected other hmem =>
            hopcode expected (List.mem_cons_of_mem _ hexpected) other
              (List.mem_cons_of_mem _ hmem)]

/-! ## A search that takes too much -/

/-- The lowest limit gives up on an instruction of another opcode at once. -/
theorem cost_zero_blocked (hother : other.opcode? ≠ expected.opcode?)
    (back rest : List SymbolicInstruction) :
    cost (some 0) (expected :: next :: back) (other :: next :: rest) =
      1 + cost (some 0) back rest := by
  rw [cost_cons_of_limited (seek_zero_cons hother), cost_cons_self]

/-- Without a limit the search goes past that instruction and uses up the next one
as well, so that the pattern has only what is behind the two. -/
theorem length_le_cost_none_blocked {usable : SymbolicInstruction → Bool}
    (hother : other.opcode? ≠ expected.opcode?) (hnext : next ≠ expected)
    (husable : ∀ instruction ∈ expected :: next :: back, usable instruction = true)
    (hresolved : ∀ instruction ∈ next :: rest, instruction.isResolved = true) :
    (expected :: next :: back).length ≤
      cost none (expected :: next :: back) (other :: next :: rest) + rest.countP usable := by
  obtain ⟨hnextResolved, hrest⟩ := List.forall_mem_cons.mp hresolved
  rw [cost_cons_of_skipped hother (seek_ne_limited (permits_none _) _)]
  by_cases hopcode : next.opcode? = expected.opcode?
  · have hdiffers : ¬ agrees expected (.found next rest) = true := by
      intro hagrees
      obtain ⟨_, _, ⟨⟩, hoperands⟩ := agrees_iff.mp hagrees
      exact hnext (SymbolicInstruction.eq_of_isResolved hnextResolved hopcode hoperands)
    have hlater := length_le_cost_add_countP none (List.forall_mem_cons.mp husable).2 hrest
    rw [cost_cons, seek_cons_self hopcode, if_neg hdiffers, afterProbe, List.length_cons]
    omega
  · rw [cost_cons_of_skipped hopcode (seek_ne_limited (permits_none _) _)]
    exact length_le_cost_add_countP none husable hrest

end Alignment

namespace Signature

open ClassWarden.Alignment Matching

variable {signature : Signature} {maxDistance : Nat} {expected next other : SymbolicInstruction}
variable {pattern front back part code : List SymbolicInstruction}

/-! ## Code with spoiled instructions -/

def impostor (pattern : List SymbolicInstruction) : SymbolicInstruction → SymbolicInstruction
  | .resolved opcode _ => stranger pattern opcode
  | .unresolved reason => .unresolved reason

@[simp]
theorem opcode?_impostor (pattern : List SymbolicInstruction)
    (instruction : SymbolicInstruction) :
    (impostor pattern instruction).opcode? = instruction.opcode? := by
  cases instruction <;> rfl

theorem impostor_not_mem (hresolved : other.isResolved = true) :
    impostor pattern other ∉ pattern := by
  cases other with
  | resolved opcode operands => exact stranger_not_mem pattern opcode
  | unresolved reason => cases hresolved

/-- The first so many instructions with impostors in their places. -/
def spoil (pattern : List SymbolicInstruction) (count : Nat)
    (part : List SymbolicInstruction) : List SymbolicInstruction :=
  (part.take count).map (impostor pattern) ++ part.drop count

@[simp]
theorem length_spoil (pattern : List SymbolicInstruction) (count : Nat)
    (part : List SymbolicInstruction) : (spoil pattern count part).length = part.length := by
  rw [spoil, List.length_append, List.length_map, ← List.length_append, List.take_append_drop]

theorem admits_of_mem_spoil {scope : Scope} {count : Nat}
    (hadmits : ∀ instruction ∈ part, scope.admits instruction = true) :
    ∀ instruction ∈ spoil pattern count part, scope.admits instruction = true := by
  intro instruction hmem
  rcases List.mem_append.mp hmem with htaken | hleft
  · obtain ⟨original, horiginal, rfl⟩ := List.mem_map.mp htaken
    rw [Scope.admits_congr (opcode?_impostor pattern original)]
    exact hadmits original (List.mem_of_mem_take horiginal)
  · exact hadmits instruction (List.mem_of_mem_drop hleft)

/-- An impostor is found in the place of its original, and is a mismatch. -/
theorem cost_map_impostor (limit : Option Nat) (hpart : ∀ instruction ∈ part,
      instruction ∈ pattern ∧ instruction.isResolved = true)
    (rest code : List SymbolicInstruction) :
    cost limit (part ++ rest) (part.map (impostor pattern) ++ code) =
      part.length + cost limit rest code := by
  induction part with
  | nil => simp
  | cons expected part ih =>
      obtain ⟨⟨hmem, hresolved⟩, hpart⟩ := List.forall_mem_cons.mp hpart
      have hopcode := opcode?_impostor pattern expected
      have hdiffers : ¬ agrees expected
          (.found (impostor pattern expected) (part.map (impostor pattern) ++ code)) = true := by
        intro hagrees
        obtain ⟨_, _, ⟨⟩, hoperands⟩ := agrees_iff.mp hagrees
        have hsame := SymbolicInstruction.eq_of_isResolved hresolved hopcode.symm hoperands.symm
        exact impostor_not_mem hresolved (hsame ▸ hmem)
      rw [List.cons_append, List.map_cons, List.cons_append, cost_cons, seek_cons_self hopcode,
        if_neg hdiffers, afterProbe, ih hpart, List.length_cons]
      omega

theorem cost_spoil (limit : Option Nat) (count : Nat) (hpart : ∀ instruction ∈ part,
      instruction ∈ pattern ∧ instruction.isResolved = true)
    (rest code : List SymbolicInstruction) :
    cost limit (part ++ rest) (spoil pattern count part ++ code) =
      min count part.length + cost limit rest code := by
  have htaken : ∀ instruction ∈ part.take count,
      instruction ∈ pattern ∧ instruction.isResolved = true :=
    fun instruction hmem => hpart instruction (List.mem_of_mem_take hmem)
  calc cost limit (part ++ rest) (spoil pattern count part ++ code)
      = cost limit (part.take count ++ (part.drop count ++ rest))
          ((part.take count).map (impostor pattern) ++ (part.drop count ++ code)) := by
        rw [spoil, ← List.append_assoc, List.take_append_drop, List.append_assoc]
    _ = min count part.length + cost limit (part.drop count ++ rest) (part.drop count ++ code) := by
        rw [cost_map_impostor limit htaken, List.length_take]
    _ = min count part.length + cost limit rest code := by
        rw [cost_append_self]

theorem countP_spoil_le (count : Nat)
    (hresolved : ∀ instruction ∈ part, instruction.isResolved = true) :
    (spoil pattern count part).countP (fun other => decide (other ∈ pattern)) ≤
      part.length - count := by
  have htaken : ((part.take count).map (impostor pattern)).countP
      (fun other => decide (other ∈ pattern)) = 0 := by
    refine List.countP_eq_zero.mpr fun instruction hmem => ?_
    obtain ⟨original, horiginal, rfl⟩ := List.mem_map.mp hmem
    simpa using impostor_not_mem (hresolved original (List.mem_of_mem_take horiginal))
  rw [spoil, List.countP_append, htaken, Nat.zero_add, ← List.length_drop]
  exact List.countP_le_length

/-! ## Which signatures keep their matches -/

/-- No raise of the limit loses the signature's match in any method. -/
def KeepsMatches (signature : Signature) (maxDistance : Nat) : Prop :=
  ∀ low high, AtMost low high → ∀ method stream,
    (findSignature ⟨maxDistance, low⟩ method stream signature).isSome = true →
      (findSignature ⟨maxDistance, high⟩ method stream signature).isSome = true

def Repeats (pattern : List SymbolicInstruction) : Prop :=
  ∀ left ∈ pattern, ∀ right ∈ pattern, left = right

/-- All visible instructions have the same opcode. -/
def SeesOneOpcode (scope : Scope) : Prop :=
  ∀ left right, scope.admits left = true → scope.admits right = true →
    left.opcode? = right.opcode?

/-- Where no cost grows with the limit, no match is lost. -/
theorem keepsMatches_of_cost_le (hcost : ∀ low high, AtMost low high → ∀ code,
      (∀ instruction ∈ code, signature.scope.admits instruction = true) →
        cost low signature.pattern code ≤ maxDistance →
          cost high signature.pattern code ≤ maxDistance) :
    KeepsMatches signature maxDistance := by
  intro low high hle method stream hfound
  obtain ⟨start, hstart, htolerated⟩ := findSignature_isSome_iff.mp hfound
  refine findSignature_isSome_iff.mpr ⟨start, hstart, hcost low high hle _ ?_ htolerated⟩
  exact fun instruction hmem => (List.mem_filter.mp (List.mem_of_mem_drop hmem)).2

theorem exists_adjacent_ne (hvaries : ¬ Repeats pattern) :
    ∃ front expected next back, pattern = front ++ expected :: next :: back ∧
      next ≠ expected := by
  by_contra hnone
  have hchain : pattern.IsChain (· = ·) := by
    refine List.isChain_iff_forall_rel_of_append_cons_cons.mpr fun left right front back hsplit => ?_
    by_contra hne
    exact hnone ⟨front, left, right, back, hsplit, fun hsame => hne hsame.symm⟩
  have hpairwise : pattern.Pairwise (· = ·) := List.isChain_iff_pairwise.mp hchain
  exact hvaries fun left hleft right hright =>
    hpairwise.forall_of_forall (fun _ _ => rfl) hleft hright

/-- A place where a search under a higher limit takes too much: two different
neighbours in a pattern that is visible throughout, and a visible instruction of
another opcode than the first one's, which no position can use. -/
structure Trap (signature : Signature) (front : List SymbolicInstruction)
    (expected next : SymbolicInstruction) (back : List SymbolicInstruction)
    (blocker : SymbolicInstruction) : Prop where
  visible : ∀ instruction ∈ signature.pattern, signature.scope.admits instruction = true
  pattern_eq : signature.pattern = front ++ expected :: next :: back
  next_ne : next ≠ expected
  admits_blocker : signature.scope.admits blocker = true
  opcode_ne : blocker.opcode? ≠ expected.opcode?
  not_mem : blocker ∉ signature.pattern

theorem exists_trap (hvisible : ∀ instruction ∈ signature.pattern,
      signature.scope.admits instruction = true)
    (hvaries : ¬ Repeats signature.pattern) (hopcodes : ¬ SeesOneOpcode signature.scope) :
    ∃ front expected next back blocker, Trap signature front expected next back blocker := by
  obtain ⟨front, expected, next, back, hpattern, hnext⟩ := exists_adjacent_ne hvaries
  obtain ⟨other, hadmits, hother⟩ : ∃ other, signature.scope.admits other = true ∧
      other.opcode? ≠ expected.opcode? := by
    by_contra hnone
    push Not at hnone
    exact hopcodes fun left right hleft hright =>
      (hnone left hleft).trans (hnone right hright).symm
  have hopcode := opcode?_impostor signature.pattern other
  refine ⟨front, expected, next, back, impostor signature.pattern other, hvisible, hpattern, hnext,
    ?_, ?_, impostor_not_mem (Scope.isResolved_of_admits hadmits)⟩
  · rwa [Scope.admits_congr hopcode]
  · rwa [hopcode]

namespace Trap

variable {blocker : SymbolicInstruction}

/-- The method that loses its match: the pattern with the blocker in the first
neighbour's place, some impostors besides, and the blocker once more behind it. -/
def stream (signature : Signature) (front : List SymbolicInstruction)
    (next : SymbolicInstruction) (back : List SymbolicInstruction)
    (blocker : SymbolicInstruction) (spoiled : Nat) : List SymbolicInstruction :=
  spoil signature.pattern spoiled front ++ blocker :: next ::
    (spoil signature.pattern (spoiled - front.length) back ++ [blocker])

/-- Instructions that cannot be matched in that method, the blocker's place apart. -/
def losses (front back : List SymbolicInstruction) (spoiled : Nat) : Nat :=
  min spoiled front.length + min (spoiled - front.length) back.length

variable (htrap : Trap signature front expected next back blocker)

include htrap

theorem mem_pattern {instruction : SymbolicInstruction}
    (hmem : instruction ∈ front ++ expected :: next :: back) : instruction ∈ signature.pattern :=
  htrap.pattern_eq ▸ hmem

theorem usable_of_mem {instruction : SymbolicInstruction}
    (hmem : instruction ∈ front ++ expected :: next :: back) :
    instruction ∈ signature.pattern ∧ instruction.isResolved = true :=
  have hpattern := htrap.mem_pattern hmem
  ⟨hpattern, Scope.isResolved_of_admits (htrap.visible instruction hpattern)⟩

theorem usable_of_mem_back {instruction : SymbolicInstruction} (hmem : instruction ∈ back) :
    instruction ∈ signature.pattern ∧ instruction.isResolved = true := by
  apply htrap.usable_of_mem
  simp [hmem]

theorem length_stream (spoiled : Nat) :
    (stream signature front next back blocker spoiled).length = signature.pattern.length + 1 := by
  rw [stream, htrap.pattern_eq]
  simp
  omega

theorem admits_stream (spoiled : Nat) :
    ∀ instruction ∈ stream signature front next back blocker spoiled,
      signature.scope.admits instruction = true := by
  have hpart {part : List SymbolicInstruction}
      (hpart : ∀ instruction ∈ part, instruction ∈ front ++ expected :: next :: back) :
      ∀ instruction ∈ part, signature.scope.admits instruction = true :=
    fun instruction hmem => htrap.visible instruction (htrap.mem_pattern (hpart instruction hmem))
  intro instruction hmem
  simp only [stream, List.mem_append, List.mem_cons, List.not_mem_nil, or_false] at hmem
  obtain hmem | rfl | rfl | hmem | rfl := hmem
  · exact admits_of_mem_spoil (hpart (by simp +contextual)) instruction hmem
  · exact htrap.admits_blocker
  · exact htrap.visible instruction (htrap.mem_pattern (by simp))
  · exact admits_of_mem_spoil (hpart (by simp +contextual)) instruction hmem
  · exact htrap.admits_blocker

theorem view_stream (spoiled : Nat) :
    signature.scope.view (stream signature front next back blocker spoiled) =
      stream signature front next back blocker spoiled :=
  Scope.view_eq_self (htrap.admits_stream spoiled)

/-- In front of the blocker, only the impostors count. -/
theorem cost_stream (limit : Option Nat) (spoiled : Nat) :
    cost limit signature.pattern (stream signature front next back blocker spoiled) =
      min spoiled front.length + cost limit (expected :: next :: back) (blocker :: next ::
        (spoil signature.pattern (spoiled - front.length) back ++ [blocker])) := by
  conv_lhs => enter [2]; rw [htrap.pattern_eq]
  apply cost_spoil limit spoiled
  intro instruction hmem
  exact htrap.usable_of_mem (List.mem_append_left (expected :: next :: back) hmem)

theorem cost_zero_stream (spoiled : Nat) :
    cost (some 0) signature.pattern (stream signature front next back blocker spoiled) =
      losses front back spoiled + 1 := by
  have hlast := cost_spoil (some 0) (spoiled - front.length)
    (fun _ => htrap.usable_of_mem_back) [] [blocker]
  rw [List.append_nil, cost, Nat.add_zero] at hlast
  rw [htrap.cost_stream, cost_zero_blocked htrap.opcode_ne, hlast, losses]
  omega

theorem lt_cost_none_stream (spoiled : Nat) :
    losses front back spoiled + 1 <
      cost none signature.pattern (stream signature front next back blocker spoiled) := by
  have hstream := htrap.admits_stream spoiled
  rw [htrap.cost_stream, losses]
  rw [stream] at hstream
  set rest := spoil signature.pattern (spoiled - front.length) back ++ [blocker] with hrest
  have hresolved : ∀ instruction ∈ next :: rest, instruction.isResolved = true := by
    intro instruction hmem
    refine Scope.isResolved_of_admits (hstream instruction ?_)
    exact List.mem_append_right _ (List.mem_cons_of_mem _ hmem)
  have hused : rest.countP (fun other => decide (other ∈ signature.pattern)) ≤
      back.length - (spoiled - front.length) := by
    rw [hrest, List.countP_append, List.countP_cons_of_neg (by simpa using htrap.not_mem)]
    exact countP_spoil_le _ fun instruction hmem => (htrap.usable_of_mem_back hmem).2
  have hpays := length_le_cost_none_blocked htrap.opcode_ne htrap.next_ne
    (fun instruction hmem => decide_eq_true (htrap.mem_pattern (List.mem_append_right _ hmem)))
    hresolved
  rw [List.length_cons, List.length_cons] at hpays
  omega

/-- Between no mismatch and one for every position a match is lost. -/
theorem not_keepsMatches (hpositive : 0 < maxDistance)
    (hlt : maxDistance < signature.pattern.length) : ¬ KeepsMatches signature maxDistance := by
  intro hkeeps
  have hview := htrap.view_stream (maxDistance - 1)
  have hlength := htrap.length_stream (maxDistance - 1)
  have hzero := htrap.cost_zero_stream (maxDistance - 1)
  have hnone := htrap.lt_cost_none_stream (maxDistance - 1)
  have hlosses : losses front back (maxDistance - 1) + 1 = maxDistance := by
    rw [htrap.pattern_eq, List.length_append, List.length_cons, List.length_cons] at hlt
    rw [losses]
    omega
  rw [hlosses] at hzero hnone
  set code := stream signature front next back blocker (maxDistance - 1)
  have hfound : (findSignature ⟨maxDistance, some 0⟩ "" code signature).isSome = true := by
    refine findSignature_isSome_iff.mpr ⟨0, ?_, ?_⟩
    · rw [hview, hlength]
      omega
    · rw [hview, List.drop_zero, hzero]
  -- The method is so short that the pattern has a single start in it.
  obtain ⟨start, hstart, hcost⟩ :=
    findSignature_isSome_iff.mp (hkeeps (some 0) none trivial "" code hfound)
  rw [hview] at hstart hcost
  obtain rfl : start = 0 := by omega
  exact absurd hcost hnone.not_ge

end Trap

theorem keepsMatches_of_repeats (hrepeats : Repeats signature.pattern) :
    KeepsMatches signature maxDistance := by
  refine keepsMatches_of_cost_le fun low high hle code _ htolerated => ?_
  cases hpattern : signature.pattern with
  | nil => exact Nat.zero_le _
  | cons expected rest =>
      have hreplicate : signature.pattern = List.replicate signature.pattern.length expected :=
        List.eq_replicate_of_mem fun instruction hmem =>
          hrepeats instruction hmem expected (by simp [hpattern])
      rw [hreplicate] at htolerated
      rw [← hpattern, hreplicate]
      exact (cost_replicate_le hle expected _ code).trans htolerated

theorem keepsMatches_of_seesOneOpcode (hvisible : ∀ instruction ∈ signature.pattern,
      signature.scope.admits instruction = true) (hopcode : SeesOneOpcode signature.scope) :
    KeepsMatches signature maxDistance := by
  refine keepsMatches_of_cost_le fun low high _ code hcode htolerated => ?_
  rwa [cost_eq_of_opcode_eq low high fun expected hexpected instruction hmem =>
    hopcode instruction expected (hcode instruction hmem) (hvisible expected hexpected)]

theorem keepsMatches_iff (hvisible : ∀ instruction ∈ signature.pattern,
      signature.scope.admits instruction = true) :
    KeepsMatches signature maxDistance ↔
      maxDistance = 0 ∨ signature.pattern.length ≤ maxDistance ∨ Repeats signature.pattern ∨
        SeesOneOpcode signature.scope := by
  constructor
  · intro hkeeps
    by_contra hnone
    push Not at hnone
    obtain ⟨hpositive, hlt, hvaries, hopcodes⟩ := hnone
    obtain ⟨front, expected, next, back, blocker, htrap⟩ :=
      exists_trap hvisible hvaries hopcodes
    exact htrap.not_keepsMatches (Nat.pos_of_ne_zero hpositive) hlt hkeeps
  · rintro (rfl | hlength | hrepeats | hopcode)
    · refine keepsMatches_of_cost_le fun low high hle code _ htolerated => ?_
      calc cost high signature.pattern code
          ≤ raisedCost low high signature.pattern code :=
            cost_le_raisedCost hle signature.pattern code
        _ = 0 := raisedCost_eq_zero (Nat.le_zero.mp htolerated)
    · exact keepsMatches_of_cost_le fun _ high _ code _ _ =>
        (cost_le_length high signature.pattern code).trans hlength
    · exact keepsMatches_of_repeats hrepeats
    · exact keepsMatches_of_seesOneOpcode hvisible hopcode

/-- A built-in signature at the standard tolerance: the constructor call is missing,
and a later one takes its place as soon as the limit lets the search get there. -/
theorem encodedCommand_lost_under_higher_limit :
    let stream := encodedCommand.pattern.take 4 ++
      [reference .invokevirtual ["a/A", "log", "()V"]] ++ encodedCommand.pattern.drop 5 ++
        [reference .invokespecial ["java/lang/Object", "<init>", "()V"]]
    AtMost (some 1) (some 3) ∧ AtMost (some 1) none ∧
      findSignature ⟨1, some 1⟩ "run" stream encodedCommand = some ⟨"run", "sig2", 0, 1⟩ ∧
      findSignature ⟨1, some 3⟩ "run" stream encodedCommand = none ∧
      findSignature ⟨1, none⟩ "run" stream encodedCommand = none := by
  refine ⟨by simp [AtMost], trivial, ?_⟩
  decide +kernel

end Signature

namespace Matching

open ClassWarden.Alignment Signature

variable {signature : Signature} {low high : Option Nat} {maxDistance : Nat} {method : String}
variable {stream : List SymbolicInstruction} {finding : Finding}

theorem exists_findSignature_raised (hle : AtMost low high)
    (hfound : findSignature ⟨maxDistance, low⟩ method stream signature = some finding)
    (hcost : raisedCost low high signature.pattern
      ((signature.scope.view stream).drop finding.offset) ≤ maxDistance) :
    ∃ raised, findSignature ⟨maxDistance, high⟩ method stream signature = some raised ∧
      raised.offset ≤ finding.offset := by
  obtain ⟨hstart, -, -⟩ := cost_offset_eq hfound
  exact exists_offset_le ⟨maxDistance, high⟩ method stream hstart
    ((cost_le_raisedCost hle _ _).trans hcost)

/-- A higher limit keeps a match without a mismatch, and one that can afford to lose
every position from the first one on that only the lower limit gives up.  In all
code it keeps the matches of a signature, which sees its own pattern, exactly if that
signature tolerates no mismatch or one for every position, repeats one instruction
or sees one opcode. -/
theorem findSignature_raised_limit (signature : Signature) (maxDistance : Nat) :
    (∀ low high, AtMost low high → ∀ method stream finding,
      findSignature ⟨maxDistance, low⟩ method stream signature = some finding →
        finding.distance = 0 ∨
          raisedCost low high signature.pattern
            ((signature.scope.view stream).drop finding.offset) ≤ maxDistance →
          ∃ raised, findSignature ⟨maxDistance, high⟩ method stream signature = some raised ∧
            raised.offset ≤ finding.offset) ∧
      ((∀ instruction ∈ signature.pattern, signature.scope.admits instruction = true) →
        (KeepsMatches signature maxDistance ↔
          maxDistance = 0 ∨ signature.pattern.length ≤ maxDistance ∨
            Repeats signature.pattern ∨ SeesOneOpcode signature.scope)) := by
  refine ⟨fun low high hle method stream finding hfound hafford => ?_, keepsMatches_iff⟩
  obtain hexact | hcost := hafford
  · obtain ⟨-, hdistance, -⟩ := cost_offset_eq hfound
    refine exists_findSignature_raised hle hfound ?_
    rw [raisedCost_eq_zero (hdistance.trans hexact)]
    exact Nat.zero_le _
  · exact exists_findSignature_raised hle hfound hcost

/-- The Base64 command without its last call, which a search without a limit finds
in another call behind.  No position is left to suffer from that. -/
theorem findSignature_raised_limit_encodedCommand :
    let stream := encodedCommand.pattern.dropLast ++ [stringOfBytes, stringOfBytes,
      reference .invokevirtual ["a/A", "log", "()V"]]
    findSignature ⟨1, some 1⟩ "run" stream encodedCommand = some ⟨"run", "sig2", 0, 1⟩ ∧
      (∃ raised, findSignature ⟨1, none⟩ "run" stream encodedCommand = some raised ∧
        raised.offset ≤ 0) ∧
      KeepsMatches encodedCommand 0 ∧ ¬ KeepsMatches encodedCommand 1 := by
  intro stream
  have hfound : findSignature ⟨1, some 1⟩ "run" stream encodedCommand =
      some ⟨"run", "sig2", 0, 1⟩ := by
    decide +kernel
  have hcost : raisedCost (some 1) none encodedCommand.pattern
      ((encodedCommand.scope.view stream).drop 0) ≤ 1 := by
    decide +kernel
  have hvisible : ∀ instruction ∈ encodedCommand.pattern,
      encodedCommand.scope.admits instruction = true := by
    decide +kernel
  have hcall : stringOfBytes ∈ encodedCommand.pattern := by
    decide +kernel
  have hlast : reference .invokevirtual ["java/io/File", "getPath", "()Ljava/lang/String;"] ∈
      encodedCommand.pattern := by
    decide +kernel
  refine ⟨hfound, (findSignature_raised_limit encodedCommand 1).1 (some 1) none trivial "run"
    stream _ hfound (.inr hcost), ?_, ?_⟩
  · exact ((findSignature_raised_limit encodedCommand 0).2 hvisible).mpr (.inl rfl)
  · rw [(findSignature_raised_limit encodedCommand 1).2 hvisible]
    rintro (hzero | hlength | hrepeats | hopcode)
    · cases hzero
    · revert hlength
      decide +kernel
    · cases hrepeats _ hcall _ hlast
    · cases hopcode _ _ (hvisible _ hcall) (hvisible _ hlast)

end Matching

end ClassWarden
