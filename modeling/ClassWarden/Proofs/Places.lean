import ClassWarden.Proofs.Persistence
import Mathlib.Data.Nat.PSub
import Mathlib.Order.Bounds.Defs

/-!
# Alignments by places

The alignment of a pattern, told by the places of the view.  Each position goes,
from the place that is next, to the nearest instruction of its opcode, if the
limit lets it get there, and is a mismatch unless it finds its own operands.
The mismatches of a start, counted to the end, decide what is reported: the
least start with a tolerated count, and that count.

There are no mismatches exactly where the pattern can be threaded through the
view with clean gaps.  Where each opcode of the pattern already stands at its
place, the mismatches are the positions with other operands.
-/

namespace ClassWarden

namespace Alignment

variable {limit : Option Nat} {wanted : Option Opcode} {expected instruction : SymbolicInstruction}
variable {pattern view following : List SymbolicInstruction} {place start offset : Nat}

/-! ## The count of all mismatches -/

instance (limit : Option Nat) (count : Nat) : Decidable (Permits limit count) :=
  inferInstanceAs (Decidable (∀ allowed ∈ limit, count ≤ allowed))

/-- How many instructions stand between a place and the next instruction with the
wanted opcode; all that are left, if there is none. -/
def gap (view : List SymbolicInstruction) (wanted : Option Opcode) (place : Nat) : Nat :=
  (view.drop place).findIdx fun instruction => instruction.opcode? = wanted

def HasOperands (view : List SymbolicInstruction) (place : Nat) (operands : List Operand) : Prop :=
  view[place]?.map SymbolicInstruction.operands = some operands

instance (view : List SymbolicInstruction) (place : Nat) (operands : List Operand) :
    Decidable (HasOperands view place operands) :=
  inferInstanceAs (Decidable (_ = _))

/-- Mismatches of a pattern laid along a view from a place on, all of them counted.
A position that the limit keeps from its instruction moves on by one place only. -/
def fullCost (limit : Option Nat) (view : List SymbolicInstruction) :
    List SymbolicInstruction → Nat → Nat
  | [], _ => 0
  | expected :: pattern, place =>
    let target := place + gap view expected.opcode? place
    if Permits limit (gap view expected.opcode? place) then
      (if HasOperands view target expected.operands then 0 else 1) +
        fullCost limit view pattern (target + 1)
    else 1 + fullCost limit view pattern (place + 1)

theorem fullCost_cons (limit : Option Nat) (view : List SymbolicInstruction)
    (expected : SymbolicInstruction) (pattern : List SymbolicInstruction) (place : Nat) :
    fullCost limit view (expected :: pattern) place =
      if Permits limit (gap view expected.opcode? place) then
        (if HasOperands view (place + gap view expected.opcode? place) expected.operands then 0
          else 1) +
          fullCost limit view pattern (place + gap view expected.opcode? place + 1)
      else 1 + fullCost limit view pattern (place + 1) :=
  rfl

/-- The gap ends at the first instruction of the wanted opcode. -/
theorem gap_eq_iff {skipped : Nat} (hthere : view[place + skipped]? = some instruction) :
    gap view wanted place = skipped ↔
      instruction.opcode? = wanted ∧ ∀ between other, between < skipped →
        view[place + between]? = some other → other.opcode? ≠ wanted := by
  obtain ⟨hbound, rfl⟩ := List.getElem?_eq_some_iff.mp hthere
  have hdropped : skipped < (view.drop place).length := by
    rw [List.length_drop]
    omega
  simp only [gap, List.findIdx_eq hdropped, List.getElem_drop, decide_eq_true_eq,
    decide_eq_false_iff_not]
  refine and_congr_right fun _ => ⟨fun hclean between other hbetween hother => ?_,
    fun hclean between hbetween => hclean between _ hbetween (List.getElem?_eq_getElem _)⟩
  obtain ⟨_, rfl⟩ := List.getElem?_eq_some_iff.mp hother
  exact hclean between hbetween

/-- An instruction of the wanted opcode at the place itself is taken at once. -/
theorem gap_eq_zero (hopcode : view[place]?.map SymbolicInstruction.opcode? = some wanted) :
    gap view wanted place = 0 := by
  obtain ⟨instruction, hinstruction, hwanted⟩ := Option.map_eq_some_iff.mp hopcode
  exact (gap_eq_iff hinstruction).mpr ⟨hwanted, nofun⟩

theorem gap_of_found (hprobe : seek wanted limit (view.drop place) = .found instruction following) :
    Permits limit (gap view wanted place) ∧
      view[place + gap view wanted place]? = some instruction ∧
        following = view.drop (place + gap view wanted place + 1) := by
  obtain ⟨hopcode, skipped, hview, hskipped, hpermits⟩ := seek_eq_found_iff.mp hprobe
  have hthere : view[place + skipped.length]? = some instruction := by
    rw [← List.getElem?_drop, hview, List.getElem?_append_right (Nat.le_refl _), Nat.sub_self,
      List.getElem?_cons_zero]
  have hgap : gap view wanted place = skipped.length := by
    refine (gap_eq_iff hthere).mpr ⟨hopcode, fun between other hbetween hother => ?_⟩
    rw [← List.getElem?_drop, hview, List.getElem?_append_left hbetween] at hother
    exact hskipped other (List.mem_of_getElem? hother)
  rw [hgap]
  refine ⟨hpermits, hthere, ?_⟩
  rw [Nat.add_assoc, ← List.drop_drop, hview, ← List.drop_drop, List.drop_left, List.drop_one,
    List.tail_cons]

theorem gap_of_limited (hprobe : seek wanted limit (view.drop place) = .limited) :
    ¬ Permits limit (gap view wanted place) := by
  obtain ⟨allowed, rfl, hallowed, hother⟩ := seek_eq_limited_iff.mp hprobe
  have hgap : allowed < gap view wanted place := by
    rw [gap, List.lt_findIdx_iff]
    refine ⟨hallowed, fun index hindex => ?_⟩
    have hmem : (view.drop place)[index] ∈ (view.drop place).take (allowed + 1) :=
      List.mem_take_iff_getElem.mpr ⟨index, by omega, rfl⟩
    simpa using hother _ hmem
  intro hpermits
  exact absurd (hpermits allowed rfl) hgap.not_ge

theorem gap_of_exhausted (hprobe : seek wanted limit (view.drop place) = .exhausted) :
    Permits limit (gap view wanted place) ∧ view.length ≤ place + gap view wanted place := by
  obtain ⟨hother, hpermits⟩ := seek_eq_exhausted_iff.mp hprobe
  have hgap : gap view wanted place = (view.drop place).length := by
    rw [gap, List.findIdx_eq_length]
    simpa using hother
  rw [hgap]
  refine ⟨hpermits, ?_⟩
  rw [List.length_drop]
  omega

/-- The plain count is the cost of the part of the view from the place on. -/
theorem fullCost_eq_cost (limit : Option Nat) (view pattern : List SymbolicInstruction)
    (place : Nat) : fullCost limit view pattern place = cost limit pattern (view.drop place) := by
  induction pattern generalizing place with
  | nil => rfl
  | cons expected pattern ih =>
      rw [fullCost_cons, cost_cons]
      cases hprobe : seek expected.opcode? limit (view.drop place) with
      | found instruction following =>
          obtain ⟨hpermits, hinstruction, rfl⟩ := gap_of_found hprobe
          simp only [if_pos hpermits, HasOperands, hinstruction, ih, afterProbe, agrees,
            Option.map_some, Option.some.injEq, beq_iff_eq]
      | limited =>
          rw [if_neg (gap_of_limited hprobe), ih, afterProbe, List.tail_drop]
          rfl
      | exhausted =>
          -- Nothing is left for later positions, whichever place they are laid from.
          obtain ⟨hpermits, hend⟩ := gap_of_exhausted hprobe
          have hmissing : ¬ HasOperands view (place + gap view expected.opcode? place)
              expected.operands := by
            simp [HasOperands, List.getElem?_eq_none hend]
          have hbehind : view.drop (place + gap view expected.opcode? place + 1) = [] :=
            List.drop_eq_nil_of_le (by omega)
          rw [if_pos hpermits, if_neg hmissing, ih, hbehind, afterProbe]
          rfl

/-- The walk that is given up counts the same mismatches, as far as they are tolerated. -/
theorem costWithin_drop (limit : Option Nat) (tolerance : Nat)
    (pattern view : List SymbolicInstruction) (place : Nat) :
    costWithin limit tolerance pattern (view.drop place) =
      if fullCost limit view pattern place ≤ tolerance then some (fullCost limit view pattern place)
      else none := by
  rw [costWithin_eq, fullCost_eq_cost]

/-! ## Threads through the view -/

/-- A place that the search for a pattern position gets to from `start`: the first one
of the position's opcode, with its operands, and no more to skip than the limit allows. -/
structure Reaches (limit : Option Nat) (view : List SymbolicInstruction)
    (expected : SymbolicInstruction) (start place : Nat) : Prop where
  start_le : start ≤ place
  same : ∃ instruction, view[place]? = some instruction ∧
    instruction.opcode? = expected.opcode? ∧ instruction.operands = expected.operands
  clean : ∀ between other, start ≤ between → between < place → view[between]? = some other →
    other.opcode? ≠ expected.opcode?
  permits : Permits limit (place - start)

/-- Where the search for a position starts: at the offset, and then behind the place of
the position in front. -/
def searchStart (offset : Nat) (place : Nat → Nat) : Nat → Nat
  | 0 => offset
  | index + 1 => place index + 1

/-- Places for the positions of a pattern, one behind the other from the offset on, with
clean gaps in front of them. -/
def Threads (limit : Option Nat) (view pattern : List SymbolicInstruction) (offset : Nat)
    (place : Nat → Nat) : Prop :=
  ∀ index expected, pattern[index]? = some expected →
    Reaches limit view expected (searchStart offset place index) (place index)

/-- A position is no mismatch where it reaches a place, and that place is the only one. -/
theorem reaches_iff :
    Reaches limit view expected start place ↔
      place = start + gap view expected.opcode? start ∧
        Permits limit (gap view expected.opcode? start) ∧
          HasOperands view place expected.operands := by
  constructor
  · rintro ⟨hstart, ⟨instruction, hthere, hopcode, hoperands⟩, hclean, hpermits⟩
    obtain ⟨skipped, rfl⟩ := Nat.exists_eq_add_of_le hstart
    have hgap : gap view expected.opcode? start = skipped :=
      (gap_eq_iff hthere).mpr ⟨hopcode, fun between other hbetween =>
        hclean (start + between) other (by omega) (by omega)⟩
    rw [Nat.add_sub_cancel_left] at hpermits
    rw [hgap, HasOperands, hthere, Option.map_some, hoperands]
    exact ⟨rfl, hpermits, rfl⟩
  · rintro ⟨rfl, hpermits, hoperands⟩
    obtain ⟨instruction, hthere, hsame⟩ := Option.map_eq_some_iff.mp hoperands
    obtain ⟨hopcode, hclean⟩ := (gap_eq_iff hthere).mp rfl
    refine ⟨Nat.le_add_right _ _, ⟨instruction, hthere, hopcode, hsame⟩, ?_, ?_⟩
    · intro between other hbetween hlt
      obtain ⟨skipped, rfl⟩ := Nat.exists_eq_add_of_le hbetween
      exact hclean skipped other (by omega)
    · rwa [Nat.add_sub_cancel_left]

theorem fullCost_cons_eq_zero_iff :
    fullCost limit view (expected :: pattern) start = 0 ↔
      ∃ place, Reaches limit view expected start place ∧
        fullCost limit view pattern (place + 1) = 0 := by
  simp only [reaches_iff, and_assoc, exists_eq_left]
  rw [fullCost_cons]
  by_cases hpermits : Permits limit (gap view expected.opcode? start)
  · rw [if_pos hpermits, Nat.add_eq_zero_iff]
    simp [hpermits]
  · rw [if_neg hpermits]
    simp [hpermits]

theorem threads_nil (limit : Option Nat) (view : List SymbolicInstruction) (offset : Nat)
    (place : Nat → Nat) : Threads limit view [] offset place :=
  nofun

theorem threads_cons_iff {place : Nat → Nat} :
    Threads limit view (expected :: pattern) offset place ↔
      Reaches limit view expected offset (place 0) ∧
        Threads limit view pattern (place 0 + 1) fun index => place (index + 1) := by
  -- The later positions are threaded from behind the first place.
  have hshift (index : Nat) : searchStart offset place (index + 1) =
      searchStart (place 0 + 1) (fun index => place (index + 1)) index := by
    cases index <;> rfl
  constructor
  · intro hthreads
    refine ⟨hthreads 0 expected rfl, fun index other hother => ?_⟩
    rw [← hshift]
    exact hthreads (index + 1) other hother
  · rintro ⟨hfirst, hlater⟩ index other hother
    cases index with
    | zero =>
        obtain rfl : expected = other := Option.some.inj hother
        exact hfirst
    | succ index =>
        rw [hshift]
        exact hlater index other hother

theorem fullCost_eq_zero_iff :
    fullCost limit view pattern offset = 0 ↔ ∃ place, Threads limit view pattern offset place := by
  induction pattern generalizing offset with
  | nil => exact iff_of_true rfl ⟨id, threads_nil limit view offset id⟩
  | cons expected pattern ih =>
      simp only [fullCost_cons_eq_zero_iff, ih, threads_cons_iff]
      constructor
      · rintro ⟨first, hfirst, place, hplace⟩
        exact ⟨fun index => Nat.casesOn index first place, hfirst, hplace⟩
      · rintro ⟨place, hfirst, hlater⟩
        exact ⟨place 0, hfirst, _, hlater⟩

/-- An alignment has no mismatch exactly if the pattern can be threaded through the view
from its start on, whether its mismatches are all counted or given up at any tolerance. -/
theorem costWithin_eq_zero_iff_threads (limit : Option Nat) (tolerance : Nat)
    (pattern view : List SymbolicInstruction) (offset : Nat) :
    (fullCost limit view pattern offset = 0 ↔
        ∃ place, Threads limit view pattern offset place) ∧
      (costWithin limit tolerance pattern (view.drop offset) = some 0 ↔
        ∃ place, Threads limit view pattern offset place) := by
  refine ⟨fullCost_eq_zero_iff, ?_⟩
  rw [← fullCost_eq_zero_iff, costWithin_drop, Option.ite_none_right_eq_some, Option.some.injEq]
  constructor
  · exact And.right
  · intro hcost
    exact ⟨hcost.le.trans (Nat.zero_le tolerance), hcost⟩

/-- A gap of two is no mismatch under a limit of two, and one under a limit of one. -/
example :
    let noise := Signature.push 7
    let pattern := [Signature.plain .dup, Signature.plain .bastore]
    let view := [Signature.plain .dup, noise, noise, Signature.plain .bastore]
    fullCost (some 2) view pattern 0 = 0 ∧ fullCost (some 1) view pattern 0 = 1 := by
  decide

/-! ## Altered operands -/

/-- Number of pattern positions whose operands are not those at their place. -/
def alteredOperands (view pattern : List SymbolicInstruction) (offset : Nat) : Nat :=
  (List.range pattern.length).countP fun index =>
    view[offset + index]?.map SymbolicInstruction.operands ≠
      pattern[index]?.map SymbolicInstruction.operands

/-- The opcodes of a pattern stand at its places in the view. -/
def OpcodesAt (view pattern : List SymbolicInstruction) (offset : Nat) : Prop :=
  ∀ index < pattern.length,
    view[offset + index]?.map SymbolicInstruction.opcode? =
      pattern[index]?.map SymbolicInstruction.opcode?

instance (view pattern : List SymbolicInstruction) (offset : Nat) :
    Decidable (OpcodesAt view pattern offset) :=
  inferInstanceAs (Decidable (∀ index < pattern.length, _))

theorem alteredOperands_cons (view : List SymbolicInstruction) (expected : SymbolicInstruction)
    (pattern : List SymbolicInstruction) (offset : Nat) :
    alteredOperands view (expected :: pattern) offset =
      (if HasOperands view offset expected.operands then 0 else 1) +
        alteredOperands view pattern (offset + 1) := by
  rw [alteredOperands, List.length_cons, List.range_succ_eq_map, List.countP_cons,
    List.countP_map, Nat.add_comm]
  congr 1
  · simp only [HasOperands, Nat.add_zero, List.getElem?_cons_zero, Option.map_some,
      decide_eq_true_eq, ne_eq, ite_not]
    rfl
  · rw [alteredOperands]
    congr 1
    funext index
    rw [Function.comp_apply, Nat.succ_eq_add_one, List.getElem?_cons_succ, Nat.add_comm index,
      Nat.add_assoc]

theorem opcodesAt_cons_iff :
    OpcodesAt view (expected :: pattern) offset ↔
      view[offset]?.map SymbolicInstruction.opcode? = some expected.opcode? ∧
        OpcodesAt view pattern (offset + 1) := by
  rw [OpcodesAt, List.length_cons, Nat.forall_lt_succ_left]
  refine and_congr Iff.rfl (forall₂_congr fun index _ => ?_)
  rw [List.getElem?_cons_succ, Nat.add_comm index, Nat.add_assoc]

/-- Where the opcodes stand at their places, nothing is skipped and only operands count. -/
theorem fullCost_eq_alteredOperands (hopcodes : OpcodesAt view pattern offset) :
    fullCost limit view pattern offset = alteredOperands view pattern offset := by
  induction pattern generalizing offset with
  | nil => rfl
  | cons expected pattern ih =>
      obtain ⟨hfirst, hlater⟩ := opcodesAt_cons_iff.mp hopcodes
      rw [fullCost_cons, gap_eq_zero hfirst, if_pos (permits_zero limit), Nat.add_zero,
        ih hlater, alteredOperands_cons]

end Alignment

namespace Matching

open ClassWarden.Alignment

variable {options : MatchOptions} {signature : Signature} {method : String}
variable {stream : List SymbolicInstruction} {offset : Nat}

/-! ## The least tolerated start -/

/-- The starts behind which the view is longer than the pattern and of which all
mismatches together are tolerated. -/
def toleratedStarts (options : MatchOptions) (signature : Signature)
    (stream : List SymbolicInstruction) : Set Nat :=
  let view := signature.scope.view stream
  {start | start + signature.pattern.length < view.length ∧
    fullCost options.maxSkip view signature.pattern start ≤ options.maxDistance}

theorem mem_toleratedStarts_iff :
    offset ∈ toleratedStarts options signature stream ↔
      offset + signature.pattern.length < (signature.scope.view stream).length ∧
        fullCost options.maxSkip (signature.scope.view stream) signature.pattern offset ≤
          options.maxDistance :=
  Iff.rfl

/-- The search for a match where a negative difference has no result, and then the
search has none either. -/
def locateChecked (options : MatchOptions) (signature : Signature)
    (stream : List SymbolicInstruction) : Option (Option (Nat × Nat)) :=
  let pattern := signature.pattern
  if stream.length < pattern.length then some none
  else
    let view := signature.scope.view stream
    if view.length < pattern.length then some none
    else (view.length.psub pattern.length).map fun starts =>
      firstStart options pattern starts 0 view

/-- The number of starts is never taken of a view that is shorter than the pattern. -/
theorem locateChecked_eq (options : MatchOptions) (signature : Signature)
    (stream : List SymbolicInstruction) :
    locateChecked options signature stream = some (locate options signature stream) := by
  rw [locateChecked, locate]
  by_cases hstream : stream.length < signature.pattern.length
  · rw [if_pos hstream, if_pos hstream]
  rw [if_neg hstream, if_neg hstream]
  by_cases hshort : (signature.scope.view stream).length < signature.pattern.length
  · rw [if_pos hshort, if_pos hshort]
  · rw [if_neg hshort, if_neg hshort, Nat.psub_eq_sub (Nat.le_of_not_lt hshort), Option.map_some]

/-- What is located is the least tolerated start, with all of its mismatches. -/
theorem locate_eq_some_iff_isLeast {distance : Nat} :
    locate options signature stream = some (offset, distance) ↔
      IsLeast (toleratedStarts options signature stream) offset ∧
        distance =
          fullCost options.maxSkip (signature.scope.view stream) signature.pattern offset := by
  rw [locate_eq_some_iff]
  simp only [← fullCost_eq_cost]
  constructor
  · rintro ⟨hbound, rfl, htolerated, hearlier⟩
    refine ⟨⟨⟨hbound, htolerated⟩, ?_⟩, rfl⟩
    rintro start ⟨-, hstart⟩
    by_contra hlater
    exact absurd hstart (hearlier start (Nat.lt_of_not_le hlater)).not_ge
  · rintro ⟨⟨⟨hbound, htolerated⟩, hleast⟩, rfl⟩
    refine ⟨hbound, rfl, htolerated, fun earlier hearlier => ?_⟩
    -- Behind an earlier start the view is longer still, so only its mismatches keep it out.
    by_contra hle
    have hmem : earlier ∈ toleratedStarts options signature stream :=
      ⟨by omega, Nat.le_of_not_lt hle⟩
    exact absurd (hleast hmem) hearlier.not_ge

/-- A match starts where all mismatches together are tolerated. -/
theorem offset_mem_toleratedStarts {finding : Finding}
    (hfound : findSignature options method stream signature = some finding) :
    finding.offset ∈ toleratedStarts options signature stream := by
  obtain ⟨-, -, hlocated⟩ := findSignature_eq_some_iff.mp hfound
  exact (locate_eq_some_iff_isLeast.mp hlocated).1.1

/-- A signature is found exactly if some start is tolerated, and then at the least such
start with the number of all its mismatches.  A pattern that is longer than the stream
or the view is not found, and no negative difference is formed in telling so. -/
theorem findSignature_least_tolerated (options : MatchOptions) (method : String)
    (stream : List SymbolicInstruction) (signature : Signature) :
    (∀ finding, findSignature options method stream signature = some finding ↔
      finding.method = method ∧ finding.signature = signature.name ∧
        IsLeast (toleratedStarts options signature stream) finding.offset ∧
        finding.distance = fullCost options.maxSkip (signature.scope.view stream)
          signature.pattern finding.offset) ∧
      ((findSignature options method stream signature).isSome = true ↔
        (toleratedStarts options signature stream).Nonempty) ∧
      (stream.length < signature.pattern.length ∨
          (signature.scope.view stream).length < signature.pattern.length →
        findSignature options method stream signature = none) ∧
      locateChecked options signature stream = some (locate options signature stream) := by
  have hsome : (findSignature options method stream signature).isSome = true ↔
      (toleratedStarts options signature stream).Nonempty := by
    rw [findSignature_isSome_iff]
    simp only [Set.Nonempty, mem_toleratedStarts_iff, fullCost_eq_cost]
  refine ⟨fun finding => ?_, hsome, fun hshort => ?_, locateChecked_eq options signature stream⟩
  · rw [findSignature_eq_some_iff, locate_eq_some_iff_isLeast]
  · have hview := signature.scope.length_view_le stream
    rw [← Option.not_isSome_iff_eq_none, hsome]
    rintro ⟨start, hbound, -⟩
    omega

/-- The Base64 command with an altered call, and then the command itself: the altered one
comes first and is reported.  Five of its calls alone are not looked at. -/
theorem findSignature_least_tolerated_encodedCommand :
    let pattern := Signature.encodedCommand.pattern
    let stream := pattern.set 2 (Signature.reference .invokevirtual ["a/A", "concat", "()V"]) ++
      pattern ++ [Signature.stringOfBytes]
    let view := Signature.encodedCommand.scope.view stream
    IsLeast (toleratedStarts .standard Signature.encodedCommand stream) 0 ∧
      fullCost (some 512) view pattern 0 = 1 ∧ fullCost (some 512) view pattern 7 = 0 ∧
      (pattern.take 5).length < pattern.length ∧
      findSignature .standard "run" (pattern.take 5) Signature.encodedCommand = none := by
  intro pattern stream view
  have hfound : findSignature .standard "run" stream Signature.encodedCommand =
      some ⟨"run", "sig2", 0, 1⟩ := by
    decide +kernel
  have hshort : (pattern.take 5).length < pattern.length := by
    decide +kernel
  obtain ⟨hleast, -⟩ :=
    findSignature_least_tolerated .standard "run" stream Signature.encodedCommand
  obtain ⟨-, -, hoffset, hdistance⟩ := (hleast _).mp hfound
  obtain ⟨-, -, hnone, -⟩ :=
    findSignature_least_tolerated .standard "run" (pattern.take 5) Signature.encodedCommand
  exact ⟨hoffset, hdistance.symm, by decide +kernel, hshort, hnone (.inl hshort)⟩

/-! ## Starts with the right opcodes -/

/-- Where the opcodes of the pattern stand at their places behind a start, its mismatches
are the positions with other operands.  A tolerance of that many is answered by a match
there or at an earlier start; with less tolerance there is no match at this start. -/
theorem findSignature_altered_operands (signature : Signature) (method : String)
    (stream : List SymbolicInstruction) (limit : Option Nat) {offset : Nat}
    (hoffset : offset + signature.pattern.length < (signature.scope.view stream).length)
    (hopcodes : OpcodesAt (signature.scope.view stream) signature.pattern offset) :
    let view := signature.scope.view stream
    let altered := alteredOperands view signature.pattern offset
    fullCost limit view signature.pattern offset = altered ∧
      (∀ tolerance, costWithin limit tolerance signature.pattern (view.drop offset) =
        if altered ≤ tolerance then some altered else none) ∧
      ∀ maxDistance,
        (altered ≤ maxDistance →
          ∃ finding, findSignature ⟨maxDistance, limit⟩ method stream signature = some finding ∧
            finding.offset ≤ offset) ∧
        (maxDistance < altered →
          ∀ finding, findSignature ⟨maxDistance, limit⟩ method stream signature = some finding →
            finding.offset ≠ offset) := by
  intro view altered
  have hcost : fullCost limit view signature.pattern offset = altered :=
    fullCost_eq_alteredOperands hopcodes
  refine ⟨hcost, fun tolerance => ?_, fun maxDistance => ⟨fun htolerated => ?_, ?_⟩⟩
  · rw [costWithin_drop, hcost]
  · rw [← hcost, fullCost_eq_cost] at htolerated
    exact exists_offset_le ⟨maxDistance, limit⟩ method stream hoffset htolerated
  · rintro hexceeded finding hfound rfl
    have htolerated := (offset_mem_toleratedStarts hfound).2
    exact absurd (hcost.symm.trans_le htolerated) hexceeded.not_ge

/-- The Base64 command with an operand of one call changed and one of another left out, behind
a constructor call.  Both alterations count; tolerated, they match in front of the command. -/
theorem findSignature_altered_operands_encodedCommand :
    let signature := Signature.encodedCommand
    let altered :=
      (signature.pattern.set 2
        (Signature.reference .invokevirtual ["a/A", "concat", "()V"])).set 6
        (Signature.reference .invokevirtual ["java/lang/Runtime", "exec"])
    let stream := Signature.stringOfBytes :: altered ++ [Signature.stringOfBytes]
    let view := signature.scope.view stream
    1 + signature.pattern.length < view.length ∧ OpcodesAt view signature.pattern 1 ∧
      fullCost (some 512) view signature.pattern 1 = 2 ∧
      findSignature ⟨2, some 512⟩ "run" stream signature = some ⟨"run", "sig2", 0, 2⟩ ∧
      (∃ finding, findSignature ⟨2, some 512⟩ "run" stream signature = some finding ∧
        finding.offset ≤ 1) ∧
      ∀ finding, findSignature ⟨1, some 512⟩ "run" stream signature = some finding →
        finding.offset ≠ 1 := by
  intro signature altered stream view
  have hoffset : 1 + signature.pattern.length < view.length := by
    decide +kernel
  have hopcodes : OpcodesAt view signature.pattern 1 := by
    decide +kernel
  have hcount : alteredOperands view signature.pattern 1 = 2 := by
    decide +kernel
  obtain ⟨hcost, -, hmatches⟩ :=
    findSignature_altered_operands signature "run" stream (some 512) hoffset hopcodes
  exact ⟨hoffset, hopcodes, hcost.trans hcount, by decide +kernel,
    (hmatches 2).1 hcount.le, (hmatches 1).2 (hcount.symm ▸ Nat.one_lt_two)⟩

end Matching

end ClassWarden
