import ClassWarden.Matching
import ClassWarden.Proofs.Alignment
import ClassWarden.Signature.Catalog
import Mathlib.Data.List.NodupEquivFin

/-!
# What a match means

A signature is reported at the first start of its view whose cost is tolerated,
with that cost, and at no start otherwise.  A report is therefore backed by the
code: all but the tolerated number of pattern instructions stand in the view,
equal and in order, behind the reported offset.
-/

namespace ClassWarden

namespace Scope

variable {scope : Scope} {stream : List SymbolicInstruction}
variable {left right instruction : SymbolicInstruction}

theorem isResolved_of_admits (hadmits : scope.admits instruction = true) :
    instruction.isResolved = true := by
  cases instruction with
  | resolved opcode operands => rfl
  | unresolved reason => cases scope <;> simp [admits, SymbolicInstruction.opcode?] at hadmits

/-- Visibility goes by the opcode. -/
theorem admits_congr (hopcode : left.opcode? = right.opcode?) :
    scope.admits left = scope.admits right := by
  simp only [admits, hopcode]

theorem isResolved_of_mem_view (hmem : instruction ∈ scope.view stream) :
    instruction.isResolved = true :=
  isResolved_of_admits (List.mem_filter.mp hmem).2

theorem view_eq_self (hadmits : ∀ instruction ∈ stream, scope.admits instruction = true) :
    scope.view stream = stream :=
  List.filter_eq_self.mpr hadmits

theorem view_append (scope : Scope) (front back : List SymbolicInstruction) :
    scope.view (front ++ back) = scope.view front ++ scope.view back :=
  List.filter_append ..

theorem length_view_le (scope : Scope) (stream : List SymbolicInstruction) :
    (scope.view stream).length ≤ stream.length :=
  List.length_filter_le _ _

end Scope

namespace Matching

open ClassWarden.Alignment

variable {options : MatchOptions} {signature : Signature} {method : String}
variable {pattern code stream : List SymbolicInstruction}

/-! ## The first tolerated start -/

theorem firstStart_eq_some_iff {starts offset start distance : Nat} :
    firstStart options pattern starts offset code = some (start, distance) ↔
      ∃ index < starts, start = offset + index ∧
        costWithin options.maxSkip options.maxDistance pattern (code.drop index) =
          some distance ∧
        ∀ earlier < index,
          costWithin options.maxSkip options.maxDistance pattern (code.drop earlier) =
            none := by
  induction starts generalizing offset code with
  | zero => simp [firstStart]
  | succ starts ih =>
      rw [firstStart]
      cases hcost : costWithin options.maxSkip options.maxDistance pattern code with
      | some cost =>
          constructor
          · rintro ⟨⟩
            exact ⟨0, Nat.succ_pos _, rfl, hcost, fun _ hearlier => absurd hearlier (by omega)⟩
          · rintro ⟨index, -, rfl, hdistance, hearlier⟩
            cases index with
            | zero =>
                rw [List.drop_zero, hcost] at hdistance
                obtain ⟨⟩ := hdistance
                rfl
            | succ index =>
                have hfirst := hearlier 0 (Nat.succ_pos _)
                rw [List.drop_zero, hcost] at hfirst
                obtain ⟨⟩ := hfirst
      | none =>
          simp only [ih, List.drop_tail]
          constructor
          · rintro ⟨index, hindex, rfl, hdistance, hearlier⟩
            refine ⟨index + 1, by omega, by omega, hdistance, fun earlier hlt => ?_⟩
            cases earlier with
            | zero => exact hcost
            | succ earlier => exact hearlier earlier (by omega)
          · rintro ⟨index, hindex, rfl, hdistance, hearlier⟩
            cases index with
            | zero =>
                rw [List.drop_zero, hcost] at hdistance
                obtain ⟨⟩ := hdistance
            | succ index =>
                exact ⟨index, by omega, by omega, hdistance,
                  fun earlier hlt => hearlier (earlier + 1) (by omega)⟩

/-- A match is the least start with a tolerated cost, among those behind which
the view is longer than the pattern. -/
theorem locate_eq_some_iff {offset distance : Nat} :
    locate options signature stream = some (offset, distance) ↔
      offset + signature.pattern.length < (signature.scope.view stream).length ∧
        cost options.maxSkip signature.pattern ((signature.scope.view stream).drop offset) =
          distance ∧
        distance ≤ options.maxDistance ∧
        ∀ earlier < offset, options.maxDistance <
          cost options.maxSkip signature.pattern
            ((signature.scope.view stream).drop earlier) := by
  have hview := signature.scope.length_view_le stream
  rw [locate]
  by_cases hstream : stream.length < signature.pattern.length
  · rw [if_pos hstream]
    exact ⟨nofun, fun hlocated => by omega⟩
  rw [if_neg hstream]
  by_cases hshort : (signature.scope.view stream).length < signature.pattern.length
  · rw [if_pos hshort]
    exact ⟨nofun, fun hlocated => by omega⟩
  rw [if_neg hshort, firstStart_eq_some_iff]
  simp only [costWithin_eq, Nat.zero_add, Option.ite_none_right_eq_some, Option.some.injEq,
    ite_eq_right_iff, reduceCtorEq, imp_false, Nat.not_le]
  constructor
  · rintro ⟨index, hindex, rfl, ⟨htolerated, rfl⟩, hearlier⟩
    exact ⟨by omega, rfl, htolerated, hearlier⟩
  · rintro ⟨hindex, rfl, htolerated, hearlier⟩
    exact ⟨offset, by omega, rfl, ⟨htolerated, rfl⟩, hearlier⟩

/-- A signature is located as soon as one start has a tolerated cost. -/
theorem exists_locate_iff :
    (∃ located, locate options signature stream = some located) ↔
      ∃ start, start + signature.pattern.length < (signature.scope.view stream).length ∧
        cost options.maxSkip signature.pattern ((signature.scope.view stream).drop start) ≤
          options.maxDistance := by
  constructor
  · rintro ⟨⟨offset, distance⟩, hlocated⟩
    obtain ⟨hbound, rfl, htolerated, -⟩ := locate_eq_some_iff.mp hlocated
    exact ⟨offset, hbound, htolerated⟩
  · intro hexists
    classical
    obtain ⟨hbound, htolerated⟩ := Nat.find_spec hexists
    refine ⟨(Nat.find hexists, _),
      locate_eq_some_iff.mpr ⟨hbound, rfl, htolerated, fun earlier hlt => ?_⟩⟩
    have hearlier := Nat.find_min hexists hlt
    by_contra hle
    exact hearlier ⟨by omega, by omega⟩

theorem findSignature_eq_some_iff {finding : Finding} :
    findSignature options method stream signature = some finding ↔
      finding.method = method ∧ finding.signature = signature.name ∧
        locate options signature stream = some (finding.offset, finding.distance) := by
  rw [findSignature, Option.map_eq_some_iff]
  constructor
  · rintro ⟨⟨offset, distance⟩, hlocated, rfl⟩
    exact ⟨rfl, rfl, hlocated⟩
  · rintro ⟨rfl, hname, hlocated⟩
    exact ⟨_, hlocated, by cases finding; simp_all⟩

theorem findSignature_isSome_iff :
    (findSignature options method stream signature).isSome = true ↔
      ∃ start, start + signature.pattern.length < (signature.scope.view stream).length ∧
        cost options.maxSkip signature.pattern ((signature.scope.view stream).drop start) ≤
          options.maxDistance := by
  rw [← exists_locate_iff, findSignature, Option.isSome_map, Option.isSome_iff_exists]

/-! ## The code behind a match -/

/-- Positions of a pattern and places of a view, paired in order, that hold the
same instructions.  No place lies in front of the offset. -/
structure Pairing (pattern view : List SymbolicInstruction) (offset count : Nat) where
  position : Fin count → Fin pattern.length
  place : Fin count → Fin view.length
  position_strictMono : StrictMono position
  place_strictMono : StrictMono place
  offset_le_place : ∀ index, offset ≤ (place index).val
  same : ∀ index, view[place index] = pattern[position index]

theorem nonempty_pairing_of_sublist {common view : List SymbolicInstruction} {offset : Nat}
    (hpattern : common.Sublist pattern) (hview : common.Sublist (view.drop offset)) :
    Nonempty (Pairing pattern view offset common.length) := by
  obtain ⟨position, hposition⟩ :=
    List.sublist_iff_exists_fin_orderEmbedding_get_eq.mp hpattern
  obtain ⟨place, hplace⟩ := List.sublist_iff_exists_fin_orderEmbedding_get_eq.mp hview
  have hbound : ∀ index, offset + (place index).val < view.length := by
    intro index
    have hlength : (view.drop offset).length = view.length - offset := List.length_drop
    have hplaced := (place index).isLt
    omega
  refine ⟨position, fun index => ⟨offset + (place index).val, hbound index⟩,
    position.strictMono, fun left right hlt => ?_, fun index => Nat.le_add_right _ _,
    fun index => ?_⟩
  · have hplaces : (place left).val < (place right).val := place.strictMono hlt
    exact Nat.add_lt_add_left hplaces offset
  · have hsame := (hplace index).symm.trans (hposition index)
    simpa using hsame

/-- A match tolerates its mismatches, starts where the view is longer than the
pattern, and pairs every other pattern position with an equal instruction of
the view.  A view that shares too short a subsequence with the pattern has no
match. -/
theorem findSignature_sound (options : MatchOptions) (method : String)
    (stream : List SymbolicInstruction) (signature : Signature) :
    (∀ finding, findSignature options method stream signature = some finding →
      finding.distance ≤ options.maxDistance ∧
        finding.distance ≤ signature.pattern.length ∧
        finding.offset + signature.pattern.length <
          (signature.scope.view stream).length ∧
        Nonempty (Pairing signature.pattern (signature.scope.view stream) finding.offset
          (signature.pattern.length - finding.distance))) ∧
      ((∀ common : List SymbolicInstruction, common.Sublist signature.pattern →
          common.Sublist (signature.scope.view stream) →
          common.length + options.maxDistance < signature.pattern.length) →
        findSignature options method stream signature = none) := by
  have hbacked : ∀ finding, findSignature options method stream signature = some finding →
      finding.distance ≤ options.maxDistance ∧
        finding.offset + signature.pattern.length <
          (signature.scope.view stream).length ∧
        ∃ common : List SymbolicInstruction, common.Sublist signature.pattern ∧
          common.Sublist ((signature.scope.view stream).drop finding.offset) ∧
          common.length + finding.distance = signature.pattern.length := by
    intro finding hfound
    obtain ⟨-, -, hlocated⟩ := findSignature_eq_some_iff.mp hfound
    obtain ⟨hbound, hcost, htolerated, -⟩ := locate_eq_some_iff.mp hlocated
    rw [← hcost]
    exact ⟨hcost ▸ htolerated, hbound, exists_common_sublist _ _ fun instruction hmem =>
      Scope.isResolved_of_mem_view (List.mem_of_mem_drop hmem)⟩
  constructor
  · intro finding hfound
    obtain ⟨htolerated, hbound, common, hpattern, hview, hlength⟩ := hbacked finding hfound
    have hcount : signature.pattern.length - finding.distance = common.length := by omega
    rw [hcount]
    exact ⟨htolerated, by omega, hbound, nonempty_pairing_of_sublist hpattern hview⟩
  · intro hshort
    cases hfound : findSignature options method stream signature with
    | none => rfl
    | some finding =>
        obtain ⟨htolerated, -, common, hpattern, hview, hlength⟩ := hbacked finding hfound
        have := hshort common hpattern (hview.trans (List.drop_sublist _ _))
        omega

/-- The Base64 command with another last call: six of its seven calls are
paired. -/
theorem findSignature_sound_encodedCommand :
    let stream := .unresolved "aload_0" :: Signature.encodedCommand.pattern.set 6
      (.resolved .invokevirtual [.text "a/A", .text "exec", .text "()V"]) ++
        [Signature.stringOfBytes]
    findSignature .standard "run" stream Signature.encodedCommand =
        some ⟨"run", "sig2", 0, 1⟩ ∧
      Nonempty (Pairing Signature.encodedCommand.pattern
        (Signature.encodedCommand.scope.view stream) 0 6) := by
  intro stream
  have hfound : findSignature .standard "run" stream Signature.encodedCommand =
      some ⟨"run", "sig2", 0, 1⟩ := by
    decide +kernel
  exact ⟨hfound, ((findSignature_sound .standard "run" stream
    Signature.encodedCommand).1 _ hfound).2.2.2⟩

end Matching

end ClassWarden
