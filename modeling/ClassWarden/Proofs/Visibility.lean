import ClassWarden.Proofs.Matching
import Mathlib.Logic.Relation

/-!
# What signatures do not see

A signature is compared with its own view of a method.  Streams with the same view
have the same match, offset and distance included, whatever else they hold and
however long they are.

An instruction that is not reduced is in no view, not even in one of all opcodes,
and the position of an instruction is in no stream.  So a method can be padded with
such instructions at any places, and they can be taken out of it, without a change
to what is found in it.
-/

namespace ClassWarden

namespace Instruction

/-- The opcode is not reduced, so the symbolic form of the instruction is unresolved. -/
def Unreduced (instruction : Instruction) : Prop :=
  instruction.opcode.reduction? = none

/-- The second method body is the first one with one more unreduced instruction at some
place, or with one of its instructions at another position. -/
inductive Pads : List Instruction → List Instruction → Prop where
  | insert (front back : List Instruction) {unreduced : Instruction}
      (hunreduced : unreduced.Unreduced) :
      Pads (front ++ back) (front ++ unreduced :: back)
  | move (front back : List Instruction) (instruction : Instruction) (pc : Nat) :
      Pads (front ++ instruction :: back) (front ++ { instruction with pc } :: back)

/-- Method bodies that become each other when unreduced instructions are put in and taken
out, any number of them and at any places. -/
def PaddedAlike : List Instruction → List Instruction → Prop :=
  Relation.EqvGen Pads

end Instruction

namespace Scope

open SymbolicInstruction

variable {left right : List Instruction}

theorem view_view (scope : Scope) (stream : List SymbolicInstruction) :
    scope.view (scope.view stream) = scope.view stream := by
  apply view_eq_self
  intro instruction hmem
  exact (List.mem_filter.mp hmem).2

/-- No scope admits an unreduced instruction. -/
theorem view_ofInstruction_cons {instruction : Instruction} (hunreduced : instruction.Unreduced)
    (scope : Scope) (pool : ConstantPool) (stream : List SymbolicInstruction) :
    scope.view (ofInstruction pool instruction :: stream) = scope.view stream := by
  have hunresolved : ofInstruction pool instruction =
      .unresolved ("No resolver for opcode " ++ instruction.opcode.display) := by
    rw [ofInstruction, hunreduced]
  apply List.filter_cons_of_neg
  intro hadmits
  have hresolved := isResolved_of_admits hadmits
  rw [hunresolved] at hresolved
  cases hresolved

theorem view_stream_of_pads (hpads : Instruction.Pads left right) (scope : Scope)
    (pool : ConstantPool) : scope.view (stream pool left) = scope.view (stream pool right) := by
  cases hpads with
  | insert front back hunreduced =>
      simp only [stream, List.map_append, List.map_cons, view_append,
        view_ofInstruction_cons hunreduced]
  | move front back instruction pc =>
      simp only [stream, List.map_append, List.map_cons]
      rfl

/-- Bodies that are padded alike look the same in every scope. -/
theorem view_stream_of_paddedAlike (halike : Instruction.PaddedAlike left right) (scope : Scope)
    (pool : ConstantPool) : scope.view (stream pool left) = scope.view (stream pool right) := by
  induction halike with
  | rel left right hpads => exact view_stream_of_pads hpads scope pool
  | refl body => rfl
  | symm left right _ ih => exact ih.symm
  | trans left middle right _ _ ihLeft ihRight => exact ihLeft.trans ihRight

end Scope

namespace Matching

variable {options : MatchOptions} {signature : Signature} {left right : List SymbolicInstruction}

/-- What is looked for in a stream is looked for in the view alone: the stream's own length
keeps out no pattern that the length of the view lets in. -/
theorem locate_eq_of_view_eq
    (hview : signature.scope.view left = signature.scope.view right) :
    locate options signature left = locate options signature right := by
  apply Option.ext
  rintro ⟨offset, distance⟩
  rw [locate_eq_some_iff, locate_eq_some_iff, hview]

theorem findSignature_eq_of_view_eq
    (hview : signature.scope.view left = signature.scope.view right) (method : String) :
    findSignature options method left signature =
      findSignature options method right signature := by
  rw [findSignature, findSignature, locate_eq_of_view_eq hview]

/-- Unreduced instructions, put in or taken out anywhere in a method, change none of its
matches.  For a single signature all that its scope leaves out can be taken out of the
stream, with the same match at the same offset and distance. -/
theorem scanMethod_paddedAlike (options : MatchOptions) (method : String) :
    (∀ pool signatures left right, Instruction.PaddedAlike left right →
      scanMethod options signatures method (SymbolicInstruction.stream pool left) =
        scanMethod options signatures method (SymbolicInstruction.stream pool right)) ∧
      ∀ signature stream,
        findSignature options method (signature.scope.view stream) signature =
          findSignature options method stream signature := by
  constructor
  · intro pool signatures left right halike
    apply List.filterMap_congr
    intro signature hsignature
    apply findSignature_eq_of_view_eq
    exact Scope.view_stream_of_paddedAlike halike signature.scope pool
  · intro signature stream
    apply findSignature_eq_of_view_eq
    exact signature.scope.view_view stream

/-- A byte pushed between duplication and store, once with a `nop` in front of the store, by
which all that follows has moved. -/
theorem scanMethod_paddedAlike_store :
    let dup (pc : Nat) : Instruction := ⟨pc, .dup, []⟩
    let push (pc : Nat) : Instruction := ⟨pc, .bipush, [7]⟩
    let store (pc : Nat) : Instruction := ⟨pc, .bastore, []⟩
    let nop (pc : Nat) : Instruction := ⟨pc, ⟨0⟩, []⟩
    let signature : Signature :=
      .wide "store" "" [Signature.plain .dup, Signature.push 7, Signature.plain .bastore]
    let plain := [dup 0, push 1, store 3, dup 4]
    let padded := [dup 0, push 1, nop 3, store 4, dup 5]
    let pool := ConstantPool.ofConstants []
    Bytecode.decode [0x59, 0x10, 7, 0x54, 0x59] = .ok plain ∧
      Bytecode.decode [0x59, 0x10, 7, 0, 0x54, 0x59] = .ok padded ∧
      Instruction.PaddedAlike plain padded ∧
      scanMethod .standard [signature] "run" (SymbolicInstruction.stream pool plain) =
        [⟨"run", "store", 0, 0⟩] ∧
      scanMethod .standard [signature] "run" (SymbolicInstruction.stream pool padded) =
        [⟨"run", "store", 0, 0⟩] := by
  intro dup push store nop signature plain padded pool
  have hinsert : Instruction.Pads plain [dup 0, push 1, nop 3, store 3, dup 4] :=
    .insert [dup 0, push 1] [store 3, dup 4] rfl
  have hstore : Instruction.Pads [dup 0, push 1, nop 3, store 3, dup 4]
      [dup 0, push 1, nop 3, store 4, dup 4] :=
    .move [dup 0, push 1, nop 3] [dup 4] (store 3) 4
  have hdup : Instruction.Pads [dup 0, push 1, nop 3, store 4, dup 4] padded :=
    .move [dup 0, push 1, nop 3, store 4] [] (dup 4) 5
  have halike : Instruction.PaddedAlike plain padded :=
    .trans _ _ _ (.rel _ _ hinsert) (.trans _ _ _ (.rel _ _ hstore) (.rel _ _ hdup))
  have hfound : scanMethod .standard [signature] "run" (SymbolicInstruction.stream pool plain) =
      [⟨"run", "store", 0, 0⟩] := by
    decide +kernel
  refine ⟨by decide +kernel, by decide +kernel, halike, hfound, ?_⟩
  rw [← (scanMethod_paddedAlike .standard "run").1 pool [signature] plain padded halike]
  exact hfound

end Matching

end ClassWarden
