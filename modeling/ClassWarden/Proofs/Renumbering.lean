import ClassWarden.Proofs.Detection
import ClassWarden.Proofs.PoolReference
import ClassWarden.Proofs.ReferenceTree
import ClassWarden.Proofs.Visibility

/-!
# The layout of a pool does not matter

The entries of a pool can be moved about, shared and doubled, as long as every index to
them is changed alike, in the pool and in the code.  An index that leads to texts only
still leads to the same texts.  So a method whose references are renumbered has the same
symbolic form, and the same is found in it.

Placeholders are the exception: they tell an index, so a reference that meets an empty
slot or the limit is not covered.
-/

namespace ClassWarden

namespace Constant

variable {index bootstrap : UInt16 → UInt16}

/-- The entry with its pool indices renumbered, and with its numbers of bootstrap methods,
which count in another table, renumbered on their own. -/
def renumber (index bootstrap : UInt16 → UInt16) : Constant → Constant
  | .classRef name => .classRef (index name)
  | .stringRef text => .stringRef (index text)
  | .fieldRef owner typed => .fieldRef (index owner) (index typed)
  | .methodRef owner typed => .methodRef (index owner) (index typed)
  | .interfaceMethodRef owner typed => .interfaceMethodRef (index owner) (index typed)
  | .nameAndType name descriptor => .nameAndType (index name) (index descriptor)
  | .methodHandle kind reference => .methodHandle kind (index reference)
  | .methodType descriptor => .methodType (index descriptor)
  | .dynamic method typed => .dynamic (bootstrap method) (index typed)
  | .invokeDynamic method typed => .invokeDynamic (bootstrap method) (index typed)
  | .moduleRef name => .moduleRef (index name)
  | .packageRef name => .packageRef (index name)
  | literal => literal

theorem references_renumber (constant : Constant) :
    (constant.renumber index bootstrap).references = constant.references.map index := by
  cases constant <;> rfl

theorem ownText_renumber (constant : Constant) :
    (constant.renumber index bootstrap).ownText = constant.ownText := by
  cases constant <;> rfl

end Constant

namespace ConstantPool

variable {left right : ConstantPool} {renumber bootstrap : UInt16 → UInt16}
variable {index target : UInt16}

/-- The right pool holds every entry of the left one, renumbered, at its renumbered index. -/
def Renumbers (renumber bootstrap : UInt16 → UInt16) (left right : ConstantPool) : Prop :=
  ∀ index constant, left.get? index = some constant →
    right.get? (renumber index) = some (constant.renumber renumber bootstrap)

/-- Resolution of an index meets neither an empty slot nor the limit. -/
def Intact (pool : ConstantPool) (index : UInt16) : Prop :=
  ∀ places target, pool.target? index places = some target →
    places.length ≤ maxReferences ∧ (pool.get? target).isSome

instance (pool : ConstantPool) (index : UInt16) : Decidable (pool.Intact index) :=
  decidable_of_iff _
    (pool.forall_places_iff maxReferences index fun target => (pool.get? target).isSome).symm

/-- Whether a pool renumbers another can be told slot by slot. -/
theorem renumbers_of_slots
    (hslots : ∀ slot ∈ left.slots.toList.zipIdx, ∀ constant ∈ slot.1,
      right.get? (renumber (UInt16.ofNat slot.2)) =
        some (constant.renumber renumber bootstrap)) :
    Renumbers renumber bootstrap left right := by
  intro index constant hentry
  rw [get?, Option.join_eq_some_iff, ← Array.getElem?_toList] at hentry
  have hslot := hslots (some constant, index.toNat) (List.mk_mem_zipIdx_iff_getElem?.mpr hentry)
    constant rfl
  rwa [UInt16.ofNat_toNat] at hslot

theorem Renumbers.references_eq (hpools : Renumbers renumber bootstrap left right)
    (hentry : (left.get? index).isSome) :
    right.references (renumber index) = (left.references index).map renumber := by
  obtain ⟨constant, hconstant⟩ := Option.isSome_iff_exists.mp hentry
  rw [references, references, hconstant, hpools index constant hconstant]
  exact constant.references_renumber

theorem Renumbers.leafText_eq (hpools : Renumbers renumber bootstrap left right)
    (hentry : (left.get? index).isSome) :
    right.leafText (renumber index) = left.leafText index := by
  obtain ⟨constant, hconstant⟩ := Option.isSome_iff_exists.mp hentry
  rw [leafText, leafText, hconstant, hpools index constant hconstant]
  exact constant.ownText_renumber

/-- Both walks go through the same tree: what one meets at a place, the other meets
renumbered. -/
theorem Renumbers.resolveWithin_eq (hpools : Renumbers renumber bootstrap left right)
    {lookups : Nat}
    (hintact : ∀ places target, left.target? index places = some target →
      places.length < lookups ∧ (left.get? target).isSome) :
    right.resolveWithin lookups (renumber index) = left.resolveWithin lookups index := by
  induction lookups generalizing index with
  | zero => exact absurd (hintact [] index rfl).1 (Nat.not_lt_zero 0)
  | succ lookups ih =>
      have hentry : (left.get? index).isSome := (hintact [] index rfl).2
      have hreferences := hpools.references_eq hentry
      by_cases hleaf : left.references index = []
      · have hrightLeaf : right.references (renumber index) = [] := by
          rw [hreferences, hleaf, List.map_nil]
        rw [resolveWithin_of_leaf hleaf, resolveWithin_of_leaf hrightLeaf,
          hpools.leafText_eq hentry]
      · have hrightNode : right.references (renumber index) ≠ [] := by
          rw [hreferences]
          exact mt List.map_eq_nil_iff.mp hleaf
        rw [resolveWithin_of_node hleaf, resolveWithin_of_node hrightNode, hreferences,
          List.flatMap_map]
        apply List.flatMap_congr
        intro next hnext
        obtain ⟨place, hplace⟩ := List.getElem?_of_mem hnext
        apply ih
        intro places target htarget
        have hbelow := hintact (place :: places) target
          (target?_cons_eq_some_iff.mpr ⟨next, hplace, htarget⟩)
        exact ⟨Nat.lt_of_succ_lt_succ hbelow.1, hbelow.2⟩

theorem Renumbers.resolve_eq (hpools : Renumbers renumber bootstrap left right)
    (hintact : left.Intact index) : right.resolve (renumber index) = left.resolve index := by
  apply hpools.resolveWithin_eq
  intro places target htarget
  have htold := hintact places target htarget
  exact ⟨Nat.lt_succ_of_le htold.1, htold.2⟩

theorem Renumbers.text?_eq (hpools : Renumbers renumber bootstrap left right)
    (hentry : (left.get? index).isSome) :
    right.text? (renumber index) = left.text? index := by
  obtain ⟨constant, hconstant⟩ := Option.isSome_iff_exists.mp hentry
  rw [text?, text?, hconstant, hpools index constant hconstant]
  cases constant <;> rfl

end ConstantPool

namespace Instruction

/-- An instruction with its pool reference renumbered.  A reference that is compared has to
be intact; the operands of an instruction that is not reduced are not looked at. -/
inductive Renumbered (pool : ConstantPool) (renumber : UInt16 → UInt16) :
    Instruction → Instruction → Prop where
  | kept (instruction : Instruction) (hnone : instruction.poolIndex? = none) :
      Renumbered pool renumber instruction instruction
  | referring (instruction : Instruction) {index : UInt16}
      (hindex : instruction.poolIndex? = some index) (hintact : pool.Intact index) :
      Renumbered pool renumber instruction
        { instruction with
          operands := BigEndian.ofUInt16 (renumber index) ++ instruction.operands.drop 2 }
  | unreduced (instruction : Instruction) (operands : List UInt8)
      (hunreduced : instruction.Unreduced) :
      Renumbered pool renumber instruction { instruction with operands }

variable {left right : ConstantPool}

theorem Renumbered.ofInstruction_eq {renumber bootstrap : UInt16 → UInt16}
    {old new : Instruction} (hnew : Renumbered left renumber old new)
    (hpools : ConstantPool.Renumbers renumber bootstrap left right) :
    SymbolicInstruction.ofInstruction right new =
      SymbolicInstruction.ofInstruction left old := by
  cases hnew with
  | kept hnone =>
      obtain ⟨symbolic, -, hsymbolic⟩ := exists_ofInstruction_eq hnone
      rw [hsymbolic, hsymbolic]
  | referring hindex hintact =>
      rw [ofInstruction_of_poolIndex?_eq_some hindex,
        ofInstruction_of_poolIndex?_eq_some (poolIndex?_rewritten hindex _),
        hpools.resolve_eq hintact]
  | unreduced operands hunreduced =>
      rw [Unreduced] at hunreduced
      rw [SymbolicInstruction.ofInstruction, SymbolicInstruction.ofInstruction, hunreduced]

end Instruction

section Method

variable {left right : ConstantPool} {renumber bootstrap : UInt16 → UInt16}

theorem SymbolicInstruction.stream_renumbered {old new : List Instruction}
    (hnew : List.Forall₂ (Instruction.Renumbered left renumber) old new)
    (hpools : ConstantPool.Renumbers renumber bootstrap left right) :
    stream right new = stream left old := by
  induction hnew with
  | nil => rfl
  | cons hhead _ ih => exact congrArg₂ List.cons (hhead.ofInstruction_eq hpools) ih

namespace Method

/-- A method with the references of its name and its code renumbered. -/
structure Renumbered (pool : ConstantPool) (renumber : UInt16 → UInt16) (old new : Method) :
    Prop where
  name : new.name = renumber old.name
  intact : pool.Intact old.name
  code : Option.Rel (fun oldCode newCode => ∃ before after,
    Bytecode.decode oldCode = .ok before ∧ Bytecode.decode newCode = .ok after ∧
      List.Forall₂ (Instruction.Renumbered pool renumber) before after) old.code new.code

variable {old new : Method}

theorem Renumbered.displayName_eq (hnew : Renumbered left renumber old new)
    (hpools : ConstantPool.Renumbers renumber bootstrap left right) :
    new.displayName right = old.displayName left := by
  have hentry : (left.get? old.name).isSome := (hnew.intact [] old.name rfl).2
  rw [displayName, displayName, hnew.name, hpools.text?_eq hentry, hpools.resolve_eq hnew.intact]

theorem Renumbered.stream?_eq (hnew : Renumbered left renumber old new)
    (hpools : ConstantPool.Renumbers renumber bootstrap left right) :
    new.stream? right = old.stream? left := by
  have hcode := hnew.code
  rw [stream?, stream?]
  generalize old.code = oldCode, new.code = newCode at hcode
  cases hcode with
  | none => rfl
  | some hbodies =>
      obtain ⟨before, after, hbefore, hafter, hnew⟩ := hbodies
      rw [Option.bind_some, Option.bind_some, hbefore, hafter]
      exact congrArg some (SymbolicInstruction.stream_renumbered hnew hpools)

end Method

end Method

namespace ConstantPool

/-- A renumbered index that is intact leads to the same texts.  So method bodies in which
only such references are renumbered have the same symbolic form and the same matches, and
methods whose names are renumbered with them have the same findings. -/
theorem findings_of_renumbered {left right : ConstantPool} {renumber bootstrap : UInt16 → UInt16}
    (hpools : Renumbers renumber bootstrap left right) :
    (∀ index, left.Intact index → right.resolve (renumber index) = left.resolve index) ∧
      (∀ old new, List.Forall₂ (Instruction.Renumbered left renumber) old new →
        SymbolicInstruction.stream right new = SymbolicInstruction.stream left old ∧
          ∀ options signatures method,
            Matching.scanMethod options signatures method (SymbolicInstruction.stream right new) =
              Matching.scanMethod options signatures method
                (SymbolicInstruction.stream left old)) ∧
      ∀ old new, Method.Renumbered left renumber old new →
        ∀ detector : Detector,
          detector.methodFindings right new = detector.methodFindings left old := by
  refine ⟨fun index => hpools.resolve_eq, ?_, ?_⟩
  · intro old new hnew
    have hstream := SymbolicInstruction.stream_renumbered hnew hpools
    refine ⟨hstream, ?_⟩
    intro options signatures method
    rw [hstream]
  · intro old new hnew detector
    rw [Detector.methodFindings, Detector.methodFindings, hnew.stream?_eq hpools,
      hnew.displayName_eq hpools]

/-- A pool in reverse order.  The field that the middle instruction refers to is in neither
pool, which does not matter. -/
theorem findings_of_renumbered_reversed :
    let utf8 (text : String) := Constant.utf8 text.toUTF8.toList
    let left := ofConstants [utf8 "a/A", .classRef 1, utf8 "run", utf8 "()V", .nameAndType 3 4,
      .methodRef 2 5]
    let right := ofConstants [.methodRef 5 2, .nameAndType 4 3, utf8 "()V", utf8 "run",
      .classRef 6, utf8 "a/A"]
    let renumber (index : UInt16) : UInt16 := 7 - index
    let old : Method := ⟨0, 3, 4, some [0xb8, 0, 6, 0xb2, 0, 50, 0x59]⟩
    let new : Method := ⟨0, 4, 3, some [0xb8, 0, 1, 0xb2, 0, 60, 0x59]⟩
    let signature : Signature := .wide "call" ""
      [.resolved .invokestatic [.text "a/A", .text "run", .text "()V"]]
    let detector : Detector := ⟨[signature], .standard⟩
    Renumbers renumber id left right ∧ Method.Renumbered left renumber old new ∧
      detector.methodFindings left old = [⟨"run", "call", 0, 0⟩] ∧
      detector.methodFindings right new = [⟨"run", "call", 0, 0⟩] := by
  intro utf8 left right renumber old new signature detector
  have hpools : Renumbers renumber id left right :=
    renumbers_of_slots (by decide +kernel)
  have hbodies : List.Forall₂ (Instruction.Renumbered left renumber)
      [⟨0, .invokestatic, [0, 6]⟩, ⟨3, ⟨0xb2⟩, [0, 50]⟩, ⟨6, .dup, []⟩] _ :=
    .cons (.referring _ rfl (by decide +kernel)) (.cons (.unreduced _ [0, 60] rfl)
      (.cons (.kept _ rfl) .nil))
  have hnew : Method.Renumbered left renumber old new :=
    { name := by decide
      intact := by decide +kernel
      code := .some ⟨_, _, by decide +kernel, by decide +kernel, hbodies⟩ }
  have hfound : detector.methodFindings left old = [⟨"run", "call", 0, 0⟩] := by
    decide +kernel
  refine ⟨hpools, hnew, hfound, ?_⟩
  rw [(findings_of_renumbered hpools).2.2 old new hnew detector]
  exact hfound

end ConstantPool

end ClassWarden
