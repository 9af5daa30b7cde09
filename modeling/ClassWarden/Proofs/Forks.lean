import ClassWarden.Proofs.PoolReference
import ClassWarden.Proofs.ReferenceTree
import Mathlib.Algebra.Order.BigOperators.Group.List
import Mathlib.Data.Set.Card

/-!
# How many texts an index stands for

An entry has at most two references, so a reference tree gains a leaf wherever it forks and
nowhere else.  A pool that nobody checked can fork at every level down to the limit, and
then an index stands for one text on each of `2 ^ 9` ways.

It stays with one text for a class, two for a name with its type and three for a method as
long as no entry refers to more than its own share: references of the kinds that the
format wants, and those that lead nowhere, keep to it.
-/

namespace ClassWarden

namespace Constant

/-- Number of texts in the tuple that an entry of this kind is to give. -/
def share : Constant → Nat
  | .nameAndType _ _ => 2
  | .methodRef _ _ | .interfaceMethodRef _ _ => 3
  | _ => 1

theorem share_mem (constant : Constant) : 1 ≤ constant.share ∧ constant.share ≤ 3 := by
  cases constant <;> simp [share]

end Constant

namespace ConstantPool

variable {pool : ConstantPool} {index : UInt16}

/-- The share of an index; what cannot be followed is one placeholder. -/
def share (pool : ConstantPool) (index : UInt16) : Nat :=
  (pool.get? index).elim 1 Constant.share

/-- No entry refers to more than its share. -/
def KeepsShares (pool : ConstantPool) : Prop :=
  ∀ slot ∈ pool.slots.toList, ∀ constant ∈ slot,
    (constant.references.map pool.share).sum ≤ constant.share

instance : DecidablePred KeepsShares := fun pool =>
  inferInstanceAs (Decidable (∀ slot ∈ pool.slots.toList, ∀ constant ∈ slot,
    (constant.references.map pool.share).sum ≤ constant.share))

/-- The places, not below the limit, at which the reference tree forks. -/
def forks (pool : ConstantPool) (index : UInt16) : Set (List Nat) :=
  {places | places.length ≤ maxReferences ∧
    ∃ target, pool.target? index places = some target ∧ 1 < (pool.references target).length}

def isFork (pool : ConstantPool) (depth : Nat) (node : List Nat × UInt16) : Bool :=
  node.1.length < depth && 1 < (pool.references node.2).length

theorem references_cases (pool : ConstantPool) (index : UInt16) :
    pool.references index = [] ∨ (∃ next, pool.references index = [next]) ∨
      ∃ left right, pool.references index = [left, right] := by
  rw [references]
  cases pool.get? index with
  | none => exact .inl rfl
  | some constant => cases constant <;> simp [Constant.references]

theorem isFork_comp_descend (pool : ConstantPool) (depth place : Nat) :
    pool.isFork (depth + 1) ∘ descend place = pool.isFork depth := by
  funext node
  have hlength : decide (node.1.length + 1 < depth + 1) = decide (node.1.length < depth) :=
    decide_eq_decide.mpr Nat.add_lt_add_iff_right
  exact congrArg (· && decide (1 < (pool.references node.2).length)) hlength

/-- A leaf more than forks. -/
theorem length_resolveWithin (pool : ConstantPool) (depth : Nat) (index : UInt16) :
    (pool.resolveWithin depth index).length =
      (pool.nodesWithin depth index).countP (pool.isFork depth) + 1 := by
  induction depth generalizing index with
  | zero => rfl
  | succ depth ih =>
      rcases pool.references_cases index with hleaf | ⟨next, hnext⟩ | ⟨left, right, hfork⟩
      · rw [resolveWithin_of_leaf hleaf]
        simp [nodesWithin, isFork, hleaf]
      · have hroot : pool.isFork (depth + 1) ([], index) = false := by
          simp [isFork, hnext]
        rw [resolveWithin_of_node (by simp [hnext]), nodesWithin, List.countP_cons, hroot, hnext]
        simp [ih, isFork_comp_descend]
      · have hroot : pool.isFork (depth + 1) ([], index) = true := by
          simp [isFork, hfork]
        rw [resolveWithin_of_node (by simp [hfork]), nodesWithin, List.countP_cons, hroot, hfork]
        simp [ih, isFork_comp_descend]
        omega

theorem ncard_forks (pool : ConstantPool) (index : UInt16) :
    (pool.forks index).ncard =
      (pool.nodesWithin (maxReferences + 1) index).countP (pool.isFork (maxReferences + 1)) := by
  let nodes := (pool.nodesWithin (maxReferences + 1) index).filter
    (pool.isFork (maxReferences + 1))
  have hforks : pool.forks index = (nodes.map Prod.fst).toFinset := by
    ext places
    have hmem : ∀ target, (places, target) ∈ nodes ↔ places.length ≤ maxReferences ∧
        pool.target? index places = some target ∧ 1 < (pool.references target).length := by
      intro target
      simp only [nodes, List.mem_filter, mem_nodesWithin_iff, isFork, Bool.and_eq_true,
        decide_eq_true_iff, Nat.lt_succ_iff]
      constructor
      · rintro ⟨⟨-, htarget⟩, hlength, hfork⟩
        exact ⟨hlength, htarget, hfork⟩
      · rintro ⟨hlength, htarget, hfork⟩
        exact ⟨⟨Nat.le_succ_of_le hlength, htarget⟩, hlength, hfork⟩
    simp [forks, hmem]
  have hnodup : (nodes.map Prod.fst).Nodup := by
    have hsorted : nodes.Pairwise fun left right => left.1 < right.1 :=
      (pairwise_nodesWithin pool _ index).filter _
    rw [List.nodup_iff_pairwise_ne, List.pairwise_map]
    apply hsorted.imp
    intro left right hlt heq
    rw [heq] at hlt
    exact List.lt_irrefl _ hlt
  rw [hforks, Set.ncard_coe_finset, List.toFinset_card_of_nodup hnodup, List.length_map,
    List.countP_eq_length_filter]

theorem length_references_le (pool : ConstantPool) (index : UInt16) :
    (pool.references index).length ≤ 2 := by
  rcases pool.references_cases index with hleaf | ⟨next, hnext⟩ | ⟨left, right, hfork⟩
  · simp [hleaf]
  · simp [hnext]
  · simp [hfork]

theorem length_resolveWithin_le (pool : ConstantPool) (depth : Nat) (index : UInt16) :
    (pool.resolveWithin depth index).length ≤ 2 ^ depth := by
  induction depth generalizing index with
  | zero => exact Nat.le_refl 1
  | succ depth ih =>
      by_cases hleaf : pool.references index = []
      · rw [resolveWithin_of_leaf hleaf]
        exact Nat.one_le_two_pow
      · have hbelow : ∀ count ∈ (pool.references index).map fun next =>
            (pool.resolveWithin depth next).length, count ≤ 2 ^ depth :=
          List.forall_mem_map.mpr fun next _ => ih next
        rw [resolveWithin_of_node hleaf, List.length_flatMap]
        calc
          ((pool.references index).map fun next => (pool.resolveWithin depth next).length).sum ≤
              (pool.references index).length * 2 ^ depth := by
            simpa using List.sum_le_card_nsmul _ _ hbelow
          _ ≤ 2 * 2 ^ depth := Nat.mul_le_mul_right _ (pool.length_references_le index)
          _ = 2 ^ (depth + 1) := Nat.pow_succ'.symm

theorem mem_slots_of_get? {constant : Constant} (hentry : pool.get? index = some constant) :
    some constant ∈ pool.slots.toList := by
  rw [get?, Option.join_eq_some_iff] at hentry
  exact Array.mem_toList_iff.mpr (Array.mem_of_getElem? hentry)

theorem share_mem (pool : ConstantPool) (index : UInt16) :
    1 ≤ pool.share index ∧ pool.share index ≤ 3 := by
  rw [share]
  cases pool.get? index with
  | none => decide
  | some constant => exact constant.share_mem

theorem sum_share_references_le (hshares : pool.KeepsShares) (index : UInt16) :
    ((pool.references index).map pool.share).sum ≤ pool.share index := by
  rw [references, share]
  cases hentry : pool.get? index with
  | none => exact Nat.zero_le 1
  | some constant => exact hshares _ (mem_slots_of_get? hentry) constant rfl

theorem KeepsShares.length_resolveWithin_le_share (hshares : pool.KeepsShares) (depth : Nat)
    (index : UInt16) : (pool.resolveWithin depth index).length ≤ pool.share index := by
  induction depth generalizing index with
  | zero => exact (pool.share_mem index).1
  | succ depth ih =>
      by_cases hleaf : pool.references index = []
      · rw [resolveWithin_of_leaf hleaf]
        exact (pool.share_mem index).1
      · rw [resolveWithin_of_node hleaf, List.length_flatMap]
        calc
          ((pool.references index).map fun next => (pool.resolveWithin depth next).length).sum ≤
              ((pool.references index).map pool.share).sum :=
            List.sum_le_sum fun next _ => ih next
          _ ≤ pool.share index := sum_share_references_le hshares index

theorem length_resolve_le (pool : ConstantPool) (index : UInt16) :
    (pool.resolve index).length ≤ 2 ^ (maxReferences + 1) :=
  pool.length_resolveWithin_le _ index

theorem KeepsShares.length_resolve_le_share (hshares : pool.KeepsShares) (index : UInt16) :
    (pool.resolve index).length ≤ pool.share index :=
  hshares.length_resolveWithin_le_share _ index

/-- An index stands for one text more than its tree has forks, so for one at least and for
`2 ^ 9` at most, and an instruction has no more operands.  In a pool in which no entry
refers to more than its share, an index keeps to its share as well. -/
theorem length_resolve_eq_forks (pool : ConstantPool) :
    (∀ index, (pool.resolve index).length = (pool.forks index).ncard + 1 ∧
        (pool.resolve index).length ≤ 2 ^ (maxReferences + 1) ∧
        (pool.KeepsShares → (pool.resolve index).length ≤ pool.share index)) ∧
      ∀ instruction,
        (SymbolicInstruction.ofInstruction pool instruction).operands.length ≤
            2 ^ (maxReferences + 1) ∧
          (pool.KeepsShares →
            (SymbolicInstruction.ofInstruction pool instruction).operands.length ≤ 3) := by
  constructor
  · intro index
    refine ⟨?_, pool.length_resolve_le index, fun hshares => hshares.length_resolve_le_share index⟩
    rw [ncard_forks]
    exact pool.length_resolveWithin _ index
  · intro instruction
    cases hindex : instruction.poolIndex? with
    | none =>
        obtain ⟨symbolic, hfew, hsymbolic⟩ := Instruction.exists_ofInstruction_eq hindex
        rw [hsymbolic]
        exact ⟨hfew.trans Nat.one_le_two_pow, fun _ => hfew.trans (by decide)⟩
    | some index =>
        rw [Instruction.ofInstruction_of_poolIndex?_eq_some hindex, SymbolicInstruction.operands,
          List.length_map]
        exact ⟨pool.length_resolve_le index, fun hshares =>
          (hshares.length_resolve_le_share index).trans (pool.share_mem index).2⟩

/-- A class that refers to itself and a descriptor that is missing keep to one text each. -/
theorem length_resolve_eq_forks_brokenMethod :
    let pool := ConstantPool.ofConstants
      [.classRef 1, .nameAndType 3 99, .utf8 "run".toUTF8.toList, .methodRef 1 2]
    pool.KeepsShares ∧ pool.share 4 = 3 ∧ (pool.resolve 4).length ≤ 3 ∧
      pool.resolve 4 =
        ["Constant reference too deep at index 1", "run", "No constant at index 99"] := by
  intro pool
  have hshares : pool.KeepsShares := by
    decide +kernel
  have hshare : pool.share 4 = 3 := by
    decide +kernel
  refine ⟨hshares, hshare, ?_, by decide +kernel⟩
  rw [← hshare]
  exact ((length_resolve_eq_forks pool).1 4).2.2 hshares

/-- A name with its type, both of which it is itself, gives two texts on each level, and the
call of it has as many operands. -/
theorem circular_pair_fills_all_levels :
    let pool := ConstantPool.ofConstants [.nameAndType 1 1]
    let call : Instruction := ⟨0, .invokestatic, [0, 1]⟩
    pool.share 1 = 2 ∧ (pool.resolve 1).length = 512 ∧
      (SymbolicInstruction.ofInstruction pool call).operands.length = 512 := by
  decide +kernel

end ConstantPool

end ClassWarden
