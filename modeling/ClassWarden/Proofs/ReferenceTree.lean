import ClassWarden.ConstantPool
import Mathlib.Data.List.Basic
import Mathlib.Data.List.Enum

/-!
# The tree behind a pool index

Whoever follows the references of a pool without end gets a tree: at its root an index,
below an index the references of its entry, left to right, and at its leaves what is no
reference.  Entries that refer to each other in a circle make it infinite, so the tree is
given by its places: a place is the list of choices that lead down to it.

Resolution is a walk through this tree that ends at its leaves and does not go further
down than the limit.  Where all leaves lie above the limit, nothing of the limit shows.
-/

namespace ClassWarden

namespace Constant

/-- The references that an entry is resolved through, left to right. -/
def references : Constant → List UInt16
  | .classRef name => [name]
  | .methodRef owner typed | .interfaceMethodRef owner typed => [owner, typed]
  | .nameAndType name descriptor => [name, descriptor]
  | _ => []

/-- The text of an entry that is resolved through no other. -/
def ownText : Constant → String
  | utf8 bytes => Utf8.decode bytes
  | constant => ConstantPool.unresolvableText constant

end Constant

namespace ConstantPool

variable {pool : ConstantPool} {index target : UInt16} {places : List Nat} {depth : Nat}

def references (pool : ConstantPool) (index : UInt16) : List UInt16 :=
  (pool.get? index).elim [] Constant.references

/-- What stands at a leaf. -/
def leafText (pool : ConstantPool) (index : UInt16) : String :=
  (pool.get? index).elim (missingText index) Constant.ownText

/-- The index at a place of the tree, if the tree has the place. -/
def target? (pool : ConstantPool) : UInt16 → List Nat → Option UInt16
  | index, [] => some index
  | index, place :: places =>
    (pool.references index)[place]?.bind fun next => pool.target? next places

/-- A node below a reference as a node of the whole tree. -/
def descend (place : Nat) (node : List Nat × UInt16) : List Nat × UInt16 :=
  (place :: node.1, node.2)

/-- The nodes of the tree down to a depth, each with its place and in front of those below
it. -/
def nodesWithin (pool : ConstantPool) : Nat → UInt16 → List (List Nat × UInt16)
  | 0, index => [([], index)]
  | depth + 1, index =>
    ([], index) :: (pool.references index).zipIdx.flatMap fun reference =>
      (pool.nodesWithin depth reference.1).map (descend reference.2)

/-- A place of the tree with an index that has no references. -/
def Leaf (pool : ConstantPool) (index : UInt16) (places : List Nat) (target : UInt16) : Prop :=
  pool.target? index places = some target ∧ pool.references target = []

/-- A leaf of the tree that is cut where a reference would be one too many, or a reference
that is cut off. -/
def CutLeaf (pool : ConstantPool) (limit : Nat) (index : UInt16) (places : List Nat)
    (target : UInt16) : Prop :=
  pool.target? index places = some target ∧
    (places.length = limit + 1 ∨ places.length ≤ limit ∧ pool.references target = [])

/-- No place of the tree lies behind more references than the limit. -/
def HeightAtMost (pool : ConstantPool) (limit : Nat) (index : UInt16) : Prop :=
  ∀ places, (pool.target? index places).isSome → places.length ≤ limit

/-- All nodes of some kind, each once and from left to right. -/
structure InOrder (nodes : List (List Nat × UInt16)) (member : List Nat → UInt16 → Prop) :
    Prop where
  sorted : nodes.Pairwise fun left right => left.1 < right.1
  mem_iff : ∀ places target, (places, target) ∈ nodes ↔ member places target

theorem target?_cons_eq_some_iff {place : Nat} :
    pool.target? index (place :: places) = some target ↔
      ∃ next, (pool.references index)[place]? = some next ∧
        pool.target? next places = some target := by
  rw [target?, Option.bind_eq_some_iff]

theorem target?_append (front back : List Nat) :
    pool.target? index (front ++ back) =
      (pool.target? index front).bind fun next => pool.target? next back := by
  induction front generalizing index with
  | nil => rfl
  | cons place front ih =>
      rw [List.cons_append, target?, target?, Option.bind_assoc]
      congr 1
      funext next
      exact ih

theorem mem_nodesWithin_cons_iff {place : Nat} :
    (place :: places, target) ∈ pool.nodesWithin (depth + 1) index ↔
      ∃ next, (pool.references index)[place]? = some next ∧
        (places, target) ∈ pool.nodesWithin depth next := by
  simp [nodesWithin, descend, List.mem_zipIdx_iff_getElem?]

theorem mem_nodesWithin_iff :
    (places, target) ∈ pool.nodesWithin depth index ↔
      places.length ≤ depth ∧ pool.target? index places = some target := by
  induction depth generalizing index places with
  | zero =>
      rw [nodesWithin, List.mem_singleton, Nat.le_zero, List.length_eq_zero_iff, Prod.mk.injEq]
      constructor
      · rintro ⟨rfl, rfl⟩
        exact ⟨rfl, rfl⟩
      · rintro ⟨rfl, htarget⟩
        exact ⟨rfl, (Option.some.inj htarget).symm⟩
  | succ depth ih =>
      cases places with
      | nil => simp [nodesWithin, descend, target?, eq_comm]
      | cons place places =>
          rw [mem_nodesWithin_cons_iff, target?_cons_eq_some_iff, List.length_cons,
            Nat.add_le_add_iff_right]
          simp only [ih, and_left_comm, exists_and_left]

theorem pairwise_nodesWithin (pool : ConstantPool) (depth : Nat) (index : UInt16) :
    (pool.nodesWithin depth index).Pairwise fun left right => left.1 < right.1 := by
  induction depth generalizing index with
  | zero => exact List.pairwise_singleton _ _
  | succ depth ih =>
      have hnumbers : (pool.references index).zipIdx.Pairwise fun left right =>
          left.2 < right.2 := by
        rw [← List.pairwise_map, List.zipIdx_map_snd]
        exact List.pairwise_lt_range'
      rw [nodesWithin, List.pairwise_cons, List.pairwise_flatMap]
      refine ⟨?_, ?_, ?_⟩
      · intro node hnode
        obtain ⟨reference, -, hnode⟩ := List.mem_flatMap.mp hnode
        obtain ⟨below, -, rfl⟩ := List.mem_map.mp hnode
        exact List.nil_lt_cons _ _
      · intro reference _
        rw [List.pairwise_map]
        apply (ih reference.1).imp
        intro left right hlt
        exact List.cons_lt_cons_iff.mpr (.inr ⟨rfl, hlt⟩)
      · apply hnumbers.imp
        intro first second hlt left hleft right hright
        obtain ⟨below, -, rfl⟩ := List.mem_map.mp hleft
        obtain ⟨below, -, rfl⟩ := List.mem_map.mp hright
        exact List.cons_lt_cons_iff.mpr (.inl hlt)

/-- Whether all places of a tree lie above a limit and lead to indices of some kind can be
told from the tree that is cut below the limit. -/
theorem forall_places_iff (pool : ConstantPool) (limit : Nat) (index : UInt16)
    (property : UInt16 → Prop) :
    (∀ places target, pool.target? index places = some target →
        places.length ≤ limit ∧ property target) ↔
      ∀ node ∈ pool.nodesWithin (limit + 1) index, node.1.length ≤ limit ∧ property node.2 := by
  constructor
  · rintro hplaces ⟨places, target⟩ hnode
    exact hplaces places target (mem_nodesWithin_iff.mp hnode).2
  · intro hnodes places target htarget
    have hlength : places.length ≤ limit := by
      by_contra hlong
      -- A place below the limit has one just below the limit above it.
      rw [← List.take_append_drop (limit + 1) places, target?_append,
        Option.bind_eq_some_iff] at htarget
      obtain ⟨next, hnext, -⟩ := htarget
      have hcut : (places.take (limit + 1)).length = limit + 1 := by
        rw [List.length_take]
        omega
      have hlimit : (places.take (limit + 1)).length ≤ limit :=
        (hnodes _ (mem_nodesWithin_iff.mpr ⟨Nat.le_of_eq hcut, hnext⟩)).1
      omega
    exact hnodes _ (mem_nodesWithin_iff.mpr ⟨Nat.le_succ_of_le hlength, htarget⟩)

theorem heightAtMost_iff {limit : Nat} :
    pool.HeightAtMost limit index ↔
      ∀ node ∈ pool.nodesWithin (limit + 1) index, node.1.length ≤ limit := by
  have hplaces := pool.forall_places_iff limit index fun _ => True
  simpa [HeightAtMost, Option.isSome_iff_exists] using hplaces

instance (pool : ConstantPool) (limit : Nat) (index : UInt16) :
    Decidable (pool.HeightAtMost limit index) :=
  decidable_of_iff _ heightAtMost_iff.symm

/-! ## Resolution as a walk through the tree -/

theorem resolveWithin_of_leaf (hleaf : pool.references index = []) (lookups : Nat) :
    pool.resolveWithin (lookups + 1) index = [pool.leafText index] := by
  rw [resolveWithin, leafText]
  rw [references] at hleaf
  cases hentry : pool.get? index with
  | none => rfl
  | some constant => cases constant <;> simp_all [Constant.references, Constant.ownText]

theorem resolveWithin_of_node (hnode : pool.references index ≠ []) (lookups : Nat) :
    pool.resolveWithin (lookups + 1) index =
      (pool.references index).flatMap (pool.resolveWithin lookups) := by
  rw [resolveWithin]
  rw [references] at hnode ⊢
  cases hentry : pool.get? index with
  | none => simp_all
  | some constant => cases constant <;> simp_all [Constant.references]

def isEnd (pool : ConstantPool) (depth : Nat) (node : List Nat × UInt16) : Bool :=
  node.1.length == depth || (pool.references node.2).isEmpty

def endText (pool : ConstantPool) (depth : Nat) (node : List Nat × UInt16) : String :=
  if node.1.length = depth then tooDeepText node.2 else pool.leafText node.2

theorem isEnd_comp_descend (pool : ConstantPool) (depth place : Nat) :
    pool.isEnd (depth + 1) ∘ descend place = pool.isEnd depth := by
  funext node
  rw [Bool.eq_iff_iff]
  simp [isEnd, descend]

theorem endText_comp_descend (pool : ConstantPool) (depth place : Nat) :
    pool.endText (depth + 1) ∘ descend place = pool.endText depth := by
  funext node
  simp [endText, descend]

/-- Resolution tells the ends of the walk, left to right. -/
theorem resolveWithin_eq_map_ends (pool : ConstantPool) (depth : Nat) (index : UInt16) :
    pool.resolveWithin depth index =
      ((pool.nodesWithin depth index).filter (pool.isEnd depth)).map (pool.endText depth) := by
  induction depth generalizing index with
  | zero => rfl
  | succ depth ih =>
      by_cases hleaf : pool.references index = []
      · have hends : (pool.nodesWithin (depth + 1) index).filter (pool.isEnd (depth + 1)) =
            [([], index)] := by
          simp [nodesWithin, isEnd, hleaf]
        rw [resolveWithin_of_leaf hleaf, hends]
        rfl
      · have hroot : ¬pool.isEnd (depth + 1) ([], index) = true := by
          simp [isEnd, hleaf]
        rw [resolveWithin_of_node hleaf, nodesWithin, List.filter_cons_of_neg hroot,
          List.filter_flatMap, List.map_flatMap]
        simp only [List.filter_map, List.map_map, isEnd_comp_descend, endText_comp_descend, ← ih]
        rw [← List.flatMap_map Prod.fst, List.zipIdx_map_fst]

/-! ## The bound and the whole tree -/

theorem mem_ends_iff {limit : Nat} :
    (places, target) ∈ (pool.nodesWithin (limit + 1) index).filter (pool.isEnd (limit + 1)) ↔
      pool.CutLeaf limit index places target := by
  rw [List.mem_filter, mem_nodesWithin_iff, isEnd, Bool.or_eq_true, beq_iff_eq,
    List.isEmpty_iff, CutLeaf]
  dsimp only
  constructor
  · rintro ⟨⟨hlength, htarget⟩, hend⟩
    rcases Nat.le_succ_iff.mp hlength with hshort | hcut
    · exact ⟨htarget, .inr ⟨hshort, hend.resolve_left (by omega)⟩⟩
    · exact ⟨htarget, .inl hcut⟩
  · rintro ⟨htarget, hcut | ⟨hshort, hleaf⟩⟩
    · exact ⟨⟨Nat.le_of_eq hcut, htarget⟩, .inl hcut⟩
    · exact ⟨⟨Nat.le_succ_of_le hshort, htarget⟩, .inr hleaf⟩

/-- In a tree that is nowhere cut off, what is left after the cut are its leaves. -/
theorem HeightAtMost.cutLeaf_iff {limit : Nat} (hheight : pool.HeightAtMost limit index) :
    pool.CutLeaf limit index places target ↔ pool.Leaf index places target := by
  apply and_congr_right
  intro htarget
  have hlength : places.length ≤ limit := hheight places (Option.isSome_of_eq_some htarget)
  have hnotCut : places.length ≠ limit + 1 := by
    omega
  simp [hnotCut, hlength]

theorem exists_ends (pool : ConstantPool) (index : UInt16) :
    ∃ ends, InOrder ends (pool.CutLeaf maxReferences index) ∧
      pool.resolve index = ends.map fun node =>
        if maxReferences < node.1.length then tooDeepText node.2 else pool.leafText node.2 := by
  refine ⟨(pool.nodesWithin (maxReferences + 1) index).filter (pool.isEnd (maxReferences + 1)),
    ⟨(pairwise_nodesWithin pool _ index).filter _, fun _ _ => mem_ends_iff⟩, ?_⟩
  rw [resolve, resolveWithin_eq_map_ends]
  apply List.map_congr_left
  intro node hnode
  have hlength : node.1.length ≤ maxReferences + 1 :=
    (mem_nodesWithin_iff.mp (List.mem_filter.mp hnode).1).1
  have hcut : maxReferences < node.1.length ↔ node.1.length = maxReferences + 1 := by
    omega
  simp only [endText, hcut]

/-- Nothing of the limit shows in a tree that is nowhere cut off. -/
theorem HeightAtMost.exists_leaves (hheight : pool.HeightAtMost maxReferences index) :
    ∃ leaves, InOrder leaves (pool.Leaf index) ∧
      pool.resolve index = leaves.map fun node => pool.leafText node.2 := by
  obtain ⟨ends, hends, htexts⟩ := pool.exists_ends index
  refine ⟨ends, ⟨hends.sorted, fun places target => ?_⟩, ?_⟩
  · rw [hends.mem_iff, hheight.cutLeaf_iff]
  · rw [htexts]
    apply List.map_congr_left
    intro node hnode
    have htarget := ((hends.mem_iff node.1 node.2).mp hnode).1
    have hlength := hheight node.1 (Option.isSome_of_eq_some htarget)
    rw [if_neg (Nat.not_lt.mpr hlength)]

theorem resolve_method {owner typed ownerName name descriptor : UInt16}
    {ownerBytes nameBytes descriptorBytes : List UInt8}
    (hindex : pool.get? index = some (.methodRef owner typed) ∨
      pool.get? index = some (.interfaceMethodRef owner typed))
    (howner : pool.get? owner = some (.classRef ownerName))
    (htyped : pool.get? typed = some (.nameAndType name descriptor))
    (hownerName : pool.get? ownerName = some (.utf8 ownerBytes))
    (hname : pool.get? name = some (.utf8 nameBytes))
    (hdescriptor : pool.get? descriptor = some (.utf8 descriptorBytes)) :
    pool.resolve index =
      [Utf8.decode ownerBytes, Utf8.decode nameBytes, Utf8.decode descriptorBytes] := by
  rcases hindex with hindex | hindex <;>
    simp [resolve, maxReferences, resolveWithin, hindex, howner, htyped, hownerName, hname,
      hdescriptor]

/-- Resolution gives the leaves of the reference tree from left to right, where a reference
behind eight others is cut off and gives one placeholder.  If the tree has no such
reference, these are its leaves and nothing else.  In particular a method reference with
parts of the right kinds gives its owner, name and descriptor. -/
theorem resolve_eq_leaves (pool : ConstantPool) (index : UInt16) :
    (∃ ends, InOrder ends (pool.CutLeaf maxReferences index) ∧
        pool.resolve index = ends.map fun node =>
          if maxReferences < node.1.length then tooDeepText node.2 else pool.leafText node.2) ∧
      (pool.HeightAtMost maxReferences index →
        ∃ leaves, InOrder leaves (pool.Leaf index) ∧
          pool.resolve index = leaves.map fun node => pool.leafText node.2) ∧
      ∀ owner typed ownerName name descriptor ownerBytes nameBytes descriptorBytes,
        (pool.get? index = some (.methodRef owner typed) ∨
            pool.get? index = some (.interfaceMethodRef owner typed)) →
          pool.get? owner = some (.classRef ownerName) →
          pool.get? typed = some (.nameAndType name descriptor) →
          pool.get? ownerName = some (.utf8 ownerBytes) →
          pool.get? name = some (.utf8 nameBytes) →
          pool.get? descriptor = some (.utf8 descriptorBytes) →
          pool.resolve index =
            [Utf8.decode ownerBytes, Utf8.decode nameBytes, Utf8.decode descriptorBytes] := by
  refine ⟨pool.exists_ends index, HeightAtMost.exists_leaves, ?_⟩
  intro owner typed ownerName name descriptor ownerBytes nameBytes descriptorBytes
  exact resolve_method

/-- A method whose owner lies behind eight references and whose descriptor is missing, and
an interface method with all its parts. -/
theorem resolve_eq_leaves_longWay :
    let utf8 (text : String) := Constant.utf8 text.toUTF8.toList
    let pool := ConstantPool.ofConstants [.methodRef 2 11, .classRef 3, .classRef 4, .classRef 5,
      .classRef 6, .classRef 7, .classRef 8, .classRef 9, utf8 "a/A", utf8 "run",
      .nameAndType 10 99, .classRef 9, utf8 "()V", .nameAndType 10 13, .interfaceMethodRef 12 14]
    pool.HeightAtMost maxReferences 1 ∧
      (∃ leaves, InOrder leaves (pool.Leaf 1) ∧
        pool.resolve 1 = leaves.map fun node => pool.leafText node.2) ∧
      pool.resolve 1 = ["a/A", "run", "No constant at index 99"] ∧
      pool.resolve 15 = ["a/A", "run", "()V"] := by
  intro utf8 pool
  have hheight : pool.HeightAtMost maxReferences 1 := by
    decide +kernel
  refine ⟨hheight, (resolve_eq_leaves pool 1).2.1 hheight, by decide +kernel, ?_⟩
  have hmethod := (resolve_eq_leaves pool 15).2.2 12 14 9 10 13 "a/A".toUTF8.toList
    "run".toUTF8.toList "()V".toUTF8.toList (by decide +kernel) (by decide +kernel)
    (by decide +kernel) (by decide +kernel) (by decide +kernel) (by decide +kernel)
  rw [hmethod]
  decide +kernel

end ConstantPool

end ClassWarden
