import ClassWarden.Proofs.ClassFile
import Mathlib.Data.List.Chain

/-!
# The slots of a parsed pool

A pool is declared by a count and filled by entries that take one slot or two.  Its slots
hold an entry each, apart from the first and from the second slots of eight-byte
literals.  The declared count is met, except that a literal which starts in the last
declared slot has its second one behind it.

Indices of a class file have sixteen bits.  A reader that keeps its place in so many,
and stays at the largest one when it would pass it, fills the same slots: where it stays,
the count is reached.
-/

namespace ClassWarden

namespace Constant

variable {constant : Constant} {constants earlier later : List Constant}

/-- Eight-byte literals. -/
def IsWide (constant : Constant) : Prop :=
  (∃ value, constant = .long value) ∨ ∃ bits, constant = .double bits

theorem slots_of_isWide (hwide : constant.IsWide) : constant.slots = [some constant, none] := by
  obtain ⟨value, rfl⟩ | ⟨bits, rfl⟩ := hwide <;> rfl

theorem width_of_isWide (hwide : constant.IsWide) : constant.width = 2 := by
  obtain ⟨value, rfl⟩ | ⟨bits, rfl⟩ := hwide <;> rfl

theorem width_of_not_isWide (hnarrow : ¬constant.IsWide) : constant.width = 1 := by
  cases constant <;> simp [IsWide, width] at hnarrow ⊢

theorem slots_of_not_isWide (hnarrow : ¬constant.IsWide) : constant.slots = [some constant] := by
  rw [slots, width_of_not_isWide hnarrow]
  rfl

/-! ## Neighbouring slots -/

/-- A slot is empty exactly behind a slot with an eight-byte literal. -/
def Follows (front back : Option Constant) : Prop :=
  back = none ↔ ∃ constant ∈ front, constant.IsWide

theorem isChain_slots {front : Option Constant} (hfront : ∀ constant ∈ front, ¬constant.IsWide)
    (constants : List Constant) : List.IsChain Follows (front :: constants.flatMap slots) := by
  induction constants generalizing front with
  | nil => exact .singleton _
  | cons constant constants ih =>
      have hentry : Follows front (some constant) :=
        iff_of_false nofun fun ⟨other, hmem, hwide⟩ => hfront other hmem hwide
      rw [List.flatMap_cons]
      by_cases hwide : constant.IsWide
      · rw [slots_of_isWide hwide]
        have hempty : Follows (some constant) none :=
          iff_of_true rfl ⟨constant, rfl, hwide⟩
        exact .cons_cons hentry (.cons_cons hempty (ih nofun))
      · rw [slots_of_not_isWide hwide]
        exact .cons_cons hentry (ih (by simpa using hwide))

theorem indexAfter_concat (index : Nat) (constants : List Constant) (constant : Constant) :
    indexAfter index (constants ++ [constant]) = indexAfter index constants + constant.width := by
  simp [indexAfter, Nat.add_assoc]

end Constant

namespace ConstantPool

open Constant

variable {constants : List Constant} {constant : Constant} {slot count : Nat}
variable {pool : ConstantPool}

def HoldsWide (pool : ConstantPool) (slot : Nat) : Prop :=
  ∃ constant, pool.slots[slot]? = some (some constant) ∧ constant.IsWide

/-- Where the slots of a pool that is declared with a count are empty, and how many of
them there are. -/
structure LaidOut (pool : ConstantPool) (count : Nat) : Prop where
  zero_empty : pool.slots[0]? = some none
  succ_empty_iff : ∀ slot, slot + 1 < pool.size →
    (pool.slots[slot + 1]? = some none ↔ pool.HoldsWide slot)
  size_of_holdsWide : ∀ last, last + 1 = count → pool.HoldsWide last →
    pool.size = max 1 count + 1
  size_of_not_holdsWide : (∀ last, last + 1 = count → ¬pool.HoldsWide last) →
    pool.size = max 1 count

theorem holdsWide_iff (hslot : slot < pool.size) :
    pool.HoldsWide slot ↔ ∃ constant ∈ pool.slots[slot], constant.IsWide := by
  rw [HoldsWide, Array.getElem?_eq_getElem hslot]
  simp [Option.mem_def]

theorem slots_ofConstants_indexAfter (earlier : List Constant) (constant : Constant)
    (later : List Constant) :
    (ofConstants (earlier ++ constant :: later)).slots[indexAfter 1 earlier]? =
      some (some constant) := by
  have hlength : (earlier.flatMap Constant.slots).length = (earlier.map width).sum := by
    simp [List.length_flatMap]
  rw [ofConstants, List.getElem?_toArray, indexAfter, Nat.add_comm, List.getElem?_cons_succ,
    List.flatMap_append, List.getElem?_append_right hlength.le, hlength, Nat.sub_self]
  rfl

theorem succ_empty_ofConstants_iff (hslot : slot + 1 < (ofConstants constants).size) :
    (ofConstants constants).slots[slot + 1]? = some none ↔
      (ofConstants constants).HoldsWide slot := by
  have hnone : ∀ constant ∈ (none : Option Constant), ¬constant.IsWide := by
    simp
  have hbefore : slot < (ofConstants constants).slots.size := Nat.lt_of_succ_lt hslot
  have hfollows : Follows (ofConstants constants).slots[slot]
      (ofConstants constants).slots[slot + 1] :=
    (isChain_slots hnone constants).getElem slot hslot
  rw [holdsWide_iff hbefore, Array.getElem?_eq_getElem hslot, Option.some.injEq]
  exact hfollows

/-- Only the last entry can pass the count. -/
theorem size_ofConstants_cases (hfill : Fill count 1 constants) :
    ((ofConstants constants).size = max 1 count ∧
        ∀ last, last + 1 = count → ¬(ofConstants constants).HoldsWide last) ∨
      ((ofConstants constants).size = max 1 count + 1 ∧
        ∃ last, last + 1 = count ∧ (ofConstants constants).HoldsWide last) := by
  obtain rfl | ⟨earlier, constant, rfl⟩ := constants.eq_nil_or_concat'
  · have hcount := fill_nil_iff.mp hfill
    refine .inl ⟨(max_eq_left hcount).symm, ?_⟩
    rintro last hlast ⟨constant, hconstant, -⟩
    obtain rfl : last = 0 := by
      omega
    cases hconstant
  · have hstart := hfill.starts_lt earlier constant [] rfl
    have hend := hfill.le_end
    rw [indexAfter_concat] at hend
    have hsize : (ofConstants (earlier ++ [constant])).size =
        indexAfter 1 earlier + constant.width := by
      rw [size_ofConstants, indexAfter_concat]
    have hpositive : 1 ≤ indexAfter 1 earlier := Nat.le_add_right 1 _
    have hslot := slots_ofConstants_indexAfter earlier constant []
    by_cases hwide : constant.IsWide
    · have hwidth := width_of_isWide hwide
      by_cases hlast : indexAfter 1 earlier + 1 = count
      · exact .inr ⟨by omega, indexAfter 1 earlier, hlast, constant, hslot, hwide⟩
      · refine .inl ⟨by omega, ?_⟩
        rintro last hcount ⟨other, hother, -⟩
        -- The last declared slot is the second one of the literal.
        have hempty := (succ_empty_ofConstants_iff (by omega)).mpr ⟨constant, hslot, hwide⟩
        obtain rfl : last = indexAfter 1 earlier + 1 := by
          omega
        cases hempty.symm.trans hother
    · have hwidth := width_of_not_isWide hwide
      refine .inl ⟨by omega, ?_⟩
      rintro last hcount ⟨other, hother, hotherWide⟩
      obtain rfl : last = indexAfter 1 earlier := by
        omega
      obtain rfl : constant = other := by
        simpa using hslot.symm.trans hother
      exact hwide hotherWide

theorem laidOut_ofConstants (hfill : Fill count 1 constants) :
    (ofConstants constants).LaidOut count where
  zero_empty := rfl
  succ_empty_iff _ hslot := succ_empty_ofConstants_iff hslot
  size_of_holdsWide last hlast hwide := by
    obtain ⟨-, hnarrow⟩ | ⟨hsize, -⟩ := size_ofConstants_cases hfill
    · exact absurd hwide (hnarrow last hlast)
    · exact hsize
  size_of_not_holdsWide hnarrow := by
    obtain ⟨hsize, -⟩ | ⟨-, last, hlast, hwide⟩ := size_ofConstants_cases hfill
    · exact hsize
    · exact absurd hwide (hnarrow last hlast)

end ConstantPool

namespace Constant

variable {count index : UInt16} {slots : List (Option Constant)}

/-! ## Sixteen-bit indices -/

/-- The index behind an entry, which stays at the largest one rather than pass it. -/
def nextIndex (index : UInt16) (constant : Constant) : UInt16 :=
  .ofNat (min (index.toNat + constant.width) (2 ^ 16 - 1))

theorem toNat_nextIndex (index : UInt16) (constant : Constant) :
    (nextIndex index constant).toNat = min (index.toNat + constant.width) (2 ^ 16 - 1) := by
  have hbound : min (index.toNat + constant.width) (2 ^ 16 - 1) < 2 ^ 16 := by
    omega
  exact UInt16.toNat_ofNat_of_lt' hbound

example : nextIndex 65534 (.long 7) = 65535 := by decide

/-- Reads entries until the index reaches the count, and puts their slots behind those
that are there. -/
def readSlots (count index : UInt16) (slots : List (Option Constant)) :
    Reader (List (Option Constant)) := do
  if index < count then
    let constant ← Constant.read index.toNat
    readSlots count (nextIndex index constant) (slots ++ constant.slots)
  else
    return slots
termination_by count.toNat - index.toNat
decreasing_by
  rename_i hindex
  have hlt : index.toNat < count.toNat := UInt16.lt_iff_toNat_lt.mp hindex
  have hcount := count.toNat_lt
  have hwidth := constant.width_pos
  rw [toNat_nextIndex]
  omega

/-- The index keeps step with the slots, and where it stays behind them the count is
reached. -/
theorem readSlots_eq (hindex : index.toNat = min slots.length (2 ^ 16 - 1)) :
    readSlots count index slots =
      (fun constants => slots ++ constants.flatMap Constant.slots) <$>
        readUpTo count.toNat slots.length := by
  have hcount := count.toNat_lt
  induction hplace : slots.length using readUpTo.induct count.toNat generalizing index slots with
  | case1 place hbefore ih =>
      have hsame : index.toNat = place := by
        omega
      rw [readSlots, if_pos (UInt16.lt_iff_toNat_lt.mpr (by omega)), readUpTo, if_pos hbefore,
        map_bind, hsame]
      refine bind_congr fun constant => ?_
      have hlength : (slots ++ constant.slots).length = place + constant.width := by
        rw [List.length_append, length_slots, hplace]
      have hnext : (nextIndex index constant).toNat =
          min (slots ++ constant.slots).length (2 ^ 16 - 1) := by
        rw [toNat_nextIndex, hsame, hlength]
      rw [ih constant hnext hlength, map_bind]
      simp [List.append_assoc]
  | case2 place hreached =>
      rw [readSlots, if_neg, readUpTo, if_neg hreached, map_pure]
      · simp
      · rw [UInt16.lt_iff_toNat_lt]
        omega

end Constant

namespace ClassImage

theorem exists_header (image : ClassImage) : ∃ header rest : List UInt8, header.length = 8 ∧
    image.bytes = header ++ (BigEndian.ofUInt16 image.poolCount ++
      (image.constants.flatMap Constant.bytes ++ rest)) := by
  refine ⟨BigEndian.ofUInt32 magic ++ BigEndian.ofUInt16 image.minor ++
    BigEndian.ofUInt16 image.major, ?_⟩
  simp only [ClassImage.bytes, List.append_assoc]
  exact ⟨_, rfl, rfl⟩

end ClassImage

namespace ClassFile

variable {bytes : List UInt8} {file : ClassFile}

/-- The pool of a file that is parsed has the slots that its count declares, and a reader
with a sixteen-bit index, started behind the count with slot zero, gives just these. -/
theorem pool_laidOut_of_parse (hparse : parse bytes = .ok file) :
    let count : UInt16 := .ofNat (BigEndian.toNat ((bytes.drop 8).take 2))
    file.pool.LaidOut count.toNat ∧
      ∃ next, Constant.readSlots count 1 [none] ⟨10, bytes.drop 10⟩ =
        .ok (file.pool.slots.toList, next) := by
  obtain ⟨image, hread, rfl⟩ := parse_eq_ok_iff.mp hparse
  obtain ⟨himage, tail, rfl⟩ := ClassImage.inverts_read.run_eq_ok_iff.mp hread
  obtain ⟨header, rest, hheader, hbytes⟩ := image.exists_header
  have hcut : image.bytes ++ tail = header ++ (BigEndian.ofUInt16 image.poolCount ++
      (image.constants.flatMap Constant.bytes ++ (rest ++ tail))) := by
    simp only [hbytes, List.append_assoc]
  have hfield : (BigEndian.ofUInt16 image.poolCount).length = 2 := BigEndian.length_ofNat 2 _
  have hcount : UInt16.ofNat (BigEndian.toNat (((image.bytes ++ tail).drop 8).take 2)) =
      image.poolCount := by
    rw [hcut, List.drop_left' hheader, List.take_left' hfield, BigEndian.ofNat_toNat_ofUInt16]
  have hbehind : (image.bytes ++ tail).drop 10 =
      image.constants.flatMap Constant.bytes ++ (rest ++ tail) := by
    rw [hcut, ← List.append_assoc]
    exact List.drop_left' (by rw [List.length_append, hheader, hfield])
  intro count
  have hsame : count = image.poolCount := hcount
  rw [hsame, hbehind]
  refine ⟨ConstantPool.laidOut_ofConstants himage.constants_fill, ?_⟩
  have hconstants : Constant.readUpTo image.poolCount.toNat 1
      ⟨10, image.constants.flatMap Constant.bytes ++ (rest ++ tail)⟩ = .ok (image.constants,
        ⟨10 + (image.constants.flatMap Constant.bytes).length, rest ++ tail⟩) :=
    (Constant.inverts_readUpTo _ _ _ _ _).mpr
      ⟨⟨himage.constants_fill, himage.constants_fit⟩, rfl, rfl⟩
  rw [Constant.readSlots_eq rfl, ← bind_pure_comp]
  exact ⟨_, Reader.bind_eq_ok_iff.mpr ⟨_, _, hconstants, rfl⟩⟩

/-- The second entry is a literal in the last of three declared slots. -/
theorem pool_laidOut_of_parse_twoCodes :
    let file := ofImage twoCodes
    parse twoCodes.bytes = .ok file ∧ file.pool.LaidOut 3 ∧ file.pool.size = 4 ∧
      file.pool.slots[3]? = some none ∧
      ∃ next, Constant.readSlots 3 1 [none] ⟨10, twoCodes.bytes.drop 10⟩ =
        .ok (file.pool.slots.toList, next) := by
  intro file
  have hread : ClassImage.read.run twoCodes.bytes = .ok twoCodes :=
    ClassImage.inverts_read.run_eq_ok_iff.mpr ⟨wellFormed_twoCodes, List.prefix_rfl⟩
  have hparse : parse twoCodes.bytes = .ok file :=
    parse_eq_ok_iff.mpr ⟨twoCodes, hread, rfl⟩
  have hcount : UInt16.ofNat (BigEndian.toNat ((twoCodes.bytes.drop 8).take 2)) = 3 := by
    decide +kernel
  obtain ⟨hlaid, hslots⟩ := pool_laidOut_of_parse hparse
  rw [hcount] at hlaid hslots
  have hwide : file.pool.HoldsWide 2 := ⟨.long 7, by decide +kernel, .inl ⟨7, rfl⟩⟩
  have hsize : file.pool.size = 4 := hlaid.size_of_holdsWide 2 rfl hwide
  exact ⟨hparse, hlaid, hsize, (hlaid.succ_empty_iff 2 (by omega)).mpr hwide, hslots⟩

end ClassFile

end ClassWarden
