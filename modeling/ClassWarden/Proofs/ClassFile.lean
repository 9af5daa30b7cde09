import ClassWarden.Proofs.ClassImage

/-!
# What parsing keeps

A class file is parsed exactly where an image was written, and the result holds
what a scan needs of that image: numbers, the constant pool by slots and the
first code of each method.
-/

namespace ClassWarden

namespace Constant

variable {constant found : Constant} {constants : List Constant} {count index offset : Nat}

theorem width_le_two (constant : Constant) : constant.width ≤ 2 := by
  cases constant <;> simp [width]

@[simp]
theorem length_slots (constant : Constant) : constant.slots.length = constant.width := by
  rw [slots, List.length_cons, List.length_replicate, Nat.sub_add_cancel constant.width_pos]

theorem join_slots_eq_some_iff :
    (constant.slots[offset]?).join = some found ↔ offset = 0 ∧ constant = found := by
  cases offset with
  | zero => simp [slots]
  | succ offset =>
      rw [slots, List.getElem?_cons_succ, List.getElem?_replicate]
      split <;> simp

/-- The entry in a slot is the one behind entries that fill the slots before. -/
theorem join_flatMap_slots_eq_some_iff :
    ((constants.flatMap slots)[offset]?).join = some constant ↔
      ∃ earlier later, constants = earlier ++ constant :: later ∧
        offset = (earlier.map width).sum := by
  induction constants generalizing offset with
  | nil => simp
  | cons head constants ih =>
      have hwidth := head.width_pos
      rw [List.flatMap_cons]
      -- Inside the first entry only its first slot holds it; the rest is up to the others.
      rcases Nat.lt_or_ge offset head.width with hinside | hbehind
      · rw [List.getElem?_append_left (by rwa [length_slots]), join_slots_eq_some_iff]
        constructor
        · rintro ⟨rfl, rfl⟩
          exact ⟨[], constants, rfl, rfl⟩
        · rintro ⟨_ | ⟨first, earlier⟩, later, hsplit, hoffset⟩
          · exact ⟨hoffset, (List.cons.inj hsplit).1⟩
          · obtain ⟨rfl, -⟩ := List.cons.inj hsplit
            rw [List.map_cons, List.sum_cons] at hoffset
            omega
      · rw [List.getElem?_append_right (by rwa [length_slots]), length_slots, ih]
        constructor
        · rintro ⟨earlier, later, rfl, hoffset⟩
          refine ⟨head :: earlier, later, rfl, ?_⟩
          rw [List.map_cons, List.sum_cons]
          omega
        · rintro ⟨_ | ⟨first, earlier⟩, later, hsplit, hoffset⟩
          · rw [List.map_nil, List.sum_nil] at hoffset
            omega
          · obtain ⟨rfl, hconstants⟩ := List.cons.inj hsplit
            rw [List.map_cons, List.sum_cons] at hoffset
            exact ⟨earlier, later, hconstants, by omega⟩

/-- Only the last entry may reach past the count, and by no more than one slot. -/
theorem Fill.indexAfter_le (hfill : Fill count index constants) :
    indexAfter index constants ≤ max index (count + 1) := by
  induction constants generalizing index with
  | nil => exact Nat.le_max_left index (count + 1)
  | cons constant constants ih =>
      obtain ⟨hindex, hlater⟩ := fill_cons_iff.mp hfill
      have hwidth := constant.width_le_two
      have hend := ih hlater
      rw [indexAfter_cons]
      omega

end Constant

namespace ConstantPool

variable {constants : List Constant} {constant : Constant}

theorem size_ofConstants (constants : List Constant) :
    (ofConstants constants).size = Constant.indexAfter 1 constants := by
  simp [size, ofConstants, Constant.indexAfter, List.length_flatMap, Nat.add_comm]

theorem get?_ofConstants_eq_some_iff {index : UInt16} :
    (ofConstants constants).get? index = some constant ↔
      ∃ earlier later, constants = earlier ++ constant :: later ∧
        index.toNat = Constant.indexAfter 1 earlier := by
  rw [get?, ofConstants, List.getElem?_toArray]
  cases index.toNat with
  | zero =>
      refine iff_of_false nofun ?_
      rintro ⟨earlier, later, -, hindex⟩
      rw [Constant.indexAfter] at hindex
      omega
  | succ offset =>
      simp only [List.getElem?_cons_succ, Constant.join_flatMap_slots_eq_some_iff,
        Constant.indexAfter, Nat.add_comm 1, Nat.add_right_cancel_iff]

/-- Where 16-bit numbers reach every slot, a pool is known by its size and its entries. -/
theorem ext_get? {left right : ConstantPool} (hsize : left.size = right.size)
    (hbound : left.size ≤ 2 ^ 16) (hget : ∀ index, left.get? index = right.get? index) :
    left = right := by
  rw [ConstantPool.mk.injEq]
  apply Array.ext hsize
  intro index hleft hright
  have hindex : (UInt16.ofNat index).toNat = index :=
    UInt16.toNat_ofNat_of_lt' (hleft.trans_le hbound)
  have hsame := hget (.ofNat index)
  rwa [get?, get?, hindex, Array.getElem?_eq_getElem hleft, Array.getElem?_eq_getElem hright,
    Option.join_some, Option.join_some] at hsame

end ConstantPool

theorem Method.code_ofMember_eq_some_iff {pool : ConstantPool} {member : Member}
    {code : List UInt8} :
    (ofMember pool member).code = some code ↔
      ∃ attr, Attribute.IsFirstCode pool member.attributes attr ∧ attr.HoldsCode code := by
  have htoOption (attr : Attribute) : attr.code.toOption = some code ↔ attr.HoldsCode code := by
    rw [← Attribute.code_eq_ok_iff]
    cases attr.code <;> simp [Except.toOption]
  simp only [ofMember, Option.bind_eq_some_iff, Attribute.find?_isCode_eq_some_iff, htoOption]

theorem Member.keeps_iff {pool : ConstantPool} {member : Member} {method : Method} :
    member.Keeps pool method ↔ Method.ofMember pool member = method := by
  constructor
  · rintro ⟨haccess, hname, hdescriptor, hcode⟩
    have hsame : method.code = (Method.ofMember pool member).code := by
      apply Option.ext
      intro code
      rw [hcode, Method.code_ofMember_eq_some_iff]
    rw [Method.mk.injEq]
    exact ⟨haccess.symm, hname.symm, hdescriptor.symm, hsame.symm⟩
  · rintro rfl
    exact ⟨rfl, rfl, rfl, fun _ => Method.code_ofMember_eq_some_iff⟩

theorem Member.forall₂_keeps_iff {pool : ConstantPool} {members : List Member}
    {methods : List Method} :
    List.Forall₂ (Member.Keeps pool) members methods ↔
      members.map (Method.ofMember pool) = methods := by
  have hkeeps : Member.Keeps pool = fun member method => Method.ofMember pool member = method := by
    funext member method
    exact propext Member.keeps_iff
  rw [hkeeps, ← List.forall₂_map_left_iff, List.forall₂_eq_eq_eq]

namespace ClassImage

variable {image : ClassImage} {file : ClassFile} {bytes : List UInt8}

theorem keeps_ofImage (image : ClassImage) : image.Keeps (.ofImage image) where
  minor_eq := rfl
  major_eq := rfl
  access_eq := rfl
  thisClass_eq := rfl
  superClass_eq := rfl
  pool_size := ConstantPool.size_ofConstants image.constants
  pool_get_iff _ _ := ConstantPool.get?_ofConstants_eq_some_iff
  methods := Member.forall₂_keeps_iff.mpr rfl

/-- Nothing is left open of the class file that keeps what is in an image. -/
theorem WellFormed.keeps_iff (himage : image.WellFormed) :
    image.Keeps file ↔ file = .ofImage image := by
  constructor
  · intro hkeeps
    have hsize : file.pool.size = image.pool.size := by
      rw [hkeeps.pool_size, pool, ConstantPool.size_ofConstants]
    have hbound : file.pool.size ≤ 2 ^ 16 := by
      have hend := himage.constants_fill.indexAfter_le
      have hcount := image.poolCount.toNat_lt
      rw [hkeeps.pool_size]
      omega
    have hget (index : UInt16) : file.pool.get? index = image.pool.get? index := by
      apply Option.ext
      intro constant
      rw [hkeeps.pool_get_iff, pool, ConstantPool.get?_ofConstants_eq_some_iff]
    rw [ClassFile.mk.injEq]
    exact ⟨hkeeps.minor_eq, hkeeps.major_eq, ConstantPool.ext_get? hsize hbound hget,
      hkeeps.access_eq, hkeeps.thisClass_eq, hkeeps.superClass_eq,
      (Member.forall₂_keeps_iff.mp hkeeps.methods).symm⟩
  · rintro rfl
    exact keeps_ofImage image

end ClassImage

namespace ClassFile

open ClassImage

theorem parse_eq_ok_iff {bytes : List UInt8} {file : ClassFile} :
    parse bytes = .ok file ↔
      ∃ image : ClassImage, ClassImage.read.run bytes = .ok image ∧ ofImage image = file := by
  rw [parse]
  cases ClassImage.read.run bytes <;> simp [Except.map]

/-- Parsing undoes writing.  Every well-formed image is parsed to the one class file
that keeps what is in it, whatever follows its bytes; and whatever is parsed starts
with the bytes of exactly one well-formed image, which is what the result keeps. -/
theorem parse_inverts_bytes :
    (∀ (image : ClassImage) (tail : List UInt8), image.WellFormed →
      ∃ file, parse (image.bytes ++ tail) = .ok file ∧
        ∀ kept, image.Keeps kept ↔ kept = file) ∧
    ∀ (bytes : List UInt8) (file : ClassFile), parse bytes = .ok file →
      ∃ image : ClassImage, image.WellFormed ∧ image.bytes <+: bytes ∧ image.Keeps file ∧
        ∀ other : ClassImage, other.WellFormed → other.bytes <+: bytes → other = image := by
  constructor
  · intro image tail himage
    have hread : ClassImage.read.run (image.bytes ++ tail) = .ok image :=
      inverts_read.run_eq_ok_iff.mpr ⟨himage, List.prefix_append _ _⟩
    exact ⟨ofImage image, parse_eq_ok_iff.mpr ⟨image, hread, rfl⟩, fun _ => himage.keeps_iff⟩
  · intro bytes file hparse
    obtain ⟨image, hread, rfl⟩ := parse_eq_ok_iff.mp hparse
    obtain ⟨himage, hbytes⟩ := inverts_read.run_eq_ok_iff.mp hread
    refine ⟨image, himage, hbytes, keeps_ofImage image, ?_⟩
    intro other hother hfront
    have hotherRead := inverts_read.run_eq_ok_iff.mpr ⟨hother, hfront⟩
    exact Except.ok.inj (hotherRead.symm.trans hread)

/-- Two entries, of which the second passes the declared count, and two methods, of
which the first has a second attribute named `Code` that holds none. -/
def twoCodes : ClassImage where
  minor := 0
  major := 52
  poolCount := 3
  constants := [.utf8 [0x43, 0x6f, 0x64, 0x65], .long 7]
  access := 0x21
  thisClass := 1
  superClass := 0
  interfaces := [2, 5]
  fields := [⟨2, 1, 1, [⟨1, []⟩]⟩]
  methods := [⟨1, 1, 1, [⟨1, [0, 1, 0, 1, 0, 0, 0, 1, 0xb1, 0, 0]⟩, ⟨1, [0xff]⟩]⟩, ⟨0x400, 1, 1, []⟩]
  attributes := [⟨2, [0xca, 0xfe]⟩]

theorem wellFormed_twoCodes : twoCodes.WellFormed where
  constants_fit := by simp [twoCodes, Constant.Fits]
  constants_fill := by
    simp [twoCodes, Constant.fill_cons_iff, Constant.fill_nil_iff, Constant.width]
  interfaces_lt := by decide
  fields_lt := by decide
  fields_fit := by simp [twoCodes, Attribute.listFits_iff, Attribute.Fits]
  methods_lt := by decide
  methods_fit := by
    have hcode : Attribute.FirstCodeFits twoCodes.pool twoCodes.methods[0].attributes := by
      refine (Attribute.firstCodeFits_cons_iff_of_isCode (by decide +kernel)).mpr ⟨[0xb1], ?_⟩
      exact Attribute.code_eq_ok_iff.mp (by decide +kernel)
    have hnone : Attribute.FirstCodeFits twoCodes.pool [] := Attribute.firstCodeFits_nil
    simp_all [twoCodes, Attribute.listFits_iff, Attribute.Fits]
  attributes_fit := by simp [twoCodes, Attribute.listFits_iff, Attribute.Fits]

theorem parse_inverts_bytes_twoCodes :
    twoCodes.WellFormed ∧ ∃ file, parse (twoCodes.bytes ++ [0]) = .ok file ∧
      file.methods.map Method.code = [some [0xb1], none] ∧
      ∃ image : ClassImage, image.WellFormed ∧ image.bytes <+: twoCodes.bytes ++ [0] ∧
        image.Keeps file ∧ ∀ other : ClassImage, other.WellFormed →
          other.bytes <+: twoCodes.bytes ++ [0] → other = image := by
  obtain ⟨file, hparse, hkept⟩ := parse_inverts_bytes.1 twoCodes [0] wellFormed_twoCodes
  obtain rfl := (hkept _).mp (keeps_ofImage twoCodes)
  exact ⟨wellFormed_twoCodes, _, hparse, by decide +kernel, parse_inverts_bytes.2 _ _ hparse⟩

end ClassFile

end ClassWarden
