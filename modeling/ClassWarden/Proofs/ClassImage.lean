import ClassWarden.ClassFile.Writer
import ClassWarden.Proofs.Reading

/-!
# Reading and writing class images

For every part of the layout, reading succeeds exactly on the bytes that are
written for a part that is well formed: entries of the pool, attributes, fields,
methods and whole images.  Two rules look beyond a part's own bytes.  The pool
ends where its entries fill the declared count, and the attributes of a method
are checked for the code that the first of them named `Code` announces.
-/

namespace ClassWarden

open Reader

namespace Constant

variable {constant : Constant} {constants : List Constant} {count index : Nat}

/-- The index serves messages only. -/
theorem inverts_read (index : Nat) : Inverts (Constant.read index) Fits Constant.bytes := by
  intro cursor constant next
  simp only [Constant.read, bind_eq_ok_iff, u8_eq_ok_iff]
  constructor
  · rintro ⟨tag, middle, htag, hpayload⟩
    suffices hparts : constant.Fits ∧ constant.tag = tag ∧
        middle.Consumes constant.payload next by
      obtain ⟨hfits, rfl, hbytes⟩ := hparts
      exact ⟨hfits, htag.append hbytes⟩
    split at hpayload
    case h_18 => exact absurd hpayload fail_ne_ok
    all_goals simp only [bind_eq_ok_iff, u8_eq_ok_iff, u16_eq_ok_iff, u32_eq_ok_iff,
      u64_eq_ok_iff, block_eq_ok_iff, pure_eq_ok_iff] at hpayload
    case h_1 =>
      obtain ⟨length, _, hlength, text, _, ⟨htext, hbytes⟩, rfl, rfl⟩ := hpayload
      obtain ⟨hfits, hcount⟩ := Cursor.consumes_ofNat_two_iff.mpr ⟨length, htext, hlength⟩
      exact ⟨hfits, rfl, hcount.append hbytes⟩
    case h_2 | h_3 | h_4 | h_5 | h_6 | h_7 | h_13 | h_16 | h_17 =>
      obtain ⟨value, _, hvalue, rfl, rfl⟩ := hpayload
      exact ⟨trivial, rfl, hvalue⟩
    case h_8 | h_9 | h_10 | h_11 | h_12 | h_14 | h_15 =>
      obtain ⟨first, _, hfirst, second, _, hsecond, rfl, rfl⟩ := hpayload
      exact ⟨trivial, rfl, hfirst.append hsecond⟩
  · rintro ⟨hfits, hbytes⟩
    obtain ⟨middle, htag, hpayload⟩ := Cursor.consumes_cons_iff.mp hbytes
    refine ⟨constant.tag, middle, htag, ?_⟩
    cases constant
    all_goals simp only [tag, bind_eq_ok_iff, u8_eq_ok_iff, u16_eq_ok_iff, u32_eq_ok_iff,
      u64_eq_ok_iff, block_eq_ok_iff, pure_eq_ok_iff]
    case utf8 text =>
      obtain ⟨last, hcount, htext⟩ := Cursor.consumes_append_iff.mp hpayload
      obtain ⟨length, hlength, hfield⟩ := Cursor.consumes_ofNat_two_iff.mp ⟨hfits, hcount⟩
      exact ⟨length, last, hfield, text, next, ⟨hlength, htext⟩, rfl, rfl⟩
    case integer | float | long | double | classRef | stringRef | methodType | moduleRef
        | packageRef =>
      exact ⟨_, next, hpayload, rfl, rfl⟩
    case fieldRef | methodRef | interfaceMethodRef | nameAndType | dynamic | invokeDynamic =>
      obtain ⟨last, hfirst, hsecond⟩ := Cursor.consumes_append_iff.mp hpayload
      exact ⟨_, last, hfirst, _, next, hsecond, rfl, rfl⟩
    case methodHandle kind reference =>
      obtain ⟨last, hkind, hreference⟩ := Cursor.consumes_cons_iff.mp hpayload
      exact ⟨kind, last, hkind, reference, next, hreference, rfl, rfl⟩

theorem indexAfter_cons :
    indexAfter index (constant :: constants) = indexAfter (index + constant.width) constants := by
  rw [indexAfter, indexAfter, List.map_cons, List.sum_cons, Nat.add_assoc]

theorem fill_nil_iff : Fill count index [] ↔ count ≤ index := by
  constructor
  · exact Fill.le_end
  · intro hcount
    refine ⟨fun earlier constant later hsplit => ?_, hcount⟩
    cases earlier <;> cases hsplit

theorem fill_cons_iff :
    Fill count index (constant :: constants) ↔
      index < count ∧ Fill count (index + constant.width) constants := by
  constructor
  · rintro ⟨hstarts, hend⟩
    refine ⟨hstarts [] constant constants rfl, ?_, ?_⟩
    · rintro earlier next later rfl
      rw [← indexAfter_cons]
      exact hstarts (constant :: earlier) next later rfl
    · rwa [← indexAfter_cons]
  · rintro ⟨hindex, hstarts, hend⟩
    refine ⟨?_, ?_⟩
    · rintro (_ | ⟨first, earlier⟩) next later hsplit
      · exact hindex
      · obtain ⟨rfl, rfl⟩ := List.cons.inj hsplit
        rw [indexAfter_cons]
        exact hstarts earlier next later rfl
    · rwa [indexAfter_cons]

theorem inverts_readUpTo (count index : Nat) :
    Inverts (readUpTo count index)
      (fun constants => Fill count index constants ∧ ∀ constant ∈ constants, constant.Fits)
      (·.flatMap Constant.bytes) := by
  intro cursor constants next
  beta_reduce
  induction constants generalizing index cursor with
  | nil =>
      -- Reading stops exactly where the count is reached or passed.
      rw [readUpTo, fill_nil_iff, List.flatMap_nil, Cursor.consumes_nil_iff]
      split
      case isTrue hindex =>
        simp only [bind_eq_ok_iff, pure_eq_ok_iff, reduceCtorEq, false_and, and_false,
          exists_false, false_iff]
        rintro ⟨⟨hcount, -⟩, -⟩
        exact absurd hcount (Nat.not_le_of_lt hindex)
      case isFalse hindex =>
        simp [pure_eq_ok_iff, Nat.le_of_not_lt hindex]
  | cons constant constants ih =>
      rw [readUpTo, fill_cons_iff, List.flatMap_cons, Cursor.consumes_append_iff,
        List.forall_mem_cons]
      split
      case isTrue hindex =>
        simp only [bind_eq_ok_iff, pure_eq_ok_iff, inverts_read index _ _ _]
        constructor
        · rintro ⟨first, middle, ⟨hfits, hfront⟩, later, last, hlater, hsame, rfl⟩
          obtain ⟨rfl, rfl⟩ := List.cons.inj hsame
          obtain ⟨⟨hfill, hallFit⟩, hback⟩ := (ih _ _).mp hlater
          exact ⟨⟨⟨hindex, hfill⟩, hfits, hallFit⟩, middle, hfront, hback⟩
        · rintro ⟨⟨⟨-, hfill⟩, hfits, hallFit⟩, middle, hfront, hback⟩
          exact ⟨constant, middle, ⟨hfits, hfront⟩, constants, next,
            (ih _ _).mpr ⟨⟨hfill, hallFit⟩, hback⟩, rfl, rfl⟩
      case isFalse hindex =>
        simp [pure_eq_ok_iff, hindex]

end Constant

namespace Attribute

variable {pool : ConstantPool} {attr found : Attribute} {attributes : List Attribute}

theorem inverts_read : Inverts read Fits Attribute.bytes := by
  intro cursor attr next
  obtain ⟨name, body⟩ := attr
  simp only [read, bind_eq_ok_iff, u16_eq_ok_iff, u32_eq_ok_iff, block_eq_ok_iff,
    pure_eq_ok_iff, Attribute.bytes, Cursor.consumes_append_iff]
  constructor
  · rintro ⟨_, first, hname, length, second, hlength, _, _, ⟨hbody, hbytes⟩, hsame, rfl⟩
    obtain ⟨rfl, rfl⟩ := Attribute.mk.inj hsame
    obtain ⟨hfits, hcount⟩ := Cursor.consumes_ofNat_four_iff.mpr ⟨length, hbody, hlength⟩
    exact ⟨hfits, second, ⟨first, hname, hcount⟩, hbytes⟩
  · rintro ⟨hfits, second, ⟨first, hname, hcount⟩, hbytes⟩
    obtain ⟨length, hbody, hlength⟩ := Cursor.consumes_ofNat_four_iff.mp ⟨hfits, hcount⟩
    exact ⟨name, first, hname, length, second, hlength, body, next, ⟨hbody, hbytes⟩, rfl, rfl⟩

theorem inverts_times_read (count : Nat) :
    Inverts (read.times count)
      (fun attributes => attributes.length = count ∧ ∀ attr ∈ attributes, attr.Fits)
      (·.flatMap Attribute.bytes) :=
  inverts_read.times count

theorem inverts_readAll : Inverts readAll ListFits listBytes := by
  intro cursor attributes next
  simp only [readAll, bind_eq_ok_iff, u16_eq_ok_iff, inverts_times_read _ _ _ _, listBytes,
    Cursor.consumes_append_iff]
  constructor
  · rintro ⟨count, middle, hcount, ⟨hlength, hfits⟩, hbytes⟩
    obtain ⟨hlt, hfield⟩ := Cursor.consumes_ofNat_two_iff.mpr ⟨count, hlength, hcount⟩
    exact ⟨⟨hlt, hfits⟩, middle, hfield, hbytes⟩
  · rintro ⟨⟨hlt, hfits⟩, middle, hfield, hbytes⟩
    obtain ⟨count, hlength, hcount⟩ := Cursor.consumes_ofNat_two_iff.mp ⟨hlt, hfield⟩
    exact ⟨count, middle, hcount, ⟨hlength, hfits⟩, hbytes⟩

theorem code_eq_ok_iff {code : List UInt8} : attr.code = .ok code ↔ attr.HoldsCode code := by
  have hread : attr.code = .ok code ↔ code.length < 2 ^ 32 ∧ ∃ sizes : List UInt8,
      sizes.length = 4 ∧ sizes ++ BigEndian.ofNat 4 code.length ++ code <+: attr.body := by
    simp only [Attribute.code, Reader.run_eq_ok_iff, readCode, bind_eq_ok_iff, u32_eq_ok_iff,
      block_eq_ok_iff, ← Cursor.exists_consumes_start_iff, Cursor.consumes_append_iff]
    constructor
    · rintro ⟨next, sizes, first, ⟨hsizes, hfirst⟩, length, second, hlength, hcode, hbytes⟩
      obtain ⟨hlt, hcount⟩ := Cursor.consumes_ofNat_four_iff.mpr ⟨length, hcode, hlength⟩
      exact ⟨hlt, sizes, hsizes, next, second, ⟨first, hfirst, hcount⟩, hbytes⟩
    · rintro ⟨hlt, sizes, hsizes, next, second, ⟨first, hfirst, hcount⟩, hbytes⟩
      obtain ⟨length, hcode, hlength⟩ := Cursor.consumes_ofNat_four_iff.mp ⟨hlt, hcount⟩
      exact ⟨next, sizes, first, ⟨hsizes, hfirst⟩, length, second, hlength, hcode, hbytes⟩
  rw [hread, HoldsCode]
  refine and_congr_right fun _ => exists_congr fun sizes => ?_
  simp only [exists_and_left, List.IsPrefix, eq_comm]

theorem isCode_iff : attr.isCode pool ↔ pool.text? attr.name = some "Code" :=
  beq_iff_eq

theorem find?_isCode_eq_some_iff :
    attributes.find? (·.isCode pool) = some found ↔ IsFirstCode pool attributes found := by
  simp only [List.find?_eq_some_iff_append, IsFirstCode, ← isCode_iff, Bool.not_eq_true',
    ne_eq, Bool.not_eq_true]
  constructor
  · rintro ⟨hcode, earlier, later, hsplit, hearlier⟩
    exact ⟨earlier, later, hsplit, hcode, hearlier⟩
  · rintro ⟨earlier, later, hsplit, hcode, hearlier⟩
    exact ⟨hcode, earlier, later, hsplit, hearlier⟩

theorem firstCodeFits_nil : FirstCodeFits pool [] := by
  rintro found ⟨earlier, later, hsplit, -⟩
  cases earlier <;> cases hsplit

theorem firstCodeFits_cons_iff_of_isCode (hcode : attr.isCode pool) :
    FirstCodeFits pool (attr :: attributes) ↔ ∃ code, attr.HoldsCode code := by
  simp [FirstCodeFits, ← find?_isCode_eq_some_iff, hcode]

theorem firstCodeFits_cons_iff_of_not_isCode (hcode : ¬attr.isCode pool) :
    FirstCodeFits pool (attr :: attributes) ↔ FirstCodeFits pool attributes := by
  simp [FirstCodeFits, ← find?_isCode_eq_some_iff, hcode]

/-- The check of the code apart, the attributes of a method are read like any others. -/
theorem readChecked_eq_ok_iff {count : Nat} {checked : Bool} {cursor next : Cursor} :
    readChecked pool count checked cursor = .ok (attributes, next) ↔
      read.times count cursor = .ok (attributes, next) ∧
        (checked = false → FirstCodeFits pool attributes) := by
  -- The check may come with any attribute, so the flag changes along the induction.
  induction count generalizing checked cursor attributes next with
  | zero =>
      rw [readChecked, Reader.times, iff_self_and, pure_eq_ok_iff]
      rintro ⟨rfl, -⟩ -
      exact firstCodeFits_nil
  | succ count ih =>
      rw [readChecked, Reader.times]
      simp only [bind_eq_ok_iff, ← exists_and_right, and_assoc]
      refine exists_congr fun attr => exists_congr fun middle => and_congr_right fun hattr => ?_
      split
      case isTrue hcheck =>
        obtain ⟨hunchecked, hcode⟩ := Bool.and_eq_true_iff.mp hcheck
        cases hread : attr.code with
        | error failure =>
            simp only [fail_ne_ok, false_iff, pure_eq_ok_iff]
            rintro ⟨later, last, -, ⟨rfl, -⟩, hfits⟩
            obtain ⟨code, hholds⟩ :=
              (firstCodeFits_cons_iff_of_isCode hcode).mp (hfits (by simpa using hunchecked))
            cases hread.symm.trans (code_eq_ok_iff.mpr hholds)
        | ok code =>
            simp only [bind_eq_ok_iff, pure_eq_ok_iff, ih]
            constructor
            · rintro ⟨later, last, ⟨hlater, -⟩, rfl, rfl⟩
              refine ⟨later, last, hlater, ⟨rfl, rfl⟩, fun _ => ?_⟩
              exact (firstCodeFits_cons_iff_of_isCode hcode).mpr ⟨code, code_eq_ok_iff.mp hread⟩
            · rintro ⟨later, last, hlater, ⟨rfl, rfl⟩, -⟩
              have hchecked : true = false → Attribute.FirstCodeFits pool later :=
                fun hfalse => absurd hfalse (by decide)
              exact ⟨later, last, ⟨hlater, hchecked⟩, rfl, rfl⟩
      case isFalse hcheck =>
        have hrest (later : List Attribute) :
            (checked = false → FirstCodeFits pool (attr :: later)) ↔
              (checked = false → FirstCodeFits pool later) := by
          refine imp_congr_right fun hunchecked => firstCodeFits_cons_iff_of_not_isCode ?_
          simpa [hunchecked] using hcheck
        simp only [bind_eq_ok_iff, pure_eq_ok_iff, ih]
        constructor
        · rintro ⟨later, last, ⟨hlater, hfits⟩, rfl, rfl⟩
          exact ⟨later, last, hlater, ⟨rfl, rfl⟩, (hrest later).mpr hfits⟩
        · rintro ⟨later, last, hlater, ⟨rfl, rfl⟩, hfits⟩
          exact ⟨later, last, ⟨hlater, (hrest later).mp hfits⟩, rfl, rfl⟩

end Attribute

namespace Member

theorem inverts_readField :
    Inverts readField (fun field => Attribute.ListFits field.attributes) Member.bytes := by
  intro cursor field next
  simp only [readField, bind_eq_ok_iff, block_eq_ok_iff, pure_eq_ok_iff,
    Attribute.inverts_readAll _ _ _, Member.bytes]
  constructor
  · rintro ⟨header, middle, ⟨hlength, hheader⟩, attributes, _, ⟨hfits, hattributes⟩, rfl, rfl⟩
    have hhalf (index : Nat) (hindex : index + 2 ≤ header.length) :
        BigEndian.ofUInt16 (.ofNat (BigEndian.toNat ((header.drop index).take 2))) =
          (header.drop index).take 2 := by
      apply BigEndian.ofUInt16_ofNat_toNat
      rw [List.length_take, List.length_drop]
      omega
    have hcut : header.take 2 ++ (header.drop 2).take 2 ++ (header.drop 4).take 2 = header := by
      match header, hlength with
      | [_, _, _, _, _, _], _ => rfl
    refine ⟨hfits, ?_⟩
    rw [hhalf 0 (by omega), hhalf 2 (by omega), hhalf 4 (by omega), List.drop_zero, hcut]
    exact hheader.append hattributes
  · rintro ⟨hfits, hbytes⟩
    obtain ⟨middle, hheader, hattributes⟩ := Cursor.consumes_append_iff.mp hbytes
    have hhalf := BigEndian.ofNat_toNat_ofUInt16
    refine ⟨_, middle, ⟨rfl, hheader⟩, field.attributes, next, ⟨hfits, hattributes⟩, ?_, rfl⟩
    rw [Member.mk.injEq]
    exact ⟨hhalf field.access, hhalf field.name, hhalf field.descriptor, rfl⟩

theorem inverts_readMethod (pool : ConstantPool) :
    Inverts (readMethod pool)
      (fun method => Attribute.ListFits method.attributes ∧
        Attribute.FirstCodeFits pool method.attributes)
      Member.bytes := by
  intro cursor method next
  simp only [readMethod, bind_eq_ok_iff, u16_eq_ok_iff, pure_eq_ok_iff,
    Attribute.readChecked_eq_ok_iff, Attribute.inverts_times_read _ _ _ _, Member.bytes,
    Attribute.listBytes, Cursor.consumes_append_iff]
  constructor
  · rintro ⟨access, first, haccess, name, second, hname, descriptor, third, hdescriptor, count,
      fourth, hcount, attributes, _, ⟨⟨⟨hlength, hfits⟩, hattributes⟩, hcode⟩, rfl, rfl⟩
    obtain ⟨hlt, hfield⟩ := Cursor.consumes_ofNat_two_iff.mpr ⟨count, hlength, hcount⟩
    exact ⟨⟨⟨hlt, hfits⟩, hcode trivial⟩, third, ⟨second, ⟨first, haccess, hname⟩, hdescriptor⟩,
      fourth, hfield, hattributes⟩
  · rintro ⟨⟨⟨hlt, hfits⟩, hcode⟩, third, ⟨second, ⟨first, haccess, hname⟩, hdescriptor⟩,
      fourth, hfield, hattributes⟩
    obtain ⟨count, hlength, hcount⟩ := Cursor.consumes_ofNat_two_iff.mp ⟨hlt, hfield⟩
    exact ⟨method.access, first, haccess, method.name, second, hname, method.descriptor, third,
      hdescriptor, count, fourth, hcount, method.attributes, next,
      ⟨⟨⟨hlength, hfits⟩, hattributes⟩, fun _ => hcode⟩, rfl, rfl⟩

end Member

namespace ClassImage

theorem halves_flatMap_ofUInt16 (numbers : List UInt16) :
    halves (numbers.flatMap BigEndian.ofUInt16) = numbers := by
  induction numbers with
  | nil => rfl
  | cons number numbers ih =>
      have hnumber := BigEndian.ofNat_toNat_ofUInt16 number
      exact congrArg₂ List.cons hnumber ih

theorem length_flatMap_ofUInt16 (numbers : List UInt16) :
    (numbers.flatMap BigEndian.ofUInt16).length = 2 * numbers.length := by
  simp [List.length_flatMap, BigEndian.ofUInt16, Nat.mul_comm]

/-- Cutting a block of even length undoes writing, and the other way round. -/
theorem halves_eq_iff {block : List UInt8} {numbers : List UInt16} {count : Nat} :
    block.length = 2 * count ∧ halves block = numbers ↔
      numbers.length = count ∧ block = numbers.flatMap BigEndian.ofUInt16 := by
  constructor
  · rintro ⟨hlength, rfl⟩
    induction count generalizing block with
    | zero =>
        obtain rfl := List.length_eq_zero_iff.mp hlength
        exact ⟨rfl, rfl⟩
    | succ count ih =>
        match block with
        | high :: low :: rest =>
          obtain ⟨hcount, hrest⟩ := @ih rest (by grind)
          have hfield : BigEndian.ofUInt16 (.ofNat (BigEndian.toNat [high, low])) = [high, low] :=
            BigEndian.ofUInt16_ofNat_toNat rfl
          rw [halves, List.length_cons, hcount, List.flatMap_cons, hfield, ← hrest]
          exact ⟨rfl, rfl⟩
  · rintro ⟨rfl, rfl⟩
    exact ⟨length_flatMap_ofUInt16 numbers, halves_flatMap_ofUInt16 numbers⟩

theorem inverts_read : Inverts read WellFormed ClassImage.bytes := by
  intro cursor image next
  simp only [read, bind_eq_ok_iff, u16_eq_ok_iff, u32_eq_ok_iff, block_eq_ok_iff,
    pure_eq_ok_iff, ite_fail_eq_ok_iff, Constant.inverts_readUpTo _ _ _ _ _,
    Member.inverts_readField.times _ _ _ _, (Member.inverts_readMethod _).times _ _ _ _,
    Attribute.inverts_readAll _ _ _, ClassImage.bytes, List.append_assoc,
    Cursor.consumes_append_iff]
  constructor
  · rintro ⟨found, _, hmagic, hfound, minor, _, hminor, major, _, hmajor,
      poolCount, _, hpoolCount, constants, _, ⟨⟨hfill, hconstantsFit⟩, hconstants⟩,
      access, _, haccess, thisClass, _, hthis, superClass, _, hsuper,
      interfaceCount, _, hinterfaceCount, block, _, ⟨hblock, hinterfaces⟩,
      fieldCount, _, hfieldCount, fields, _, ⟨⟨hfieldsLength, hfieldsFit⟩, hfields⟩,
      methodCount, _, hmethodCount, methods, _, ⟨⟨hmethodsLength, hmethodsFit⟩, hmethods⟩,
      attributes, _, ⟨hattributesFit, hattributes⟩, rfl, rfl⟩
    obtain rfl := not_not.mp hfound
    obtain ⟨hinterfacesLength, hcut⟩ := halves_eq_iff.mp ⟨hblock, rfl⟩
    rw [hcut] at hinterfaces
    obtain ⟨hinterfacesLt, hinterfaceField⟩ :=
      Cursor.consumes_ofNat_two_iff.mpr ⟨interfaceCount, hinterfacesLength, hinterfaceCount⟩
    obtain ⟨hfieldsLt, hfieldField⟩ :=
      Cursor.consumes_ofNat_two_iff.mpr ⟨fieldCount, hfieldsLength, hfieldCount⟩
    obtain ⟨hmethodsLt, hmethodField⟩ :=
      Cursor.consumes_ofNat_two_iff.mpr ⟨methodCount, hmethodsLength, hmethodCount⟩
    exact ⟨⟨hconstantsFit, hfill, hinterfacesLt, hfieldsLt, hfieldsFit, hmethodsLt, hmethodsFit,
        hattributesFit⟩,
      _, hmagic, _, hminor, _, hmajor, _, hpoolCount, _, hconstants, _, haccess, _, hthis,
      _, hsuper, _, hinterfaceField, _, hinterfaces, _, hfieldField, _, hfields,
      _, hmethodField, _, hmethods, hattributes⟩
  · rintro ⟨⟨hconstantsFit, hfill, hinterfacesLt, hfieldsLt, hfieldsFit, hmethodsLt, hmethodsFit,
        hattributesFit⟩,
      _, hmagic, _, hminor, _, hmajor, _, hpoolCount, _, hconstants, _, haccess, _, hthis,
      _, hsuper, _, hinterfaceField, _, hinterfaces, _, hfieldField, _, hfields,
      _, hmethodField, _, hmethods, hattributes⟩
    obtain ⟨interfaceCount, hinterfacesLength, hinterfaceCount⟩ :=
      Cursor.consumes_ofNat_two_iff.mp ⟨hinterfacesLt, hinterfaceField⟩
    obtain ⟨fieldCount, hfieldsLength, hfieldCount⟩ :=
      Cursor.consumes_ofNat_two_iff.mp ⟨hfieldsLt, hfieldField⟩
    obtain ⟨methodCount, hmethodsLength, hmethodCount⟩ :=
      Cursor.consumes_ofNat_two_iff.mp ⟨hmethodsLt, hmethodField⟩
    obtain ⟨hblock, hcut⟩ := halves_eq_iff.mpr ⟨hinterfacesLength, rfl⟩
    refine ⟨magic, _, hmagic, not_not.mpr rfl, image.minor, _, hminor, image.major, _, hmajor,
      image.poolCount, _, hpoolCount, image.constants, _, ⟨⟨hfill, hconstantsFit⟩, hconstants⟩,
      image.access, _, haccess, image.thisClass, _, hthis, image.superClass, _, hsuper,
      interfaceCount, _, hinterfaceCount, _, _, ⟨hblock, hinterfaces⟩,
      fieldCount, _, hfieldCount, image.fields, _, ⟨⟨hfieldsLength, hfieldsFit⟩, hfields⟩,
      methodCount, _, hmethodCount, image.methods, _, ⟨⟨hmethodsLength, hmethodsFit⟩, hmethods⟩,
      image.attributes, _, ⟨hattributesFit, hattributes⟩, ?_, rfl⟩
    rw [hcut]

end ClassImage

end ClassWarden
