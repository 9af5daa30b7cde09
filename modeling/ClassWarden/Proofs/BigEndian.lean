import ClassWarden.Binary.BigEndian
import Mathlib.Data.List.Induction
import Mathlib.Algebra.Order.Ring.Nat

/-!
# Reading and writing big-endian integers

Writing a number gives exactly the bytes that it is read from: numbers below a
power of 256 and byte strings of that many bytes are in one-to-one
correspondence.
-/

namespace ClassWarden.BigEndian

variable {bytes : List UInt8} {width value : Nat}

theorem toNat_append_singleton (bytes : List UInt8) (byte : UInt8) :
    toNat (bytes ++ [byte]) = 256 * toNat bytes + byte.toNat := by
  rw [toNat, List.foldl_append]
  rfl

@[simp]
theorem length_ofNat (width value : Nat) : (ofNat width value).length = width := by
  induction width generalizing value with
  | zero => rfl
  | succ width ih => rw [ofNat, List.length_append, ih, List.length_singleton]

theorem toNat_ofNat (width value : Nat) : toNat (ofNat width value) = value % 256 ^ width := by
  induction width generalizing value with
  | zero => rw [pow_zero, Nat.mod_one]; rfl
  | succ width ih =>
      have hbyte : (UInt8.ofNat value).toNat = value % 256 := UInt8.toNat_ofNat'
      rw [ofNat, toNat_append_singleton, ih, hbyte, pow_succ', Nat.mod_mul, Nat.add_comm]

theorem toNat_ofNat_of_lt (hvalue : value < 256 ^ width) :
    toNat (ofNat width value) = value := by
  rw [toNat_ofNat, Nat.mod_eq_of_lt hvalue]

theorem toNat_lt (bytes : List UInt8) : toNat bytes < 256 ^ bytes.length := by
  induction bytes using List.reverseRecOn with
  | nil => exact Nat.one_pos
  | append_singleton bytes byte ih =>
      have hbyte : byte.toNat < 256 := byte.toNat_lt
      rw [toNat_append_singleton, List.length_append, List.length_singleton, pow_succ']
      omega

theorem ofNat_toNat (bytes : List UInt8) : ofNat bytes.length (toNat bytes) = bytes := by
  induction bytes using List.reverseRecOn with
  | nil => rfl
  | append_singleton bytes byte ih =>
      have hbyte : byte.toNat < 256 := byte.toNat_lt
      have hhigh : (256 * toNat bytes + byte.toNat) / 256 = toNat bytes := by
        omega
      have hlow : UInt8.ofNat (256 * toNat bytes + byte.toNat) = byte := by
        apply UInt8.toNat_inj.mp
        rw [UInt8.toNat_ofNat']
        omega
      rw [toNat_append_singleton, List.length_append, List.length_singleton, ofNat, hhigh, ih,
        hlow]

theorem ofNat_toNat_of_length (hlength : bytes.length = width) :
    ofNat width (toNat bytes) = bytes := by
  rw [← hlength, ofNat_toNat]

theorem ofNat_toNat_ofUInt16 (value : UInt16) :
    UInt16.ofNat (toNat (ofUInt16 value)) = value := by
  rw [ofUInt16, toNat_ofNat_of_lt value.toNat_lt, UInt16.ofNat_toNat]

theorem ofUInt16_ofNat_toNat (hlength : bytes.length = 2) :
    ofUInt16 (UInt16.ofNat (toNat bytes)) = bytes := by
  have hbound : toNat bytes < UInt16.size := by
    have hlt := toNat_lt bytes
    rwa [hlength] at hlt
  rw [ofUInt16, UInt16.toNat_ofNat_of_lt' hbound, ofNat_toNat_of_length hlength]

/-! ## Signed fields -/

@[simp]
theorem length_ofInt32 (value : Int32) : (ofInt32 value).length = 4 :=
  length_ofNat 4 _

theorem toInt_eq_bmod (value : Int32) :
    value.toInt = Int.bmod value.toUInt32.toNat UInt32.size :=
  BitVec.toInt_eq_toNat_bmod value.toBitVec

theorem int32?_ofInt32_append (value : Int32) (rest : List UInt8) :
    int32? (ofInt32 value ++ rest) = some value.toInt := by
  have hfield : (ofInt32 value ++ rest).take 4 = ofInt32 value :=
    List.take_left' (length_ofInt32 value)
  have hvalue : toNat (ofInt32 value) = value.toUInt32.toNat :=
    toNat_ofNat_of_lt value.toUInt32.toNat_lt
  rw [int32?, hfield, length_ofInt32, hvalue, toInt_eq_bmod]
  rfl

theorem int32?_bounds {value : Int} (hvalue : int32? bytes = some value) :
    -2 ^ 31 ≤ value ∧ value < 2 ^ 31 := by
  rw [int32?] at hvalue
  split at hvalue
  case isTrue =>
    obtain rfl := Option.some.inj hvalue
    exact ⟨Int.le_bmod (by decide), Int.bmod_lt (by decide)⟩
  case isFalse => cases hvalue

/-- Four bytes that are read as a signed integer are the bytes of one. -/
theorem exists_ofInt32_of_int32? {rest : List UInt8} {value : Int} (hlength : bytes.length = 4)
    (hvalue : int32? (bytes ++ rest) = some value) :
    ∃ field : Int32, field.toInt = value ∧ bytes = ofInt32 field := by
  have hbound : toNat bytes < UInt32.size := by
    have hlt := toNat_lt bytes
    rwa [hlength] at hlt
  have hfield : (UInt32.ofNat (toNat bytes)).toInt32.toUInt32.toNat = toNat bytes := by
    rw [UInt32.toUInt32_toInt32, UInt32.toNat_ofNat', Nat.mod_eq_of_lt hbound]
  rw [int32?, List.take_left' hlength, if_pos hlength] at hvalue
  refine ⟨(UInt32.ofNat (toNat bytes)).toInt32, ?_, ?_⟩
  · rw [toInt_eq_bmod, hfield]
    exact Option.some.inj hvalue
  · rw [ofInt32, ofUInt32, hfield, ofNat_toNat_of_length hlength]

end ClassWarden.BigEndian
