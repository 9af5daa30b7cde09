import ClassWarden.Digest.Sha256
import ClassWarden.Proofs.BigEndian

/-!
# Reading hexadecimal text

A text is read as bytes exactly if it is, but for the letter case, the text of those
bytes.  So bytes and lower-case text determine each other, and a reported digest stands
for thirty-two bytes and no others.
-/

namespace ClassWarden

namespace Hex

variable {digit first second : Char} {value high low : Nat} {byte : UInt8}
variable {bytes read : List UInt8} {chars : List Char} {text : String}

theorem toLower_of_le (hdigit : 128 ≤ digit.toNat) : digit.toLower = digit := by
  apply dif_neg
  rintro ⟨-, hle⟩
  have hbound : digit.toNat ≤ 90 := hle
  omega

theorem digitValue?_toLower (digit : Char) : digitValue? digit.toLower = digitValue? digit := by
  have htable : ∀ place < 128,
      digitValue? (Char.ofNat place).toLower = digitValue? (Char.ofNat place) := by
    decide +kernel
  -- Beyond ASCII no character has another one in lower case.
  obtain hascii | hother := Nat.lt_or_ge digit.toNat 128
  · simpa only [Char.ofNat_toNat] using htable digit.toNat hascii
  · rw [toLower_of_le hother]

theorem toNat_lt_of_digitValue? (hdigit : digitValue? digit = some value) :
    digit.toNat < 128 := by
  rw [digitValue?] at hdigit
  split at hdigit
  case isTrue hrange => exact Nat.lt_of_le_of_lt (m := 57) hrange.2 (by decide)
  case isFalse =>
    split at hdigit
    case isTrue hrange => exact Nat.lt_of_le_of_lt (m := 102) hrange.2 (by decide)
    case isFalse =>
      split at hdigit
      case isTrue hrange => exact Nat.lt_of_le_of_lt (m := 70) hrange.2 (by decide)
      case isFalse => cases hdigit

/-- A digit stands for a value exactly if it is, in lower case, the one that the value
is written as. -/
theorem digitValue?_eq_some_iff :
    digitValue? digit = some value ↔ value < 16 ∧ Nat.digitChar value = digit.toLower := by
  constructor
  · intro hdigit
    have htable : ∀ place < 128, ∀ value ∈ digitValue? (Char.ofNat place),
        value < 16 ∧ Nat.digitChar value = (Char.ofNat place).toLower := by
      decide +kernel
    have hrow := htable digit.toNat (toNat_lt_of_digitValue? hdigit) value
    rw [Char.ofNat_toNat] at hrow
    exact hrow hdigit
  · rintro ⟨hvalue, hdigit⟩
    rw [← digitValue?_toLower, ← hdigit, digitValue?_digitChar hvalue]

theorem pair_ofNat (hhigh : high < 16) (hlow : low < 16) :
    pair (UInt8.ofNat (16 * high + low)) = [Nat.digitChar high, Nat.digitChar low] := by
  have hbyte : (UInt8.ofNat (16 * high + low)).toNat = 16 * high + low :=
    UInt8.toNat_ofNat_of_lt (Nat.lt_of_lt_of_le (m := 256) (by omega) (by decide))
  have hquotient : (16 * high + low) / 16 = high := by omega
  have hremainder : (16 * high + low) % 16 = low := by omega
  rw [pair, hbyte, hquotient, hremainder]

/-- Two digits stand for the byte that they are, in lower case, the digits of. -/
theorem pair_eq_toLower_iff :
    pair byte = [first.toLower, second.toLower] ↔
      ∃ high low, digitValue? first = some high ∧ digitValue? second = some low ∧
        byte = UInt8.ofNat (16 * high + low) := by
  constructor
  · intro hpair
    obtain ⟨hfirst, hsecond⟩ := List.cons.inj hpair
    have hbyte := byte.toNat_lt
    refine ⟨byte.toNat / 16, byte.toNat % 16, ?_, ?_, ?_⟩
    · exact digitValue?_eq_some_iff.mpr ⟨by omega, hfirst⟩
    · exact digitValue?_eq_some_iff.mpr ⟨by omega, (List.cons.inj hsecond).1⟩
    · rw [Nat.div_add_mod, UInt8.ofNat_toNat]
  · rintro ⟨high, low, hhigh, hlow, rfl⟩
    obtain ⟨hhighLt, hhigh⟩ := digitValue?_eq_some_iff.mp hhigh
    obtain ⟨hlowLt, hlow⟩ := digitValue?_eq_some_iff.mp hlow
    rw [pair_ofNat hhighLt hlowLt, hhigh, hlow]

theorem decodeOnto_cons_cons_iff :
    decodeOnto read (first :: second :: chars) = some bytes ↔
      ∃ byte, pair byte = [first.toLower, second.toLower] ∧
        decodeOnto (byte :: read) chars = some bytes := by
  simp only [pair_eq_toLower_iff]
  rw [decodeOnto]
  constructor
  · intro hdecode
    split at hdecode
    case h_1 high low hhigh hlow => exact ⟨_, ⟨high, low, hhigh, hlow, rfl⟩, hdecode⟩
    case h_2 => cases hdecode
  · rintro ⟨_, ⟨high, low, hhigh, hlow, rfl⟩, hdecode⟩
    rw [hhigh, hlow]
    exact hdecode

theorem flatMap_pair_ne_singleton (bytes : List UInt8) (digit : Char) :
    bytes.flatMap pair ≠ [digit] := by
  intro hdigits
  cases bytes with
  | nil => cases hdigits
  | cons byte bytes => cases hdigits

theorem flatMap_pair_eq_cons_cons_iff :
    bytes.flatMap pair = first :: second :: chars ↔
      ∃ byte later, bytes = byte :: later ∧ pair byte = [first, second] ∧
        later.flatMap pair = chars := by
  constructor
  · intro hdigits
    cases bytes with
    | nil => cases hdigits
    | cons byte later =>
        have hsplit : pair byte ++ later.flatMap pair = [first, second] ++ chars := hdigits
        obtain ⟨hpair, hlater⟩ := List.append_inj hsplit rfl
        exact ⟨byte, later, rfl, hpair, hlater⟩
  · rintro ⟨byte, later, rfl, hpair, rfl⟩
    rw [List.flatMap_cons, hpair]
    rfl

/-- What is read goes behind the bytes that were read before. -/
theorem decodeOnto_eq_some_iff (read : List UInt8) (chars : List Char) :
    decodeOnto read chars = some bytes ↔
      ∃ later, bytes = read.reverse ++ later ∧ later.flatMap pair = chars.map Char.toLower := by
  induction chars using List.twoStepInduction generalizing read with
  | nil =>
      rw [decodeOnto, Option.some.injEq]
      constructor
      · rintro rfl
        exact ⟨[], (List.append_nil _).symm, rfl⟩
      · rintro ⟨later, rfl, hlater⟩
        cases later with
        | nil => exact (List.append_nil _).symm
        | cons byte later => cases hlater
  | singleton digit =>
      refine iff_of_false (fun hdecode => by cases hdecode) ?_
      rintro ⟨later, -, hlater⟩
      exact flatMap_pair_ne_singleton later _ hlater
  | cons_cons first second chars ih _ =>
      simp only [decodeOnto_cons_cons_iff, ih, List.map_cons, flatMap_pair_eq_cons_cons_iff]
      constructor
      · rintro ⟨byte, hpair, later, rfl, hlater⟩
        exact ⟨byte :: later, by simp, byte, later, rfl, hpair, hlater⟩
      · rintro ⟨_, rfl, byte, later, rfl, hpair, hlater⟩
        exact ⟨byte, hpair, later, by simp, hlater⟩

theorem toList_toLower (text : String) : text.toLower.toList = text.toList.map Char.toLower :=
  String.toList_map

/-- A text stands for the bytes that it is, in lower case, the text of. -/
theorem decode?_eq_some_iff : decode? text = some bytes ↔ encode bytes = text.toLower := by
  rw [decode?, decodeOnto_eq_some_iff, encode, ← String.toList_inj, toList_toLower,
    String.toList_ofList]
  simp

theorem decode?_encode (bytes : List UInt8) : decode? (encode bytes) = some bytes := by
  have hdigit : ∀ value < 16, (Nat.digitChar value).toLower = Nat.digitChar value := by
    decide
  have hpair : ∀ byte, (pair byte).map Char.toLower = pair byte := by
    intro byte
    have hbyte := byte.toNat_lt
    rw [pair, List.map_cons, List.map_singleton, hdigit _ (by omega), hdigit _ (by omega)]
  rw [decode?_eq_some_iff, ← String.toList_inj, toList_toLower, encode, String.toList_ofList,
    List.map_flatMap]
  simp only [hpair]

theorem encode_injective : Function.Injective encode := by
  intro left right hsame
  have hleft := decode?_encode left
  rw [hsame, decode?_encode] at hleft
  exact (Option.some.inj hleft).symm

end Hex

namespace Sha256

theorem length_digest (message : List UInt8) : (digest message).length = 32 := by
  rfl

/-- Digests that are reported alike are the same bytes. -/
theorem text_eq_text_iff {left right : List UInt8} :
    text left = text right ↔ digest left = digest right :=
  Hex.encode_injective.eq_iff

end Sha256

end ClassWarden
