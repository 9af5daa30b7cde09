import ClassWarden.Binary.Reader
import ClassWarden.Proofs.BigEndian

/-!
# What readers consume

A reader that succeeds has taken some bytes off the front and nothing else.
Where the bytes are those that a writer gives for the value read, and every
value within certain bounds is read back from its bytes, reading and writing
determine each other.  Such a description of a reader is a single equivalence,
and the descriptions of its parts rewrite into it.
-/

namespace ClassWarden

/-- The bytes between two cursors. -/
structure Cursor.Consumes (cursor : Cursor) (bytes : List UInt8) (next : Cursor) : Prop where
  rest_eq : cursor.rest = bytes ++ next.rest
  offset_eq : next.offset = cursor.offset + bytes.length

namespace Cursor

variable {cursor middle next : Cursor} {front back bytes : List UInt8}

theorem consumes_nil_iff : cursor.Consumes [] next ↔ cursor = next := by
  obtain ⟨offset, rest⟩ := cursor
  obtain ⟨nextOffset, nextRest⟩ := next
  constructor
  · rintro ⟨hrest, hoffset⟩
    rw [mk.injEq]
    exact ⟨hoffset.symm, hrest⟩
  · intro hsame
    cases hsame
    exact ⟨rfl, rfl⟩

theorem consumes_append_iff :
    cursor.Consumes (front ++ back) next ↔
      ∃ middle, cursor.Consumes front middle ∧ middle.Consumes back next := by
  constructor
  · rintro ⟨hrest, hoffset⟩
    refine ⟨⟨cursor.offset + front.length, back ++ next.rest⟩, ⟨?_, rfl⟩, ⟨rfl, ?_⟩⟩
    · rw [hrest, List.append_assoc]
    · rw [hoffset, List.length_append, Nat.add_assoc]
  · rintro ⟨middle, ⟨hfront, hmiddle⟩, hback, hnext⟩
    refine ⟨?_, ?_⟩
    · rw [hfront, hback, List.append_assoc]
    · rw [hnext, hmiddle, List.length_append, Nat.add_assoc]

theorem Consumes.append (hfront : cursor.Consumes front middle)
    (hback : middle.Consumes back next) : cursor.Consumes (front ++ back) next :=
  consumes_append_iff.mpr ⟨middle, hfront, hback⟩

theorem consumes_cons_iff {byte : UInt8} :
    cursor.Consumes (byte :: bytes) next ↔
      ∃ middle, cursor.Consumes [byte] middle ∧ middle.Consumes bytes next := by
  rw [← List.singleton_append, consumes_append_iff]

theorem exists_consumes_start_iff {data : List UInt8} :
    (∃ next, (start data).Consumes bytes next) ↔ bytes <+: data := by
  constructor
  · rintro ⟨next, hrest, -⟩
    exact ⟨next.rest, hrest.symm⟩
  · rintro ⟨rest, hdata⟩
    exact ⟨⟨bytes.length, rest⟩, hdata.symm, (Nat.zero_add _).symm⟩

/-! Counts and lengths fit into the fields that announce them. -/

theorem consumes_ofNat_two_iff {count : Nat} :
    count < 2 ^ 16 ∧ cursor.Consumes (BigEndian.ofNat 2 count) next ↔
      ∃ field : UInt16, count = field.toNat ∧
        cursor.Consumes (BigEndian.ofUInt16 field) next := by
  constructor
  · rintro ⟨hcount, hconsumes⟩
    have hfield := UInt16.toNat_ofNat_of_lt' hcount
    refine ⟨.ofNat count, hfield.symm, ?_⟩
    rwa [BigEndian.ofUInt16, hfield]
  · rintro ⟨field, rfl, hconsumes⟩
    exact ⟨field.toNat_lt, hconsumes⟩

theorem consumes_ofNat_four_iff {count : Nat} :
    count < 2 ^ 32 ∧ cursor.Consumes (BigEndian.ofNat 4 count) next ↔
      ∃ field : UInt32, count = field.toNat ∧
        cursor.Consumes (BigEndian.ofUInt32 field) next := by
  constructor
  · rintro ⟨hcount, hconsumes⟩
    have hfield := UInt32.toNat_ofNat_of_lt' hcount
    refine ⟨.ofNat count, hfield.symm, ?_⟩
    rwa [BigEndian.ofUInt32, hfield]
  · rintro ⟨field, rfl, hconsumes⟩
    exact ⟨field.toNat_lt, hconsumes⟩

end Cursor

namespace Reader

variable {α β : Type} {cursor next : Cursor} {value : α} {context : String}

theorem pure_eq_ok_iff {given : α} :
    (pure given : Reader α) cursor = .ok (value, next) ↔ given = value ∧ cursor = next := by
  constructor
  · intro hpure
    cases hpure
    exact ⟨rfl, rfl⟩
  · rintro ⟨rfl, rfl⟩
    rfl

theorem bind_eq_ok_iff {read : Reader β} {step : β → Reader α} :
    (read >>= step) cursor = .ok (value, next) ↔
      ∃ first middle, read cursor = .ok (first, middle) ∧ step first middle = .ok (value, next) := by
  cases hread : read cursor with
  | error failure => simp [bind, StateT.bind, hread, Except.bind]
  | ok result =>
      obtain ⟨first, middle⟩ := result
      simp [bind, StateT.bind, hread, Except.bind]

theorem fail_ne_ok {failure : DecodeError} :
    (fail failure : Reader α) cursor ≠ .ok (value, next) := by
  simp [fail]

theorem ite_fail_eq_ok_iff {condition : Prop} [Decidable condition] {failure : DecodeError}
    {read : Reader α} :
    (if condition then fail failure else read) cursor = .ok (value, next) ↔
      ¬condition ∧ read cursor = .ok (value, next) := by
  split
  case isTrue hcondition => exact iff_of_false fail_ne_ok fun hread => hread.1 hcondition
  case isFalse hcondition => exact (and_iff_right hcondition).symm

theorem block_eq_ok_iff {size : Nat} {bytes : List UInt8} :
    block context size cursor = .ok (bytes, next) ↔
      bytes.length = size ∧ cursor.Consumes bytes next := by
  rw [block]
  constructor
  · intro hblock
    split at hblock
    case isFalse => cases hblock
    case isTrue hlength =>
      cases hblock
      refine ⟨hlength, (List.take_append_drop size cursor.rest).symm, ?_⟩
      rw [hlength]
  · rintro ⟨rfl, hrest, hoffset⟩
    obtain ⟨nextOffset, nextRest⟩ := next
    subst hoffset
    simp [hrest]

theorem number_eq_ok_iff {size number : Nat} :
    Reader.number context size cursor = .ok (number, next) ↔
      number < 256 ^ size ∧ cursor.Consumes (BigEndian.ofNat size number) next := by
  simp only [Reader.number, bind_eq_ok_iff, block_eq_ok_iff, pure_eq_ok_iff]
  constructor
  · rintro ⟨bytes, middle, ⟨rfl, hconsumes⟩, rfl, rfl⟩
    rw [BigEndian.ofNat_toNat]
    exact ⟨BigEndian.toNat_lt bytes, hconsumes⟩
  · rintro ⟨hnumber, hconsumes⟩
    exact ⟨_, next, ⟨BigEndian.length_ofNat size number, hconsumes⟩,
      BigEndian.toNat_ofNat_of_lt hnumber, rfl⟩

theorem u8_eq_ok_iff {byte : UInt8} :
    u8 context cursor = .ok (byte, next) ↔ cursor.Consumes [byte] next := by
  simp only [u8, bind_eq_ok_iff, number_eq_ok_iff, pure_eq_ok_iff]
  constructor
  · rintro ⟨number, middle, ⟨hnumber, hconsumes⟩, rfl, rfl⟩
    exact hconsumes
  · intro hconsumes
    refine ⟨byte.toNat, next, ⟨byte.toNat_lt, ?_⟩, UInt8.ofNat_toNat, rfl⟩
    rwa [BigEndian.ofNat, BigEndian.ofNat, UInt8.ofNat_toNat]

theorem u16_eq_ok_iff {half : UInt16} :
    u16 context cursor = .ok (half, next) ↔ cursor.Consumes (BigEndian.ofUInt16 half) next := by
  simp only [u16, bind_eq_ok_iff, number_eq_ok_iff, pure_eq_ok_iff, BigEndian.ofUInt16]
  constructor
  · rintro ⟨number, middle, ⟨hnumber, hconsumes⟩, rfl, rfl⟩
    rwa [UInt16.toNat_ofNat_of_lt' hnumber]
  · intro hconsumes
    exact ⟨half.toNat, next, ⟨half.toNat_lt, hconsumes⟩, UInt16.ofNat_toNat, rfl⟩

theorem u32_eq_ok_iff {word : UInt32} :
    u32 context cursor = .ok (word, next) ↔ cursor.Consumes (BigEndian.ofUInt32 word) next := by
  simp only [u32, bind_eq_ok_iff, number_eq_ok_iff, pure_eq_ok_iff, BigEndian.ofUInt32]
  constructor
  · rintro ⟨number, middle, ⟨hnumber, hconsumes⟩, rfl, rfl⟩
    rwa [UInt32.toNat_ofNat_of_lt' hnumber]
  · intro hconsumes
    exact ⟨word.toNat, next, ⟨word.toNat_lt, hconsumes⟩, UInt32.ofNat_toNat, rfl⟩

theorem u64_eq_ok_iff {long : UInt64} :
    u64 context cursor = .ok (long, next) ↔ cursor.Consumes (BigEndian.ofUInt64 long) next := by
  simp only [u64, bind_eq_ok_iff, number_eq_ok_iff, pure_eq_ok_iff, BigEndian.ofUInt64]
  constructor
  · rintro ⟨number, middle, ⟨hnumber, hconsumes⟩, rfl, rfl⟩
    rwa [UInt64.toNat_ofNat_of_lt' hnumber]
  · intro hconsumes
    exact ⟨long.toNat, next, ⟨long.toNat_lt, hconsumes⟩, UInt64.ofNat_toNat, rfl⟩

/-- The reader succeeds exactly with the values it allows, each on the bytes
that are written for it. -/
def Inverts (read : Reader α) (allowed : α → Prop) (write : α → List UInt8) : Prop :=
  ∀ cursor value next,
    read cursor = .ok (value, next) ↔ allowed value ∧ cursor.Consumes (write value) next

theorem Inverts.times {read : Reader α} {allowed : α → Prop} {write : α → List UInt8}
    (hread : Inverts read allowed write) (count : Nat) :
    Inverts (read.times count)
      (fun values => values.length = count ∧ ∀ value ∈ values, allowed value)
      (·.flatMap write) := by
  intro cursor values next
  induction count generalizing cursor values next with
  | zero =>
      rw [Reader.times, pure_eq_ok_iff]
      constructor
      · rintro ⟨rfl, rfl⟩
        exact ⟨⟨rfl, by simp⟩, Cursor.consumes_nil_iff.mpr rfl⟩
      · rintro ⟨⟨hlength, -⟩, hconsumes⟩
        obtain rfl := List.length_eq_zero_iff.mp hlength
        exact ⟨rfl, Cursor.consumes_nil_iff.mp hconsumes⟩
  | succ count ih =>
      simp only [Reader.times, bind_eq_ok_iff, pure_eq_ok_iff, hread _ _ _, ih]
      constructor
      · rintro ⟨value, middle, ⟨hvalue, hfront⟩, later, last, ⟨⟨rfl, hlater⟩, hback⟩, rfl, rfl⟩
        exact ⟨⟨rfl, List.forall_mem_cons.mpr ⟨hvalue, hlater⟩⟩, hfront.append hback⟩
      · rintro ⟨⟨hlength, hallowed⟩, hconsumes⟩
        cases values with
        | nil => cases hlength
        | cons value later =>
            obtain ⟨hvalue, hlater⟩ := List.forall_mem_cons.mp hallowed
            obtain ⟨middle, hfront, hback⟩ := Cursor.consumes_append_iff.mp hconsumes
            exact ⟨value, middle, ⟨hvalue, hfront⟩, later, next,
              ⟨⟨Nat.succ.inj hlength, hlater⟩, hback⟩, rfl, rfl⟩

theorem run_eq_ok_iff {read : Reader α} {data : List UInt8} :
    read.run data = .ok value ↔ ∃ next, read (Cursor.start data) = .ok (value, next) := by
  rw [run]
  cases read (Cursor.start data) with
  | error failure => simp [Except.map]
  | ok result => simp [Except.map, Prod.ext_iff]

/-- On some data, such a reader finds what is written at its front. -/
theorem Inverts.run_eq_ok_iff {read : Reader α} {allowed : α → Prop} {write : α → List UInt8}
    (hread : Inverts read allowed write) {data : List UInt8} :
    read.run data = .ok value ↔ allowed value ∧ write value <+: data := by
  simp only [Reader.run_eq_ok_iff, hread _ _ _, exists_and_left, Cursor.exists_consumes_start_iff]

end Reader

end ClassWarden
