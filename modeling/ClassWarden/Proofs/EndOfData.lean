import ClassWarden.Proofs.Truncation

/-!
# Where data ends

A failure for want of data names the place where the unfinished field starts.  Everything
in front of that place was read, so a file that is cut there fails in the same way, and
cut anywhere behind it too.

The fields of a method's code are the exception.  They are read out of the body of an
attribute as if it were data of its own, and a failure names a place in that body.  It
does not belong to the end of the file: the body is complete, and nothing that follows
it makes a difference.

A reader that is made of fields, with checks of attributes for their code between them,
runs out of data in one of these two ways.
-/

namespace ClassWarden

namespace Reader

variable {α β : Type} {read : Reader β} {step : β → Reader α} {first : β}
variable {cursor middle next : Cursor} {context : String} {place : Nat} {failure : DecodeError}

/-! ## Failures of the fields -/

theorem bind_eq_error_iff :
    (read >>= step) cursor = .error failure ↔
      read cursor = .error failure ∨
        ∃ first middle, read cursor = .ok (first, middle) ∧ step first middle = .error failure := by
  cases hread : read cursor with
  | error own => simp [bind_of_error hread]
  | ok result =>
      obtain ⟨first, middle⟩ := result
      simp [bind_of_ok hread]

theorem pure_ne_error {value : α} : (pure value : Reader α) cursor ≠ .error failure := by
  intro hpure
  cases hpure

theorem block_eq_error_iff {size : Nat} :
    block context size cursor = .error failure ↔
      cursor.rest.length < size ∧ failure = .unexpectedEnd cursor.offset context := by
  rw [block]
  split
  case isTrue hlength =>
    rw [List.length_take, min_eq_left_iff] at hlength
    constructor
    · intro hread
      cases hread
    · rintro ⟨hshort, -⟩
      exact absurd hlength (Nat.not_le_of_lt hshort)
  case isFalse hlength =>
    rw [List.length_take, min_eq_left_iff, Nat.not_le] at hlength
    rw [Except.error.injEq, and_iff_right hlength, eq_comm]

theorem run_eq_error_iff {data : List UInt8} :
    read.run data = .error failure ↔ read (Cursor.start data) = .error failure := by
  rw [run]
  cases read (Cursor.start data) <;> simp [Except.map]

theorem u32_eq_error_iff :
    u32 context cursor = .error failure ↔
      cursor.rest.length < 4 ∧ failure = .unexpectedEnd cursor.offset context := by
  simp only [u32, number, bind_eq_error_iff, block_eq_error_iff, pure_ne_error, and_false,
    exists_false, or_false]

end Reader

theorem Cursor.Consumes.end_eq {cursor next : Cursor} {bytes : List UInt8}
    (hconsumes : cursor.Consumes bytes next) :
    next.offset + next.rest.length = cursor.offset + cursor.rest.length := by
  rw [hconsumes.offset_eq, hconsumes.rest_eq, List.length_append, Nat.add_assoc]

namespace Attribute

open Reader

/-- The code of an attribute is missing only for want of data, at a place in the body. -/
theorem exists_of_code_eq_error {attr : Attribute} {failure : DecodeError}
    (hcode : attr.code = .error failure) :
    ∃ place ≤ attr.body.length, ∃ context ∈ codeContexts,
      failure = .unexpectedEnd place context := by
  simp only [code, run_eq_error_iff, readCode, bind_eq_error_iff, block_eq_error_iff,
    u32_eq_error_iff, block_eq_ok_iff, u32_eq_ok_iff] at hcode
  obtain ⟨-, rfl⟩ | ⟨sizes, first, ⟨-, hsizes⟩, ⟨-, rfl⟩ | ⟨length, second, hlength, -, rfl⟩⟩ :=
    hcode
  · exact ⟨_, Nat.zero_le _, _, by decide, rfl⟩
  · have hend := hsizes.end_eq
    refine ⟨_, ?_, _, by decide, rfl⟩
    simp only [Cursor.start] at hend
    omega
  · have hend := (hsizes.append hlength).end_eq
    refine ⟨_, ?_, _, by decide, rfl⟩
    simp only [Cursor.start] at hend
    omega

end Attribute

namespace Reader

variable {α β : Type} {read : Reader β} {step : β → Reader α} {first : β}
variable {cursor middle : Cursor} {context : String} {place : Nat}

/-! ## Ends of data in sequence -/

/-- The reader fails in a field that starts at `place`, and what is there behind that
place makes no difference. -/
structure EndsAt (read : Reader α) (cursor : Cursor) (place : Nat) (context : String) :
    Prop where
  outside : context ∉ Attribute.codeContexts
  offset_le : cursor.offset ≤ place
  le_end : place ≤ cursor.offset + cursor.rest.length
  of_take : ∀ count, place ≤ cursor.offset + count →
    read ⟨cursor.offset, cursor.rest.take count⟩ = .error (.unexpectedEnd place context)

/-- The reader fails as the code of an attribute does that is there in full, and what
follows the attribute makes no difference. -/
def EndsInCode (read : Reader α) (cursor : Cursor) (place : Nat) (context : String) : Prop :=
  ∃ front attr back, cursor.rest = front ++ Attribute.bytes attr ++ back ∧
    attr.code = .error (.unexpectedEnd place context) ∧
    ∀ more, read ⟨cursor.offset, front ++ attr.bytes ++ more⟩ =
      .error (.unexpectedEnd place context)

/-- The two kinds of failure for want of data. -/
def RunsOut (read : Reader α) (cursor : Cursor) (place : Nat) (context : String) : Prop :=
  EndsAt read cursor place context ∨ EndsInCode read cursor place context

theorem EndsAt.bind_left (hends : EndsAt read cursor place context) :
    EndsAt (read >>= step) cursor place context where
  outside := hends.outside
  offset_le := hends.offset_le
  le_end := hends.le_end
  of_take count hcount := bind_of_error (hends.of_take count hcount)

theorem EndsInCode.bind_left (hends : EndsInCode read cursor place context) :
    EndsInCode (read >>= step) cursor place context := by
  obtain ⟨front, attr, back, hrest, hcode, hmore⟩ := hends
  exact ⟨front, attr, back, hrest, hcode, fun more => bind_of_error (hmore more)⟩

theorem EndsAt.bind_right (hread : Sequential read) (hfirst : read cursor = .ok (first, middle))
    (hends : EndsAt (step first) middle place context) :
    EndsAt (read >>= step) cursor place context := by
  obtain ⟨bytes, hconsumes, hneeds⟩ := hread.needs cursor first middle hfirst
  have hoffset := hconsumes.offset_eq
  have hend := hconsumes.end_eq
  have hbefore := hends.offset_le
  have hbehind := hends.le_end
  refine ⟨hends.outside, by omega, by omega, fun count hcount => ?_⟩
  rw [hconsumes.rest_eq, List.take_append, List.take_of_length_le (by omega),
    bind_of_ok (hneeds.of_append _), ← hoffset]
  exact hends.of_take _ (by omega)

theorem EndsInCode.bind_right (hread : Sequential read)
    (hfirst : read cursor = .ok (first, middle))
    (hends : EndsInCode (step first) middle place context) :
    EndsInCode (read >>= step) cursor place context := by
  obtain ⟨bytes, hconsumes, hneeds⟩ := hread.needs cursor first middle hfirst
  obtain ⟨front, attr, back, hrest, hcode, hmore⟩ := hends
  refine ⟨bytes ++ front, attr, back, ?_, hcode, fun more => ?_⟩
  · rw [hconsumes.rest_eq, hrest, List.append_assoc, List.append_assoc, List.append_assoc]
  · rw [List.append_assoc, List.append_assoc, bind_of_ok (hneeds.of_append _),
      ← hconsumes.offset_eq, ← List.append_assoc]
    exact hmore more

theorem RunsOut.bind_left (hout : RunsOut read cursor place context) :
    RunsOut (read >>= step) cursor place context :=
  hout.imp EndsAt.bind_left EndsInCode.bind_left

theorem RunsOut.bind_right (hread : Sequential read)
    (hfirst : read cursor = .ok (first, middle))
    (hout : RunsOut (step first) middle place context) :
    RunsOut (read >>= step) cursor place context :=
  hout.imp (EndsAt.bind_right hread hfirst) (EndsInCode.bind_right hread hfirst)

theorem runsOut_block (houtside : context ∉ Attribute.codeContexts) {size : Nat} {own : String}
    (hblock : block context size cursor = .error (.unexpectedEnd place own)) :
    RunsOut (block context size) cursor place own := by
  obtain ⟨hshort, hsame⟩ := block_eq_error_iff.mp hblock
  cases hsame
  refine .inl ⟨houtside, Nat.le_refl _, Nat.le_add_right _ _, fun count _ => ?_⟩
  apply block_eq_error_iff.mpr
  exact ⟨(List.length_take_le' count _).trans_lt hshort, rfl⟩

/-- An attribute that was read for its code is there in full when the code fails. -/
theorem endsInCode_of_stop {step : Attribute → Reader α} {attr : Attribute}
    (hfirst : Attribute.read cursor = .ok (attr, middle))
    (hcode : attr.code = .error (.unexpectedEnd place context))
    (hstop : step attr = fail (.unexpectedEnd place context)) :
    EndsInCode (Attribute.read >>= step) cursor place context := by
  obtain ⟨hfits, hbytes⟩ := (Attribute.inverts_read _ _ _).mp hfirst
  refine ⟨[], attr, middle.rest, hbytes.rest_eq, hcode, fun more => ?_⟩
  have hagain : Attribute.read ⟨cursor.offset, [] ++ attr.bytes ++ more⟩ =
      .ok (attr, ⟨cursor.offset + attr.bytes.length, more⟩) :=
    (Attribute.inverts_read _ _ _).mpr ⟨hfits, rfl, rfl⟩
  rw [bind_of_ok hagain, hstop]
  rfl

/-- There are no other failures for want of data. -/
theorem Fieldwise.runsOut {read : Reader α} (hread : Fieldwise read)
    (hfails : read cursor = .error (.unexpectedEnd place context)) :
    RunsOut read cursor place context := by
  induction hread generalizing cursor with
  | pure => exact absurd hfails pure_ne_error
  | fault hfault => exact absurd (Except.error.inj hfails) (hfault place context)
  | block houtside => exact runsOut_block houtside hfails
  | bind hread _ hfront hstep =>
      obtain hfirst | ⟨first, middle, hfirst, hlater⟩ := bind_eq_error_iff.mp hfails
      · exact (hfront hfirst).bind_left
      · exact .bind_right hread.sequential hfirst (hstep first hlater)
  | checked stops hread hstops _ hfront hstep =>
      obtain hfirst | ⟨attr, middle, hfirst, hlater⟩ := bind_eq_error_iff.mp hfails
      · exact (hfront hfirst).bind_left
      · by_cases hstop : stops attr
        · obtain ⟨failure, hcode, hfail⟩ := hstops attr hstop
          obtain rfl : failure = .unexpectedEnd place context := by
            rw [hfail] at hlater
            exact Except.error.inj hlater
          exact .inr (endsInCode_of_stop hfirst hcode hfail)
        · exact .bind_right hread.sequential hfirst (hstep attr hstop hlater)

end Reader

open Reader

namespace ClassFile

variable {bytes : List UInt8} {place : Nat} {context : String}

theorem runsOut_of_parse (hparse : parse bytes = .error (.unexpectedEnd place context)) :
    RunsOut ClassImage.read (Cursor.start bytes) place context :=
  ClassImage.fieldwise_read.runsOut (parse_eq_error_iff.mp hparse)

/-- A failure about a field of a method's code comes from an attribute that is there in
full, and names a place in the body of that attribute. -/
theorem exists_attribute_of_mem_codeContexts
    (hparse : parse bytes = .error (.unexpectedEnd place context))
    (hcontext : context ∈ Attribute.codeContexts) :
    ∃ front attr back, bytes = front ++ Attribute.bytes attr ++ back ∧
      attr.code = .error (.unexpectedEnd place context) ∧ place ≤ attr.body.length ∧
      ∀ more, parse (front ++ attr.bytes ++ more) = .error (.unexpectedEnd place context) := by
  obtain hends | ⟨front, attr, back, hbytes, hcode, hmore⟩ := runsOut_of_parse hparse
  · exact absurd hcontext hends.outside
  · obtain ⟨own, hplace, other, -, hsame⟩ := Attribute.exists_of_code_eq_error hcode
    cases hsame
    exact ⟨front, attr, back, hbytes, hcode, hplace,
      fun more => parse_eq_error_iff.mpr (hmore more)⟩

theorem parse_take_of_not_mem_codeContexts
    (hparse : parse bytes = .error (.unexpectedEnd place context))
    (hcontext : context ∉ Attribute.codeContexts) :
    place ≤ bytes.length ∧ ∀ count, place ≤ count →
      parse (bytes.take count) = .error (.unexpectedEnd place context) := by
  obtain hends | ⟨front, attr, back, -, hcode, -⟩ := runsOut_of_parse hparse
  · refine ⟨hends.le_end.trans_eq (Nat.zero_add _), fun count hcount => ?_⟩
    exact parse_eq_error_iff.mpr (hends.of_take count (hcount.trans_eq (Nat.zero_add _).symm))
  · obtain ⟨own, -, other, hother, hsame⟩ := Attribute.exists_of_code_eq_error hcode
    cases hsame
    exact absurd hother hcontext

/-- A failure for want of data names a place in the file exactly if it is not about a
field of a method's code: then the file cut off at that place, or anywhere behind it,
fails in the same way.  Of the code, the place counts from the start of an attribute's
body, which is there in full; the field starts behind the front of the file, the six
bytes of the attribute's header and that many bytes of the body. -/
theorem end_of_data_in_file_iff
    (hparse : parse bytes = .error (.unexpectedEnd place context)) :
    (place ≤ bytes.length ∧
        parse (bytes.take place) = .error (.unexpectedEnd place context) ↔
      context ∉ Attribute.codeContexts) ∧
    (context ∉ Attribute.codeContexts → ∀ count, place ≤ count →
      parse (bytes.take count) = .error (.unexpectedEnd place context)) ∧
    (context ∈ Attribute.codeContexts →
      ∃ front attr back, bytes = front ++ Attribute.bytes attr ++ back ∧
        attr.code = .error (.unexpectedEnd place context) ∧ place ≤ attr.body.length ∧
        ∀ more, parse (front ++ attr.bytes ++ more) = .error (.unexpectedEnd place context)) := by
  refine ⟨⟨?_, ?_⟩, fun hcontext => (parse_take_of_not_mem_codeContexts hparse hcontext).2,
    exists_attribute_of_mem_codeContexts hparse⟩
  · rintro ⟨-, hcut⟩ hcontext
    -- The attribute would have to fit in front of a place inside its own body.
    obtain ⟨front, attr, back, hbytes, -, hplace, -⟩ :=
      exists_attribute_of_mem_codeContexts hcut hcontext
    have hlength := congrArg List.length hbytes
    simp only [Attribute.bytes, BigEndian.ofUInt16, BigEndian.length_ofNat, List.length_append,
      List.length_take] at hlength
    omega
  · intro hcontext
    obtain ⟨hplace, hcut⟩ := parse_take_of_not_mem_codeContexts hparse hcontext
    exact ⟨hplace, hcut place (Nat.le_refl place)⟩

/-- A file of which the only method announces its code in four bytes, so that the length
of the code is missing at the end of the file. -/
def shortCode : List UInt8 :=
  [0xca, 0xfe, 0xba, 0xbe, 0, 0, 0, 52, 0, 2, 1, 0, 4, 0x43, 0x6f, 0x64, 0x65, 0, 0x21, 0, 1, 0, 0,
    0, 0, 0, 0, 0, 1, 0, 1, 0, 1, 0, 1, 0, 1, 0, 1, 0, 0, 0, 4, 0, 1, 0, 1]

/-- The file ends at byte 47, where the length should start; the place that is named is
one in the file's header. -/
theorem shortCode_misplaced :
    parse shortCode = .error (.unexpectedEnd 4 "code length") ∧ shortCode.length = 47 ∧
      parse (shortCode.take 4) = .error (.unexpectedEnd 4 "minor version") := by
  decide +kernel

/-- The same file, and the same without its last byte. -/
theorem end_of_data_in_file_iff_shortCode :
    parse shortCode = .error (.unexpectedEnd 4 "code length") ∧
      parse (shortCode.take 4) ≠ .error (.unexpectedEnd 4 "code length") ∧
      (∃ attr : Attribute, attr.body = [0, 1, 0, 1] ∧
        attr.code = .error (.unexpectedEnd 4 "code length")) ∧
      parse (shortCode.take 46) = .error (.unexpectedEnd 43 "attribute body") ∧
      ∀ count, 43 ≤ count →
        parse ((shortCode.take 46).take count) = .error (.unexpectedEnd 43 "attribute body") := by
  have hcode : parse shortCode = .error (.unexpectedEnd 4 "code length") := by
    decide +kernel
  have hbody : parse (shortCode.take 46) = .error (.unexpectedEnd 43 "attribute body") := by
    decide +kernel
  obtain ⟨hplaced, -, -⟩ := end_of_data_in_file_iff hcode
  obtain ⟨-, hcut, -⟩ := end_of_data_in_file_iff hbody
  refine ⟨hcode, fun hsame => ?_, ⟨⟨1, [0, 1, 0, 1]⟩, rfl, by decide +kernel⟩, hbody,
    hcut (by decide)⟩
  exact hplaced.mp ⟨by decide, hsame⟩ (by decide)

end ClassFile

end ClassWarden
