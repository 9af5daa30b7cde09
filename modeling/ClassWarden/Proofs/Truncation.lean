import ClassWarden.Proofs.Fieldwise

/-!
# Cut and extended files

A class file is read from front to back, so the outcome depends on the bytes that
were consumed and on nothing behind them.  This is a property of readers that
sequencing keeps.  A reader that has it needs certain bytes for a value: with
them at the front it gives that value whatever follows, and with any smaller
number of them it fails for want of data, at a place inside what it was given.
A fault of the format, once met, is met in every longer file.
-/

namespace ClassWarden

/-- Failures that further data cannot mend. -/
def DecodeError.IsFormatFault : DecodeError → Prop
  | badMagic _ | unknownTag _ _ => True
  | unexpectedEnd _ _ | undefinedOpcode _ _ | malformed _ _ => False

namespace Reader

variable {α β : Type} {read : Reader β} {step : β → Reader α} {first : β} {value : α}
variable {cursor middle : Cursor} {offset : Nat} {front back bytes : List UInt8}
variable {failure : DecodeError}

/-! ## Sequencing -/

theorem bind_of_ok (hread : read cursor = .ok (first, middle)) :
    (read >>= step) cursor = step first middle := by
  simp [bind, StateT.bind, hread, Except.bind]

theorem bind_of_error (hread : read cursor = .error failure) :
    (read >>= step) cursor = .error failure := by
  simp [bind, StateT.bind, hread, Except.bind]

/-- The bytes that the reader has to find at an offset to give a value. -/
structure Needs (read : Reader α) (offset : Nat) (bytes : List UInt8) (value : α) : Prop where
  of_append : ∀ rest, read ⟨offset, bytes ++ rest⟩ = .ok (value, ⟨offset + bytes.length, rest⟩)
  of_take : ∀ count < bytes.length, ∃ place ≤ offset + count, ∃ context,
    read ⟨offset, bytes.take count⟩ = .error (.unexpectedEnd place context)

/-- Success is a matter of the bytes that were consumed, and a fault of the format
is there for good. -/
structure Sequential (read : Reader α) : Prop where
  needs : ∀ cursor value next, read cursor = .ok (value, next) →
    ∃ bytes, cursor.Consumes bytes next ∧ Needs read cursor.offset bytes value
  fault : ∀ cursor failure, failure.IsFormatFault → read cursor = .error failure →
    ∀ more, read ⟨cursor.offset, cursor.rest ++ more⟩ = .error failure

theorem Needs.bind (hfront : Needs read offset front first)
    (hback : Needs (step first) (offset + front.length) back value) :
    Needs (read >>= step) offset (front ++ back) value where
  of_append rest := by
    rw [List.append_assoc, bind_of_ok (hfront.of_append (back ++ rest)), hback.of_append rest,
      List.length_append, Nat.add_assoc]
  of_take count hcount := by
    rw [List.length_append] at hcount
    by_cases hshort : count < front.length
    · obtain ⟨place, hplace, context, hread⟩ := hfront.of_take count hshort
      refine ⟨place, hplace, context, bind_of_error ?_⟩
      rwa [List.take_append_of_le_length hshort.le]
    · obtain ⟨place, hplace, context, hread⟩ := hback.of_take (count - front.length) (by omega)
      refine ⟨place, by omega, context, ?_⟩
      rw [List.take_append, List.take_of_length_le (by omega),
        bind_of_ok (hfront.of_append (back.take (count - front.length))), hread]

theorem Sequential.bind (hread : Sequential read) (hstep : ∀ first, Sequential (step first)) :
    Sequential (read >>= step) where
  needs cursor value next hbind := by
    obtain ⟨first, middle, hfirst, hvalue⟩ := bind_eq_ok_iff.mp hbind
    obtain ⟨front, hconsumesFront, hfront⟩ := hread.needs cursor first middle hfirst
    obtain ⟨back, hconsumesBack, hback⟩ := (hstep first).needs middle value next hvalue
    rw [hconsumesFront.offset_eq] at hback
    exact ⟨front ++ back, hconsumesFront.append hconsumesBack, hfront.bind hback⟩
  fault cursor failure hfault hbind more := by
    cases hfirst : read cursor with
    | error own =>
        obtain rfl : own = failure := by
          rw [bind_of_error hfirst] at hbind
          exact Except.error.inj hbind
        exact bind_of_error (hread.fault cursor own hfault hfirst more)
    | ok result =>
        obtain ⟨first, middle⟩ := result
        obtain ⟨front, hconsumes, hfront⟩ := hread.needs cursor first middle hfirst
        rw [bind_of_ok hfirst] at hbind
        rw [hconsumes.rest_eq, List.append_assoc, bind_of_ok (hfront.of_append _),
          ← hconsumes.offset_eq]
        exact (hstep first).fault middle failure hfault hbind more

theorem sequential_pure (value : α) : Sequential (pure value : Reader α) where
  needs cursor own next hpure := by
    obtain ⟨rfl, rfl⟩ := pure_eq_ok_iff.mp hpure
    refine ⟨[], Cursor.consumes_nil_iff.mpr rfl, fun rest => rfl, fun count hcount => ?_⟩
    exact absurd hcount (Nat.not_lt_zero count)
  fault cursor failure _ hpure := by
    cases hpure

theorem sequential_fail (failure : DecodeError) : Sequential (fail failure : Reader α) where
  needs _ _ _ hfail := absurd hfail fail_ne_ok
  fault _ _ _ hfail _ := hfail

theorem sequential_block (context : String) (size : Nat) : Sequential (block context size) where
  needs cursor bytes next hblock := by
    obtain ⟨rfl, hconsumes⟩ := block_eq_ok_iff.mp hblock
    refine ⟨bytes, hconsumes, fun rest => ?_, fun count hcount => ?_⟩
    · exact block_eq_ok_iff.mpr ⟨rfl, rfl, rfl⟩
    · refine ⟨cursor.offset, Nat.le_add_right _ _, context, ?_⟩
      rw [block, if_neg]
      simp
      omega
  fault cursor failure hfault hblock := by
    rw [block] at hblock
    split at hblock
    · cases hblock
    · cases hblock
      cases hfault

/-- The code is looked for in a body that was read in full, so a check for it cannot run
out of data that is still to come. -/
theorem Fieldwise.sequential {read : Reader α} (hread : Fieldwise read) : Sequential read := by
  induction hread with
  | pure value => exact sequential_pure value
  | fault => exact sequential_fail _
  | block _ size => exact sequential_block _ size
  | bind _ _ hread hstep => exact hread.bind hstep
  | @checked _ step stops _ hstops _ hread hstep =>
      apply hread.bind
      intro attr
      by_cases hstop : stops attr
      · obtain ⟨failure, -, hfail⟩ := hstops attr hstop
        rw [hfail]
        exact sequential_fail failure
      · exact hstep attr hstop

end Reader

theorem ClassImage.sequential_read : Reader.Sequential ClassImage.read :=
  ClassImage.fieldwise_read.sequential

namespace ClassFile

variable {bytes : List UInt8} {file : ClassFile} {failure : DecodeError}

theorem parse_eq_error_iff :
    parse bytes = .error failure ↔ ClassImage.read (Cursor.start bytes) = .error failure := by
  rw [parse, Reader.run]
  cases ClassImage.read (Cursor.start bytes) <;> simp [Except.map]

/-- A class file needs the bytes of its image and no others.  With all of them it is
parsed the same whatever follows; cut anywhere inside them, it fails for want of
data, at a place that was not cut away.  A wrong magic number or an unknown kind of
constant is reported of every longer file as well. -/
theorem parse_needs_image :
    (∀ bytes file, parse bytes = .ok file → ∃ image : ClassImage,
      image.WellFormed ∧ image.Keeps file ∧ image.bytes <+: bytes ∧
        (∀ count extra, image.bytes.length ≤ count →
          parse (bytes.take count ++ extra) = .ok file) ∧
        ∀ count < image.bytes.length, ∃ place ≤ count, ∃ context,
          parse (bytes.take count) = .error (.unexpectedEnd place context)) ∧
      ∀ bytes failure, parse bytes = .error failure → failure.IsFormatFault →
        ∀ extra, parse (bytes ++ extra) = .error failure := by
  constructor
  · intro bytes file hparse
    obtain ⟨image, hrun, rfl⟩ := parse_eq_ok_iff.mp hparse
    obtain ⟨next, hread⟩ := Reader.run_eq_ok_iff.mp hrun
    obtain ⟨himage, hwritten⟩ := (ClassImage.inverts_read _ _ _).mp hread
    obtain ⟨consumed, hconsumes, hneeds⟩ := ClassImage.sequential_read.needs _ _ _ hread
    have hbytes : bytes = image.bytes ++ next.rest := hwritten.rest_eq
    obtain rfl : consumed = image.bytes :=
      List.append_cancel_right (hconsumes.rest_eq.symm.trans hbytes)
    have hfront : image.bytes <+: bytes := ⟨next.rest, hbytes.symm⟩
    refine ⟨image, himage, ClassImage.keeps_ofImage image, hfront, ?_, ?_⟩
    · intro count extra hcount
      have hkept : image.bytes <+: bytes.take count ++ extra :=
        (List.prefix_take_iff.mpr ⟨hfront, hcount⟩).trans (List.prefix_append _ _)
      exact parse_eq_ok_iff.mpr
        ⟨image, ClassImage.inverts_read.run_eq_ok_iff.mpr ⟨himage, hkept⟩, rfl⟩
    · intro count hcount
      obtain ⟨place, hplace, context, hcut⟩ := hneeds.of_take count hcount
      refine ⟨place, hplace.trans_eq (Nat.zero_add count), context, parse_eq_error_iff.mpr ?_⟩
      rw [hbytes, List.take_append_of_le_length hcount.le]
      exact hcut
  · intro bytes failure hparse hfault extra
    exact parse_eq_error_iff.mpr
      (ClassImage.sequential_read.fault _ _ hfault (parse_eq_error_iff.mp hparse) extra)

/-- Two methods and a byte too many; the same, cut inside the long constant; and the
front of the file with a tag that does not exist in place of that constant's. -/
theorem parse_needs_image_twoCodes :
    let bytes := twoCodes.bytes
    bytes.length = 106 ∧ parse (bytes ++ [0]) = .ok (.ofImage twoCodes) ∧
      (∀ extra, parse ((bytes ++ [0]).take 106 ++ extra) = .ok (.ofImage twoCodes)) ∧
      (∃ place ≤ 20, ∃ context,
        parse ((bytes ++ [0]).take 20) = .error (.unexpectedEnd place context)) ∧
      parse (bytes.take 17 ++ [2]) = .error (.unknownTag 2 2) ∧
      ∀ extra, parse (bytes.take 17 ++ [2] ++ extra) = .error (.unknownTag 2 2) := by
  intro bytes
  have hlength : bytes.length = 106 := by
    decide +kernel
  have hread : ClassImage.read.run (bytes ++ [0]) = .ok twoCodes :=
    ClassImage.inverts_read.run_eq_ok_iff.mpr ⟨wellFormed_twoCodes, List.prefix_append _ _⟩
  have hparse : parse (bytes ++ [0]) = .ok (.ofImage twoCodes) :=
    parse_eq_ok_iff.mpr ⟨twoCodes, hread, rfl⟩
  have hfault : parse (bytes.take 17 ++ [2]) = .error (.unknownTag 2 2) := by
    decide +kernel
  obtain ⟨image, himage, -, hfront, hsame, hcut⟩ := parse_needs_image.1 _ _ hparse
  have himageRead := ClassImage.inverts_read.run_eq_ok_iff.mpr ⟨himage, hfront⟩
  obtain rfl : twoCodes = image := Except.ok.inj (hread.symm.trans himageRead)
  have hinside : 20 < bytes.length := by
    omega
  exact ⟨hlength, hparse, fun extra => hsame 106 extra hlength.le, hcut 20 hinside, hfault,
    parse_needs_image.2 _ _ hfault trivial⟩

end ClassFile

end ClassWarden
