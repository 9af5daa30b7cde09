import ClassWarden.Proofs.Matching
import ClassWarden.Signature.Catalog

/-!
# Patterns with one edit

A sample may lack one instruction of a pattern, or have another one in its
place.  Whether a signature survives the edit in every surrounding depends on
the search for the edited position alone: it must not reach an instruction that
a later position needs.  A left-out instruction shifts all that follows, so only
the last one can be spared.
-/

namespace ClassWarden

open ClassWarden.Alignment

/-- What happened to one instruction of a pattern. -/
inductive Edit where
  | omitted
  /-- The instruction that stands in its place. -/
  | replaced (instruction : SymbolicInstruction)
  deriving DecidableEq, Repr

namespace Edit

def remains : Edit → List SymbolicInstruction
  | omitted => []
  | replaced instruction => [instruction]

/-- Whether the search for the edited position leaves everything to the later
positions `back`.  A replacement is taken for the expected instruction if it
has its opcode.  Otherwise the limit has to end the search inside the pattern
and in front of the next instruction of that opcode. -/
def Spares (limit : Option Nat) (expected : SymbolicInstruction)
    (back : List SymbolicInstruction) : Edit → Prop
  | omitted => back = []
  | replaced instruction =>
    back = [] ∨ instruction.opcode? = expected.opcode? ∨
      ∃ allowed, limit = some allowed ∧ allowed ≤ back.length ∧
        ∀ other ∈ back.take allowed, other.opcode? ≠ expected.opcode?

end Edit

namespace Signature

/-- The signature is found at every tolerance, zero apart, wherever its pattern
stands with this edit between `front` and `back`, as long as two more
instructions follow. -/
def Withstands (signature : Signature) (limit : Option Nat)
    (front back : List SymbolicInstruction) (edit : Edit) : Prop :=
  ∀ (method : String) (stream before after : List SymbolicInstruction) (maxDistance : Nat),
    signature.scope.view stream = before ++ (front ++ edit.remains ++ back) ++ after →
      2 ≤ after.length → 1 ≤ maxDistance →
        (Matching.findSignature ⟨maxDistance, limit⟩ method stream signature).isSome = true

end Signature

namespace Edit

variable {limit : Option Nat} {expected : SymbolicInstruction} {edit : Edit}
variable {pattern front back code rest : List SymbolicInstruction}

/-! ## Edits that cost one mismatch -/

theorem cost_replaced_le_one {instruction : SymbolicInstruction}
    (hspares : Spares limit expected back (.replaced instruction))
    (after : List SymbolicInstruction) :
    cost limit (expected :: back) (instruction :: back ++ after) ≤ 1 := by
  have hback := cost_self_append limit back after
  obtain rfl | hopcode | ⟨allowed, rfl, hallowed, hother⟩ := hspares
  · exact cost_le_length limit [expected] _
  · rw [cost_cons, List.cons_append, seek_cons_self hopcode, afterProbe, hback]
    split <;> omega
  · by_cases hopcode : instruction.opcode? = expected.opcode?
    · rw [cost_cons, List.cons_append, seek_cons_self hopcode, afterProbe, hback]
      split <;> omega
    · have hprobe : seek expected.opcode? (some allowed) (instruction :: back ++ after) =
          .limited := by
        refine seek_eq_limited_iff.mpr ⟨allowed, rfl, by simp; omega, ?_⟩
        rw [List.cons_append, List.take_succ_cons, List.take_append_of_le_length hallowed]
        exact List.forall_mem_cons.mpr ⟨hopcode, hother⟩
      rw [cost_cons, hprobe, afterProbe, List.cons_append, List.tail_cons, hback]
      split <;> omega

theorem cost_edited_le_one (hspares : Spares limit expected back edit)
    (front after : List SymbolicInstruction) :
    cost limit (front ++ expected :: back) (front ++ edit.remains ++ back ++ after) ≤ 1 := by
  rw [List.append_assoc, List.append_assoc, cost_append_self]
  cases edit with
  | omitted =>
      obtain rfl : back = [] := hspares
      exact cost_le_length limit [expected] _
  | replaced instruction => exact cost_replaced_le_one hspares after

/-! ## Edits that cost more -/

def Unrepeated (pattern : List SymbolicInstruction) : Prop :=
  pattern.dropLast.getLast? ≠ pattern.getLast?

instance (pattern : List SymbolicInstruction) : Decidable (Unrepeated pattern) :=
  inferInstanceAs (Decidable (_ ≠ _))

theorem not_isPrefix_of_unrepeated (hunrepeated : Unrepeated pattern)
    (hlength : code.length + 1 = pattern.length)
    (hlast : code.getLast? = pattern.getLast?) : ¬ code <+: pattern := by
  intro hprefix
  have hcode : code = pattern.dropLast := by
    rw [List.dropLast_eq_take, ← hlength, Nat.add_sub_cancel]
    exact List.prefix_iff_eq_take.mp hprefix
  exact hunrepeated (hcode ▸ hlast)

/-- Code that lacks one instruction of a pattern, yet ends like it, costs two
mismatches if nothing usable follows. -/
theorem two_le_cost_of_short (hunrepeated : Unrepeated pattern)
    (hrest : ∀ instruction ∈ rest, instruction ∉ pattern)
    (hresolved : ∀ instruction ∈ code ++ rest, instruction.isResolved = true)
    (hlength : code.length + 1 = pattern.length)
    (hlast : code.getLast? = pattern.getLast?) : 2 ≤ cost limit pattern (code ++ rest) := by
  by_contra hcost
  refine not_isPrefix_of_unrepeated hunrepeated hlength hlast ?_
  refine isPrefix_of_cost_le limit (fun instruction => decide (instruction ∈ pattern))
    ?_ ?_ hresolved (by omega)
  · exact fun instruction hmem => decide_eq_true hmem
  · exact fun instruction hmem => decide_eq_false (hrest instruction hmem)

/-- Where the expected instruction stands twice in a row and the first one was
taken for the second, the rest of the pattern lacks an instruction. -/
theorem two_le_cost_of_repeated
    (hunrepeated : Unrepeated (front ++ expected :: expected :: back))
    (hrest : ∀ other ∈ rest, other ∉ front ++ expected :: expected :: back)
    (hresolved : ∀ other ∈ back ++ rest, other.isResolved = true) :
    2 ≤ cost limit (expected :: back) (back ++ rest) := by
  by_contra hcost
  have hprefix : back <+: expected :: back := by
    refine isPrefix_of_cost_le limit
      (fun other => decide (other ∈ front ++ expected :: expected :: back))
      ?_ ?_ hresolved (by rw [List.length_cons]; omega)
    · intro other hmem
      exact decide_eq_true (List.mem_append_right _ (List.mem_cons_of_mem _ hmem))
    · exact fun other hmem => decide_eq_false (hrest other hmem)
  have hwhole : front ++ expected :: back <+: front ++ expected :: expected :: back :=
    (List.prefix_append_right_inj front).mpr (List.cons_prefix_cons.mpr ⟨rfl, hprefix⟩)
  refine not_isPrefix_of_unrepeated hunrepeated ?_ ?_ hwhole
  · simp
    omega
  · simp [List.getLast?_append]

/-- A search that goes past the replacement takes an instruction from a later
position, or the one place after the pattern. -/
theorem two_le_cost_of_found {instruction found : SymbolicInstruction}
    {following : List SymbolicInstruction}
    (hunrepeated : Unrepeated (front ++ expected :: back)) (hback : back ≠ [])
    (hrest : ∀ other ∈ rest, other ∉ front ++ expected :: back)
    (hresolved : ∀ other ∈ instruction :: back ++ rest, other.isResolved = true)
    (hopcode : instruction.opcode? ≠ expected.opcode?)
    (hprobe : seek expected.opcode? limit (instruction :: back ++ rest) =
      .found found following) :
    2 ≤ cost limit (expected :: back) (instruction :: back ++ rest) := by
  set usable : SymbolicInstruction → Bool :=
    fun other => decide (other ∈ front ++ expected :: back) with husable
  have hbackUsable : ∀ other ∈ back, usable other = true := by
    intro other hmem
    simp [husable, hmem]
  have hrestUsable : ∀ other ∈ rest, usable other = false :=
    fun other hmem => decide_eq_false (hrest other hmem)
  obtain ⟨hfound, skipped, hcode, -⟩ := seek_eq_found_iff.mp hprobe
  have hskipped : 0 < skipped.length := by
    refine List.length_pos_iff.mpr ?_
    rintro rfl
    obtain ⟨rfl, -⟩ := List.cons.inj hcode
    exact hopcode hfound
  have hfollowing : ∀ other ∈ following, other.isResolved = true := fun other hmem =>
    hresolved other (by rw [hcode]; simp [hmem])
  have hlater := length_le_cost_add_countP limit hbackUsable hfollowing
  have hpositive := List.length_pos_iff.mpr hback
  rw [cost_cons, hprobe, afterProbe]
  by_cases hagrees : agrees expected (.found found following) = true
  · obtain ⟨_, hself⟩ := seek_eq_found_self hresolved (by rw [hprobe]; exact hagrees)
    obtain ⟨rfl, rfl⟩ := Probe.found.inj (hprobe.symm.trans hself)
    have hused := countP_drop_append_le (instruction :: back) hrestUsable skipped.length
    rw [hcode, List.drop_left, List.countP_cons_of_pos (by simp [husable]),
      List.length_cons] at hused
    rw [if_pos hagrees]
    -- With one skipped instruction, the replacement, `back` begins with the expected one.
    by_cases hsingle : skipped.length = 1
    · obtain ⟨first, rfl⟩ := List.length_eq_one_iff.mp hsingle
      obtain ⟨next, later, rfl⟩ := List.exists_cons_of_ne_nil hback
      simp only [List.cons_append, List.nil_append, List.cons.injEq] at hcode
      obtain ⟨-, rfl, rfl⟩ := hcode
      have hshort : 2 ≤ cost limit (_ :: later) (later ++ rest) :=
        two_le_cost_of_repeated hunrepeated hrest hfollowing
      omega
    · omega
  · have hused := countP_drop_append_le (instruction :: back) hrestUsable
      (skipped.length + 1)
    have hdrop : (skipped ++ found :: following).drop (skipped.length + 1) = following := by
      simp
    rw [hcode, hdrop, List.length_cons] at hused
    rw [if_neg hagrees]
    omega

end Edit

/-! ## Which edits a signature withstands -/

namespace Signature

variable {signature : Signature} {limit : Option Nat} {edit : Edit}
variable {expected : SymbolicInstruction} {front back : List SymbolicInstruction}

/-- A signature that sees its whole pattern, and whose pattern does not end in
a repetition. -/
structure Regular (signature : Signature) : Prop where
  admits : ∀ instruction ∈ signature.pattern, signature.scope.admits instruction = true
  unrepeated : Edit.Unrepeated signature.pattern

/-- An instruction with the opcode of another one that is not in the pattern: it
has more operands than all pattern instructions together. -/
def stranger (pattern : List SymbolicInstruction) (opcode : Opcode) : SymbolicInstruction :=
  .resolved opcode (.number 0 :: pattern.flatMap SymbolicInstruction.operands)

theorem stranger_not_mem (pattern : List SymbolicInstruction) (opcode : Opcode) :
    stranger pattern opcode ∉ pattern := by
  intro hmem
  have hoperands : (stranger pattern opcode).operands ∈
      pattern.map SymbolicInstruction.operands := List.mem_map_of_mem hmem
  have hlength := (List.sublist_flatten_of_mem hoperands).length_le
  have hown : (stranger pattern opcode).operands.length =
      (pattern.map SymbolicInstruction.operands).flatten.length + 1 := by
    rw [stranger, SymbolicInstruction.operands, List.length_cons, List.flatMap_def]
  omega

/-- Past a replacement that is not spared the search comes to an instruction,
at the latest to one behind the pattern. -/
theorem exists_seek_eq_found {instruction extra : SymbolicInstruction}
    (hspares : ¬ Edit.Spares limit expected back (.replaced instruction))
    (hextra : extra.opcode? = expected.opcode?) :
    ∃ found following, seek expected.opcode? limit (instruction :: back ++ [extra, extra]) =
      .found found following := by
  simp only [Edit.Spares, not_or, not_exists, not_and] at hspares
  obtain ⟨-, hopcode, hlimit⟩ := hspares
  cases hprobe : seek expected.opcode? limit (instruction :: back ++ [extra, extra]) with
  | found found following => exact ⟨found, following, rfl⟩
  | limited =>
      exfalso
      obtain ⟨allowed, rfl, hallowed, hother⟩ := seek_eq_limited_iff.mp hprobe
      by_cases hinside : allowed ≤ back.length
      · refine hlimit allowed rfl hinside fun other hmem => hother other ?_
        rw [List.cons_append, List.take_succ_cons, List.take_append_of_le_length hinside]
        exact List.mem_cons_of_mem _ hmem
      · refine hother extra ?_ hextra
        rw [List.cons_append, List.take_succ_cons, List.take_append,
          show allowed - back.length = (allowed - back.length - 1) + 1 by omega,
          List.take_succ_cons]
        simp
  | exhausted =>
      obtain ⟨hother, -⟩ := seek_eq_exhausted_iff.mp hprobe
      exact absurd hextra (hother extra (by simp))

/-- Two further instructions of the expected opcode, equal to none of the
pattern, spoil every start of an edited pattern that is not spared. -/
theorem two_le_cost_of_not_spares {extra : SymbolicInstruction}
    (hunrepeated : Edit.Unrepeated (front ++ expected :: back))
    (hspares : ¬ edit.Spares limit expected back)
    (hopcode : extra.opcode? = expected.opcode?) (hextra : extra ∉ front ++ expected :: back)
    (hresolved : ∀ instruction ∈ front ++ edit.remains ++ back ++ [extra, extra],
      instruction.isResolved = true) {start : Nat}
    (hstart : start + (front ++ expected :: back).length <
      (front ++ edit.remains ++ back ++ [extra, extra]).length) :
    2 ≤ cost limit (front ++ expected :: back)
      ((front ++ edit.remains ++ back ++ [extra, extra]).drop start) := by
  have hrest : ∀ other ∈ [extra, extra], other ∉ front ++ expected :: back := by
    simpa using hextra
  have hback : back ≠ [] := by
    rintro rfl
    exact hspares (by cases edit <;> simp [Edit.Spares])
  have hlast : ∀ init, (init ++ back).getLast? = (front ++ expected :: back).getLast? := by
    intro init
    rw [List.append_cons, List.getLast?_append_of_ne_nil _ hback,
      List.getLast?_append_of_ne_nil _ hback]
  -- An omission leaves one start in front of the strangers, a replacement two.
  cases edit with
  | omitted =>
      obtain rfl : start = 0 := by
        simp [Edit.remains] at hstart
        omega
      refine Edit.two_le_cost_of_short hunrepeated hrest hresolved ?_ (hlast _)
      simp [Edit.remains]
      omega
  | replaced instruction =>
      have hdiffers : instruction.opcode? ≠ expected.opcode? :=
        fun hsame => hspares (.inr (.inl hsame))
      obtain rfl | rfl : start = 0 ∨ start = 1 := by
        simp [Edit.remains] at hstart
        omega
      · obtain ⟨found, following, hprobe⟩ := exists_seek_eq_found hspares hopcode
        rw [Edit.remains, List.append_assoc, List.append_assoc] at hresolved
        rw [List.drop_zero, Edit.remains, List.append_assoc, List.append_assoc,
          cost_append_self]
        exact Edit.two_le_cost_of_found hunrepeated hback hrest
          (fun other hmem => hresolved other (List.mem_append_right front hmem)) hdiffers hprobe
      · have hdrop : (front ++ [instruction] ++ back ++ [extra, extra]).drop 1 =
            (front ++ [instruction]).drop 1 ++ back ++ [extra, extra] := by
          rw [List.drop_append_of_le_length (by simp; omega),
            List.drop_append_of_le_length (by simp)]
        rw [Edit.remains, hdrop]
        refine Edit.two_le_cost_of_short hunrepeated hrest (fun other hmem => ?_) ?_ (hlast _)
        · rw [← hdrop] at hmem
          exact hresolved other (List.mem_of_mem_drop hmem)
        · simp
          omega

theorem view_append_stranger (hregular : Regular signature)
    (hpattern : signature.pattern = front ++ expected :: back)
    (hadmits : ∀ instruction ∈ edit.remains, signature.scope.admits instruction = true)
    {extra : SymbolicInstruction} (hopcode : extra.opcode? = expected.opcode?) :
    ∀ instruction ∈ front ++ edit.remains ++ back ++ [extra, extra],
      signature.scope.admits instruction = true := by
  have hkept := hregular.admits
  rw [hpattern] at hkept
  have hextra : signature.scope.admits extra = true := by
    rw [Scope.admits_congr hopcode]
    exact hkept expected (by simp)
  intro instruction hmem
  simp only [List.mem_append, List.mem_cons, List.not_mem_nil, or_false, or_self] at hmem
  obtain ((hfront | hremains) | hback) | rfl := hmem
  · exact hkept instruction (by simp [hfront])
  · exact hadmits instruction hremains
  · exact hkept instruction (by simp [hback])
  · exact hextra

/-- The surrounding that spoils an edit that is not spared: nothing in front and
two strangers behind. -/
theorem spares_of_withstands (hregular : Regular signature)
    (hpattern : signature.pattern = front ++ expected :: back)
    (hadmits : ∀ instruction ∈ edit.remains, signature.scope.admits instruction = true)
    (hwithstands : Withstands signature limit front back edit) :
    edit.Spares limit expected back := by
  by_contra hspares
  have hexpected : signature.scope.admits expected = true :=
    hregular.admits expected (by simp [hpattern])
  obtain ⟨opcode, hopcode⟩ := Option.isSome_iff_exists.mp (Scope.isResolved_of_admits hexpected)
  obtain ⟨extra, hextra, hsame⟩ : ∃ extra, extra ∉ signature.pattern ∧
      extra.opcode? = expected.opcode? :=
    ⟨stranger signature.pattern opcode, stranger_not_mem _ _, hopcode.symm⟩
  have hvisible := view_append_stranger hregular hpattern hadmits hsame
  have hview := Scope.view_eq_self hvisible
  have hfound := hwithstands "" _ [] [extra, extra] 1 hview le_rfl le_rfl
  obtain ⟨start, hstart, hcost⟩ := Matching.findSignature_isSome_iff.mp hfound
  rw [hview, hpattern] at hstart hcost
  have hexpensive := two_le_cost_of_not_spares (hpattern ▸ hregular.unrepeated) hspares hsame
    (hpattern ▸ hextra)
    (fun instruction hmem => Scope.isResolved_of_admits (hvisible instruction hmem)) hstart
  exact absurd (hexpensive.trans hcost) (by simp)

/-- An edit that is spared costs at most one mismatch at the pattern's place. -/
theorem withstands_of_spares (hpattern : signature.pattern = front ++ expected :: back)
    (hspares : edit.Spares limit expected back) :
    Withstands signature limit front back edit := by
  intro method stream before after maxDistance hview hafter htolerance
  refine Matching.findSignature_isSome_iff.mpr ⟨before.length, ?_, ?_⟩
  · rw [hview, hpattern]
    simp
    omega
  · have hcost := Edit.cost_edited_le_one hspares front after
    rw [hview, hpattern, List.append_assoc, List.drop_left]
    exact hcost.trans htolerance

theorem regular_of_mem_catalog (hcatalog : signature ∈ catalog) : Regular signature := by
  have hadmits : ∀ signature ∈ catalog, ∀ instruction ∈ signature.pattern,
      signature.scope.admits instruction = true := by
    decide +kernel
  have hunrepeated : ∀ signature ∈ catalog, Edit.Unrepeated signature.pattern := by
    decide +kernel
  exact ⟨hadmits signature hcatalog, hunrepeated signature hcatalog⟩

/-- A built-in signature is found in every surrounding, in spite of one edit,
exactly if the edit spares the later positions.  So the last instruction can be
left out and no other, and another instruction can only replace one of its own
opcode, the last one, or one behind which the skip limit ends the search in
time. -/
theorem withstands_iff_spares (hcatalog : signature ∈ catalog)
    (hpattern : signature.pattern = front ++ expected :: back)
    (hadmits : ∀ instruction ∈ edit.remains, signature.scope.admits instruction = true) :
    Withstands signature limit front back edit ↔ edit.Spares limit expected back :=
  ⟨spares_of_withstands (regular_of_mem_catalog hcatalog) hpattern hadmits,
    withstands_of_spares hpattern⟩

/-- With a skip limit of zero any call may stand for the string concatenation of
the Base64 command. -/
theorem withstands_iff_spares_encodedCommand :
    Withstands encodedCommand (some 0) (encodedCommand.pattern.take 2)
      (encodedCommand.pattern.drop 3) (.replaced stringOfBytes) := by
  have hpattern : encodedCommand.pattern = encodedCommand.pattern.take 2 ++
      reference .invokevirtual
        ["java/lang/String", "concat", "(Ljava/lang/String;)Ljava/lang/String;"] ::
          encodedCommand.pattern.drop 3 := by
    decide +kernel
  have hadmits : ∀ instruction ∈ Edit.remains (.replaced stringOfBytes),
      encodedCommand.scope.admits instruction = true := by
    decide +kernel
  refine (withstands_iff_spares (by decide +kernel) hpattern hadmits).mpr ?_
  exact .inr (.inr ⟨0, rfl, Nat.zero_le _, by simp⟩)

/-- The Base64 command without its string concatenation is not found at the
standard options, although one mismatch is tolerated: the search for the
concatenation takes the next virtual call. -/
theorem encodedCommand_without_concat_not_found :
    let view := encodedCommand.pattern.take 2 ++ encodedCommand.pattern.drop 3 ++
      [stringOfBytes, stringOfBytes]
    encodedCommand.scope.view view = view ∧
      Matching.findSignature .standard "run" view encodedCommand = none := by
  decide +kernel

end Signature

end ClassWarden
