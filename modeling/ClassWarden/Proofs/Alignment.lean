import ClassWarden.Alignment
import Mathlib.Data.List.Infix
import Mathlib.Data.List.Sublists

/-!
# Laws of the alignment

The search for one pattern position ends in one of three ways, and each has an
exact description.  Whichever it is, the position takes at least one
instruction off the code.  Two bounds of the cost follow: the positions without
a mismatch form a common subsequence of pattern and code, and a pattern that is
longer than the code it can use pays for every instruction it lacks.
-/

namespace ClassWarden

namespace SymbolicInstruction

/-- A resolved instruction is its opcode and its operands. -/
theorem eq_of_isResolved {left right : SymbolicInstruction}
    (hresolved : left.isResolved = true) (hopcode : left.opcode? = right.opcode?)
    (hoperands : left.operands = right.operands) : left = right := by
  cases left with
  | unresolved reason => simp [isResolved, opcode?] at hresolved
  | resolved opcode operands =>
      cases right with
      | unresolved reason => simp [opcode?] at hopcode
      | resolved opcode' operands' => simp_all [SymbolicInstruction.opcode?,
          SymbolicInstruction.operands]

end SymbolicInstruction

namespace Alignment

variable {limit : Option Nat} {wanted : Option Opcode}
variable {expected instruction : SymbolicInstruction}
variable {pattern code following : List SymbolicInstruction}

/-! ## The search for one position -/

def Permits (limit : Option Nat) (count : Nat) : Prop :=
  ∀ allowed ∈ limit, count ≤ allowed

@[simp]
theorem permits_zero (limit : Option Nat) : Permits limit 0 :=
  fun _ _ => Nat.zero_le _

@[simp]
theorem permits_none (count : Nat) : Permits none count :=
  nofun

theorem permits_some_iff {allowed count : Nat} :
    Permits (some allowed) count ↔ count ≤ allowed := by
  simp [Permits]

theorem Permits.mono {more count : Nat} (hpermits : Permits limit more) (hle : count ≤ more) :
    Permits limit count := by
  intro allowed hallowed
  exact hle.trans (hpermits allowed hallowed)

theorem permits_spend (hlimit : limit ≠ some 0) (count : Nat) :
    Permits (spend limit) count ↔ Permits limit (count + 1) := by
  cases limit with
  | none => simp [Permits, spend]
  | some allowed =>
      have hpositive : allowed ≠ 0 := fun hzero => hlimit (by rw [hzero])
      simp only [Permits, spend, Option.mem_def, Option.some.injEq, forall_eq']
      omega

theorem seek_eq_found_iff :
    seek wanted limit code = .found instruction following ↔
      instruction.opcode? = wanted ∧ ∃ skipped,
        code = skipped ++ instruction :: following ∧
          (∀ other ∈ skipped, other.opcode? ≠ wanted) ∧
            Permits limit skipped.length := by
  induction code generalizing limit with
  | nil => simp [seek]
  | cons candidate rest ih =>
      have hsplit : ∀ skipped, candidate :: rest = skipped ++ instruction :: following ↔
          skipped = [] ∧ instruction = candidate ∧ following = rest ∨
            ∃ later, skipped = candidate :: later ∧ rest = later ++ instruction :: following := by
        intro skipped
        rw [List.cons_eq_append_iff, List.cons.injEq]
      rw [seek]
      by_cases hcandidate : candidate.opcode? = wanted
      · rw [if_pos hcandidate]
        constructor
        · rintro ⟨⟩
          exact ⟨hcandidate, [], by simp⟩
        · rintro ⟨-, skipped, hcode, hskipped, -⟩
          obtain ⟨-, rfl, rfl⟩ | ⟨later, rfl, -⟩ := (hsplit skipped).mp hcode
          · rfl
          · exact absurd hcandidate (hskipped _ List.mem_cons_self)
      rw [if_neg hcandidate]
      by_cases hlimit : limit = some 0
      · rw [if_pos hlimit]
        constructor
        · rintro ⟨⟩
        · rintro ⟨hopcode, skipped, hcode, -, hpermits⟩
          obtain ⟨-, rfl, -⟩ | ⟨later, rfl, -⟩ := (hsplit skipped).mp hcode
          · exact absurd hopcode hcandidate
          · exact absurd (hpermits 0 hlimit) (by simp)
      · rw [if_neg hlimit, ih]
        refine and_congr_right fun hopcode => ?_
        constructor
        · rintro ⟨later, rfl, hlater, hpermits⟩
          exact ⟨candidate :: later, rfl, List.forall_mem_cons.mpr ⟨hcandidate, hlater⟩,
            (permits_spend hlimit _).mp hpermits⟩
        · rintro ⟨skipped, hcode, hskipped, hpermits⟩
          obtain ⟨-, rfl, -⟩ | ⟨later, rfl, hrest⟩ := (hsplit skipped).mp hcode
          · exact absurd hopcode hcandidate
          · exact ⟨later, hrest, (List.forall_mem_cons.mp hskipped).2,
              (permits_spend hlimit _).mpr hpermits⟩

/-- An instruction with the wanted opcode at the front is taken at once. -/
theorem seek_cons_self (hopcode : instruction.opcode? = wanted) :
    seek wanted limit (instruction :: code) = .found instruction code := by
  rw [seek, if_pos hopcode]

/-- Without skips another opcode ends the search at once. -/
theorem seek_zero_cons (hopcode : instruction.opcode? ≠ wanted) :
    seek wanted (some 0) (instruction :: code) = .limited := by
  rw [seek, if_neg hopcode, if_pos rfl]

theorem seek_eq_limited_iff :
    seek wanted limit code = .limited ↔
      ∃ allowed, limit = some allowed ∧ allowed < code.length ∧
        ∀ other ∈ code.take (allowed + 1), other.opcode? ≠ wanted := by
  induction code generalizing limit with
  | nil => simp [seek]
  | cons candidate rest ih =>
      rw [seek]
      by_cases hcandidate : candidate.opcode? = wanted
      · simp [hcandidate]
      rw [if_neg hcandidate]
      cases limit with
      | none => simp [ih, spend]
      | some allowed =>
          cases allowed with
          | zero => simp [hcandidate]
          | succ allowed => simp [ih, spend, hcandidate]

theorem seek_eq_exhausted_iff :
    seek wanted limit code = .exhausted ↔
      (∀ other ∈ code, other.opcode? ≠ wanted) ∧ Permits limit code.length := by
  induction code generalizing limit with
  | nil => simp [seek]
  | cons candidate rest ih =>
      rw [seek]
      by_cases hcandidate : candidate.opcode? = wanted
      · simp [hcandidate]
      rw [if_neg hcandidate]
      by_cases hlimit : limit = some 0
      · simp [hlimit, Permits]
      · rw [if_neg hlimit, ih, permits_spend hlimit, List.length_cons,
          List.forall_mem_cons]
        simp [hcandidate]

/-- A search is not given up where the limit permits to skip all of the code. -/
theorem seek_ne_limited (hpermits : Permits limit code.length) (wanted : Option Opcode) :
    seek wanted limit code ≠ .limited := by
  intro hlimited
  obtain ⟨allowed, rfl, hlonger, -⟩ := seek_eq_limited_iff.mp hlimited
  exact absurd (permits_some_iff.mp hpermits) hlonger.not_ge

/-- What a position leaves is the code without its first instructions, of
which the search took at least one if there was one. -/
theorem exists_afterProbe_eq_drop (wanted : Option Opcode) (limit : Option Nat)
    (code : List SymbolicInstruction) :
    ∃ taken, afterProbe code (seek wanted limit code) = code.drop taken ∧
      (code ≠ [] → 0 < taken) := by
  cases hprobe : seek wanted limit code with
  | found instruction following =>
      obtain ⟨-, skipped, rfl, -⟩ := seek_eq_found_iff.mp hprobe
      refine ⟨skipped.length + 1, ?_, fun _ => Nat.succ_pos _⟩
      simp [afterProbe]
  | limited => exact ⟨1, by simp [afterProbe], fun _ => Nat.one_pos⟩
  | exhausted =>
      refine ⟨code.length, by simp [afterProbe], fun hcode => ?_⟩
      exact List.length_pos_iff.mpr hcode

theorem agrees_iff {probe : Probe} :
    agrees expected probe = true ↔ ∃ instruction following,
      probe = .found instruction following ∧ instruction.operands = expected.operands := by
  cases probe <;> simp [agrees]

/-- A position without a mismatch has found its own instruction. -/
theorem seek_eq_found_self (hresolved : ∀ other ∈ code, other.isResolved = true)
    (hagrees : agrees expected (seek expected.opcode? limit code) = true) :
    ∃ following, seek expected.opcode? limit code = .found expected following := by
  obtain ⟨instruction, following, hprobe, hoperands⟩ := agrees_iff.mp hagrees
  obtain ⟨hopcode, skipped, rfl, -⟩ := seek_eq_found_iff.mp hprobe
  have hself : instruction = expected :=
    SymbolicInstruction.eq_of_isResolved (hresolved _ (by simp)) hopcode hoperands
  exact ⟨following, hself ▸ hprobe⟩

/-! ## The cost of a pattern -/

theorem cost_cons (limit : Option Nat) (expected : SymbolicInstruction)
    (pattern code : List SymbolicInstruction) :
    cost limit (expected :: pattern) code =
      (if agrees expected (seek expected.opcode? limit code) then 0 else 1) +
        cost limit pattern (afterProbe code (seek expected.opcode? limit code)) :=
  rfl

theorem cost_cons_self (limit : Option Nat) (expected : SymbolicInstruction)
    (pattern code : List SymbolicInstruction) :
    cost limit (expected :: pattern) (expected :: code) = cost limit pattern code := by
  rw [cost_cons, seek_cons_self rfl]
  simp [agrees, afterProbe]

/-- Where code begins like the pattern, that part costs nothing. -/
theorem cost_append_self (limit : Option Nat)
    (common pattern code : List SymbolicInstruction) :
    cost limit (common ++ pattern) (common ++ code) = cost limit pattern code := by
  induction common with
  | nil => rfl
  | cons head tail ih => rw [List.cons_append, List.cons_append, cost_cons_self, ih]

/-- Code that begins with the whole pattern serves all of its positions. -/
theorem cost_self_append (limit : Option Nat) (pattern code : List SymbolicInstruction) :
    cost limit pattern (pattern ++ code) = 0 := by
  calc cost limit pattern (pattern ++ code)
      = cost limit (pattern ++ []) (pattern ++ code) := by
        rw [List.append_nil]
    _ = cost limit [] code := cost_append_self limit pattern [] code
    _ = 0 := rfl

theorem cost_le_length (limit : Option Nat) (pattern code : List SymbolicInstruction) :
    cost limit pattern code ≤ pattern.length := by
  induction pattern generalizing code with
  | nil => rfl
  | cons expected pattern ih =>
      rw [cost_cons, List.length_cons]
      have htail := ih (afterProbe code (seek expected.opcode? limit code))
      split <;> omega

/-- The cost with the early end is the plain cost, as far as it is tolerated. -/
theorem costWithin_eq (limit : Option Nat) (tolerance : Nat)
    (pattern code : List SymbolicInstruction) :
    costWithin limit tolerance pattern code =
      if cost limit pattern code ≤ tolerance then some (cost limit pattern code)
      else none := by
  induction pattern generalizing tolerance code with
  | nil => simp [costWithin, cost]
  | cons expected pattern ih =>
      rw [cost_cons]
      by_cases hagrees : agrees expected (seek expected.opcode? limit code)
      · simp [costWithin, hagrees, ih]
      · cases tolerance with
        | zero => simp [costWithin, hagrees]
        | succ tolerance =>
            simp only [costWithin, if_neg hagrees, ih]
            generalize cost limit pattern _ = later
            by_cases hlater : later ≤ tolerance
            · rw [if_pos hlater, if_pos (by omega), Option.map_some, Nat.add_comm]
            · rw [if_neg hlater, if_neg (by omega), Option.map_none]

/-- The positions without a mismatch are a common subsequence. -/
theorem exists_common_sublist (limit : Option Nat) (pattern : List SymbolicInstruction)
    {code : List SymbolicInstruction}
    (hresolved : ∀ instruction ∈ code, instruction.isResolved = true) :
    ∃ common : List SymbolicInstruction, common.Sublist pattern ∧ common.Sublist code ∧
      common.length + cost limit pattern code = pattern.length := by
  induction pattern generalizing code with
  | nil => exact ⟨[], List.Sublist.slnil, List.nil_sublist code, rfl⟩
  | cons expected pattern ih =>
      rw [cost_cons]
      -- A position is part of the subsequence or pays for itself.
      by_cases hagrees : agrees expected (seek expected.opcode? limit code) = true
      · obtain ⟨following, hprobe⟩ := seek_eq_found_self hresolved hagrees
        obtain ⟨-, skipped, rfl, -⟩ := seek_eq_found_iff.mp hprobe
        have hrest : ∀ instruction ∈ following, instruction.isResolved = true :=
          fun instruction hmem => hresolved instruction (by simp [hmem])
        obtain ⟨common, hpattern, hfollowing, hlength⟩ := ih hrest
        refine ⟨expected :: common, hpattern.cons_cons expected,
          (hfollowing.cons_cons expected).trans (List.sublist_append_right _ _), ?_⟩
        rw [if_pos hagrees, hprobe, afterProbe, List.length_cons, List.length_cons]
        omega
      · obtain ⟨taken, hafter, -⟩ := exists_afterProbe_eq_drop expected.opcode? limit code
        have hrest : ∀ instruction ∈ code.drop taken, instruction.isResolved = true :=
          fun instruction hmem => hresolved instruction (List.mem_of_mem_drop hmem)
        obtain ⟨common, hpattern, hlater, hlength⟩ := ih hrest
        refine ⟨common, hpattern.cons expected, hlater.trans (List.drop_sublist _ _), ?_⟩
        rw [if_neg hagrees, hafter, List.length_cons]
        omega

/-- Every pattern position needs an instruction of its own among those of the
code that can belong to the pattern. -/
theorem length_le_cost_add_countP {usable : SymbolicInstruction → Bool}
    (limit : Option Nat) (husable : ∀ instruction ∈ pattern, usable instruction = true)
    (hresolved : ∀ instruction ∈ code, instruction.isResolved = true) :
    pattern.length ≤ cost limit pattern code + code.countP usable := by
  obtain ⟨common, hpattern, hcode, hlength⟩ := exists_common_sublist limit pattern hresolved
  have hall : common.countP usable = common.length :=
    List.countP_eq_length.mpr fun instruction hmem => husable _ (hpattern.subset hmem)
  have hcount : common.countP usable ≤ code.countP usable := hcode.countP_le
  omega

/-- Of code with an unusable end, only the part in front of it counts. -/
theorem countP_drop_append_le {usable : SymbolicInstruction → Bool}
    (code : List SymbolicInstruction) {rest : List SymbolicInstruction}
    (hrest : ∀ instruction ∈ rest, usable instruction = false) (count : Nat) :
    ((code ++ rest).drop count).countP usable ≤ code.length - count := by
  have hend : (rest.drop (count - code.length)).countP usable = 0 :=
    List.countP_eq_zero.mpr fun instruction hmem => by
      simp [hrest instruction (List.mem_of_mem_drop hmem)]
  rw [List.drop_append, List.countP_append, hend, Nat.add_zero, ← List.length_drop]
  exact List.countP_le_length

/-- Code that begins with another instruction than the pattern lets one of its
instructions go unused: the first position pays and takes one with it, or goes
past the beginning. -/
theorem length_lt_of_head_ne {usable : SymbolicInstruction → Bool}
    {first : SymbolicInstruction} {rest : List SymbolicInstruction}
    (hfirst : first ≠ expected)
    (husable : ∀ instruction ∈ expected :: pattern, usable instruction = true)
    (hrest : ∀ instruction ∈ rest, usable instruction = false)
    (hresolved : ∀ instruction ∈ first :: code ++ rest, instruction.isResolved = true) :
    (expected :: pattern).length <
      cost limit (expected :: pattern) (first :: code ++ rest) + (first :: code).length := by
  obtain ⟨hexpected, husable⟩ := List.forall_mem_cons.mp husable
  rw [cost_cons, List.length_cons]
  by_cases hagrees : agrees expected
      (seek expected.opcode? limit (first :: code ++ rest)) = true
  · obtain ⟨following, hprobe⟩ := seek_eq_found_self hresolved hagrees
    obtain ⟨-, skipped, hcode, -⟩ := seek_eq_found_iff.mp hprobe
    have hskipped : 0 < skipped.length := by
      refine List.length_pos_iff.mpr ?_
      rintro rfl
      exact hfirst (List.cons.inj hcode).1
    have hused := countP_drop_append_le (first :: code) hrest skipped.length
    rw [hcode, List.drop_left, List.countP_cons_of_pos hexpected] at hused
    have hfollowing : ∀ instruction ∈ following, instruction.isResolved = true :=
      fun instruction hmem => hresolved instruction (by rw [hcode]; simp [hmem])
    have hlater := length_le_cost_add_countP limit husable hfollowing
    rw [if_pos hagrees, hprobe, afterProbe]
    omega
  · obtain ⟨taken, hafter, htaken⟩ :=
      exists_afterProbe_eq_drop expected.opcode? limit (first :: code ++ rest)
    have hpositive := htaken (List.cons_ne_nil _ _)
    have hused := countP_drop_append_le (first :: code) hrest taken
    have hfollowing : ∀ instruction ∈ (first :: code ++ rest).drop taken,
        instruction.isResolved = true :=
      fun instruction hmem => hresolved instruction (List.mem_of_mem_drop hmem)
    have hlater := length_le_cost_add_countP limit husable hfollowing
    rw [if_neg hagrees, hafter]
    rw [List.length_cons] at hused ⊢
    omega

/-- Code is used in full only where it is the pattern's beginning. -/
theorem isPrefix_of_cost_le (limit : Option Nat) (usable : SymbolicInstruction → Bool)
    {rest : List SymbolicInstruction} (husable : ∀ instruction ∈ pattern, usable instruction = true)
    (hrest : ∀ instruction ∈ rest, usable instruction = false)
    (hresolved : ∀ instruction ∈ code ++ rest, instruction.isResolved = true)
    (hcost : cost limit pattern (code ++ rest) + code.length ≤ pattern.length) :
    code <+: pattern := by
  induction pattern generalizing code with
  | nil =>
      have hempty : code = [] := by simpa [cost] using hcost
      rw [hempty]
  | cons expected pattern ih =>
      cases code with
      | nil => exact List.nil_prefix
      | cons first code =>
          by_cases hfirst : first = expected
          · subst first
            rw [List.cons_append, cost_cons_self, List.length_cons, List.length_cons] at hcost
            exact List.cons_prefix_cons.mpr ⟨rfl,
              ih (List.forall_mem_cons.mp husable).2 (List.forall_mem_cons.mp hresolved).2
                (by omega)⟩
          · exact absurd hcost (length_lt_of_head_ne hfirst husable hrest hresolved).not_ge

/-! ## Alignment without a mismatch -/

/-- The pattern occurs in order in the code.  In front of each of its
instructions lies a gap that the limit permits and that holds no instruction of
the same opcode. -/
inductive Occurs (limit : Option Nat) :
    List SymbolicInstruction → List SymbolicInstruction → Prop where
  | nil (code : List SymbolicInstruction) : Occurs limit [] code
  | cons {expected : SymbolicInstruction} {pattern gap code : List SymbolicInstruction}
      (hgap : ∀ other ∈ gap, other.opcode? ≠ expected.opcode?)
      (hpermits : Permits limit gap.length) (htail : Occurs limit pattern code) :
      Occurs limit (expected :: pattern) (gap ++ expected :: code)

theorem Occurs.cost_eq_zero (hoccurs : Occurs limit pattern code) :
    cost limit pattern code = 0 := by
  induction hoccurs with
  | nil code => rfl
  | @cons expected pattern gap code hgap hpermits htail ih =>
      have hprobe : seek expected.opcode? limit (gap ++ expected :: code) =
          .found expected code :=
        seek_eq_found_iff.mpr ⟨rfl, gap, rfl, hgap, hpermits⟩
      simp [cost_cons, hprobe, agrees, afterProbe, ih]

theorem cost_eq_zero_iff_occurs
    (hresolved : ∀ instruction ∈ code, instruction.isResolved = true) :
    cost limit pattern code = 0 ↔ Occurs limit pattern code := by
  refine ⟨fun hcost => ?_, Occurs.cost_eq_zero⟩
  induction pattern generalizing code with
  | nil => exact .nil code
  | cons expected pattern ih =>
      rw [cost_cons, Nat.add_eq_zero_iff] at hcost
      have hagrees : agrees expected (seek expected.opcode? limit code) = true := by
        simpa using hcost.1
      obtain ⟨following, hprobe⟩ := seek_eq_found_self hresolved hagrees
      obtain ⟨-, gap, rfl, hgap, hpermits⟩ := seek_eq_found_iff.mp hprobe
      refine .cons hgap hpermits (ih (fun instruction hmem => ?_) ?_)
      · exact hresolved instruction (by simp [hmem])
      · simpa [hprobe, afterProbe] using hcost.2

end Alignment

end ClassWarden
