import ClassWarden.Proofs.TextReport
import Mathlib.Data.List.ReduceOption
import Mathlib.Data.Multiset.Lattice

/-!
# What entries have together

Verdicts are ordered from best to worst, and the fold that takes the worst of
them computes a supremum.  A supremum asks neither for the order of the entries
nor for how they are grouped, and open entries do not take part in it.  The
state of an archive is fixed by that verdict, by the findings of its entries and
by two counts; another order of the entries reorders the findings and changes
nothing else.
-/

namespace ClassWarden

namespace Rank

/-! ## The order of verdicts -/

theorem level_injective : Function.Injective level := by
  intro left right hlevel
  cases left <;> cases right <;> simp_all [level]

/-- From best to worst. -/
instance : LinearOrder Rank where
  le left right := left.level ≤ right.level
  le_refl rank := Nat.le_refl rank.level
  le_trans _ _ _ := Nat.le_trans
  le_antisymm _ _ hle hge := level_injective (Nat.le_antisymm hle hge)
  le_total left right := Nat.le_total left.level right.level
  toDecidableLE left right := Nat.decLe left.level right.level
  toDecidableEq := inferInstance
  max := worse

/-- No verdict is better than a clean one. -/
instance : OrderBot Rank where
  bot := clean
  bot_le rank := Nat.zero_le rank.level

theorem worse_eq_sup (left right : Rank) : left.worse right = left ⊔ right := by
  rfl

/-- An open verdict counts for no more than a clean one. -/
theorem combine_getD_bot (left right : Option Rank) :
    (combine left right).getD ⊥ = left.getD ⊥ ⊔ right.getD ⊥ := by
  cases left with
  | none => exact (bot_sup_eq _).symm
  | some left =>
      cases right with
      | none => exact (sup_bot_eq _).symm
      | some right => exact worse_eq_sup left right

theorem foldl_combine_getD_bot (start : Option Rank) (ranks : List (Option Rank)) :
    (ranks.foldl combine start).getD ⊥ =
      start.getD ⊥ ⊔ Multiset.sup (ranks.reduceOption : Multiset Rank) := by
  induction ranks generalizing start with
  | nil => exact (sup_bot_eq _).symm
  | cons rank ranks ih =>
      rw [List.foldl_cons, ih, combine_getD_bot, sup_assoc]
      cases rank with
      | none => rw [Option.getD_none, bot_sup_eq, List.reduceOption_cons_of_none]
      | some rank =>
          rw [Option.getD_some, List.reduceOption_cons_of_some, ← Multiset.cons_coe,
            Multiset.sup_cons]

/-- The fold computes the worst of the verdicts that were reached. -/
theorem worst_getD_bot (ranks : List (Option Rank)) :
    (worst ranks).getD ⊥ = Multiset.sup (ranks.reduceOption : Multiset Rank) := by
  rw [worst, foldl_combine_getD_bot]
  exact bot_sup_eq _

end Rank

theorem Status.eq_of_rank?_eq_some {left right : Status} {rank : Rank}
    (hleft : left.rank? = some rank) (hright : right.rank? = some rank) : left = right := by
  cases rank <;> cases left <;> cases right <;> simp_all [Status.rank?]

namespace Subject

variable {reordered children : List Subject}

/-! ## The worst verdict among subjects -/

/-- The worst of the verdicts that some subjects have; clean, if none has one. -/
def worstVerdict (children : List Subject) : Rank :=
  Multiset.sup (children.filterMap (·.status.rank?) : Multiset Rank)

theorem worst_children_getD_bot (children : List Subject) :
    (Rank.worst (children.map (·.status.rank?))).getD ⊥ = worstVerdict children := by
  rw [Rank.worst_getD_bot, worstVerdict, List.reduceOption, List.filterMap_map]
  rfl

theorem worstVerdict_perm (hperm : reordered.Perm children) :
    worstVerdict reordered = worstVerdict children := by
  rw [worstVerdict, Multiset.coe_eq_coe.mpr (hperm.filterMap _), worstVerdict]

theorem worstVerdict_append (children others : List Subject) :
    worstVerdict (children ++ others) = worstVerdict children ⊔ worstVerdict others := by
  rw [worstVerdict, List.filterMap_append, ← Multiset.coe_add, Multiset.sup_add]
  rfl

/-! ## The state of an archive -/

/-- What an archive with these entries carries together with a verdict. -/
def stateOf (children : List Subject) : Rank → State
  | .clean => .clean
  | .error =>
    let failed := (children.filter (·.status = .error)).length
    .error s!"{failed} of {children.length} entries could not be scanned"
  | .infected => .infected (children.flatMap (·.state.findings))

theorem aggregate_eq_stateOf (children : List Subject) :
    aggregate children = stateOf children (worstVerdict children) := by
  rw [aggregate, ← worst_children_getD_bot]
  cases Rank.worst (children.map (·.status.rank?)) with
  | none => rfl
  | some rank => cases rank <;> rfl

theorem rank?_stateOf (children : List Subject) (rank : Rank) :
    (stateOf children rank).status.rank? = some rank := by
  cases rank <;> rfl

theorem rank?_aggregate (children : List Subject) :
    (aggregate children).status.rank? = some (worstVerdict children) := by
  rw [aggregate_eq_stateOf, rank?_stateOf]

/-- An error names two counts, and counts do not ask for the order. -/
theorem error?_stateOf_perm (hperm : reordered.Perm children) (rank : Rank) :
    (stateOf reordered rank).error? = (stateOf children rank).error? := by
  cases rank with
  | clean | infected => rfl
  | error => rw [stateOf, stateOf, (hperm.filter _).length_eq, hperm.length_eq]

theorem status_aggregate_perm (hperm : reordered.Perm children) :
    (aggregate reordered).status = (aggregate children).status := by
  apply Status.eq_of_rank?_eq_some (rank?_aggregate reordered)
  rw [rank?_aggregate, worstVerdict_perm hperm]

theorem error?_aggregate_perm (hperm : reordered.Perm children) :
    (aggregate reordered).error? = (aggregate children).error? := by
  rw [aggregate_eq_stateOf, aggregate_eq_stateOf, worstVerdict_perm hperm,
    error?_stateOf_perm hperm]

theorem findings_aggregate_perm (hperm : reordered.Perm children) :
    (aggregate reordered).findings.Perm (aggregate children).findings := by
  rw [findings_aggregate, findings_aggregate]
  exact hperm.flatMap_right _

theorem rank?_aggregate_append (children others : List Subject) :
    (aggregate (children ++ others)).status.rank? =
      max (aggregate children).status.rank? (aggregate others).status.rank? := by
  rw [rank?_aggregate, rank?_aggregate, rank?_aggregate, worstVerdict_append]
  rfl

/-- An archive has the worst verdict among its entries, clean if none has one, and the
findings of all entries one after another.  Another order of the entries gives the same
verdict and the same error, and the same findings in another order.  The entries of two
archives together have the worse of the two verdicts. -/
theorem aggregate_reordered (children : List Subject) :
    IsWorst (aggregate children).status children ∧
      (aggregate children).findings = children.flatMap (·.state.findings) ∧
      (∀ reordered, reordered.Perm children →
        (aggregate reordered).status = (aggregate children).status ∧
          (aggregate reordered).error? = (aggregate children).error? ∧
          (aggregate reordered).findings.Perm (aggregate children).findings) ∧
      ∀ others, (aggregate (children ++ others)).status.rank? =
        max (aggregate children).status.rank? (aggregate others).status.rank? := by
  refine ⟨isWorst_aggregate children, findings_aggregate children, fun reordered hperm => ?_,
    rank?_aggregate_append children⟩
  exact ⟨status_aggregate_perm hperm, error?_aggregate_perm hperm, findings_aggregate_perm hperm⟩

/-- Two infected entries among a clean, a broken and an open one, in both directions. -/
theorem aggregate_reordered_reversed :
    let entry (name : String) (state : State) := (discovered name .missing).withState state
    let first : Finding := ⟨"run", "sig2", 0, 1⟩
    let second : Finding := ⟨"main", "sig1", 3, 0⟩
    let children :=
      [entry "A.class" .clean, entry "B.class" (.infected [first]),
        entry "C.class" (.error "File is empty"), entry "D.class" (.infected [second, first]),
        entry "E.class" .scanning]
    children.reverse.Perm children ∧
      aggregate children = .infected [first, second, first] ∧
      aggregate children.reverse = .infected [second, first, first] ∧
      (aggregate children.reverse).status = (aggregate children).status ∧
      (aggregate children.reverse).findings.Perm (aggregate children).findings := by
  intro entry first second children
  have hperm : children.reverse.Perm children := List.reverse_perm children
  obtain ⟨-, -, hreordered, -⟩ := aggregate_reordered children
  obtain ⟨hstatus, -, hfindings⟩ := hreordered children.reverse hperm
  exact ⟨hperm, by decide, by decide, hstatus, hfindings⟩

end Subject

end ClassWarden
