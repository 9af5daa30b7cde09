import ClassWarden.Proofs.ImplicitScan
import Mathlib.Order.Bounds.Basic

/-!
# The place of the command

Where a command line is expected to name its command goes by the places of its
arguments.  It is the place of the first argument that is neither an option nor the
value of one; if the separator comes before any such argument, it is the place behind
the separator.

The command `scan` is put in at that place if another argument than a command stands
there.  Otherwise the line stays as it is, and so does every line that has been
completed before.
-/

namespace ClassWarden

namespace ImplicitScan

variable {argument option value : String} {arguments front rest result : List String}
variable {place stop : Nat}

/-! ## Places -/

/-- The argument at a place is the value of an option in front of it. -/
def IsValue (arguments : List String) : Nat → Prop
  | 0 => False
  | place + 1 => (∃ option ∈ arguments[place]?, option ∈ valueOptions) ∧ ¬ IsValue arguments place

instance decidableIsValue (arguments : List String) : DecidablePred (IsValue arguments)
  | 0 => .isFalse id
  | place + 1 =>
    have := decidableIsValue arguments place
    inferInstanceAs (Decidable (_ ∧ ¬ IsValue arguments place))

/-- The argument at a place is no value of an option, and it is the separator or has no
dash in front.  A dash alone counts as an option. -/
def Stops (arguments : List String) (place : Nat) : Prop :=
  ¬ IsValue arguments place ∧
    ∃ argument ∈ arguments[place]?, argument = "--" ∨ argument.toList.head? ≠ some '-'

instance (arguments : List String) : DecidablePred (Stops arguments) := fun _ =>
  inferInstanceAs (Decidable (_ ∧ _))

/-- The place where a command is expected: the first one that is no option and no
value, or the one behind the separator if that comes first. -/
def Expects (arguments : List String) (place : Nat) : Prop :=
  ∃ stop, IsLeast {stop | Stops arguments stop} stop ∧
    place = if arguments[stop]? = some "--" then stop + 1 else stop

/-- An argument that is no command stands where a command is expected. -/
def LacksCommand (arguments : List String) (place : Nat) : Prop :=
  Expects arguments place ∧ ∃ word ∈ arguments[place]?, word ∉ Arguments.commandNames

/-- The command is put in where it is lacking, and nothing else is changed. -/
def Completes (arguments result : List String) : Prop :=
  (∃ place, LacksCommand arguments place ∧ result = arguments.insertIdx place "scan") ∨
    (∀ place, ¬ LacksCommand arguments place) ∧ result = arguments

/-! ## Passing over options -/

/-- In front of the rest, no argument of the front is where the search stops, and the
first one of the rest is no value of the last one of the front. -/
structure Passes (front rest : List String) : Prop where
  not_stops : ∀ place < front.length, ¬ Stops (front ++ rest) place
  not_isValue : ¬ IsValue (front ++ rest) front.length

theorem not_stops_of_option (hseparator : option ≠ "--") (hstart : option.toList.head? = some '-')
    (hplace : arguments[place]? = some option) : ¬ Stops arguments place := by
  rintro ⟨-, argument, hargument, hstops⟩
  obtain rfl : option = argument := Option.some.inj (hplace.symm.trans hargument)
  exact hstops.elim hseparator fun hother => hother hstart

/-- Whatever stands at the start, its place is that of no value. -/
theorem not_isValue_zero (arguments : List String) : ¬ IsValue arguments 0 := id

theorem passes_option (hmem : option ∉ "--" :: valueOptions)
    (hstart : option.toList.head? = some '-') (rest : List String) : Passes [option] rest where
  not_stops place hplace := by
    obtain rfl : place = 0 := Nat.lt_one_iff.mp hplace
    exact not_stops_of_option (List.ne_of_not_mem_cons hmem) hstart rfl
  not_isValue := by
    rintro ⟨⟨given, hgiven, hvalue⟩, -⟩
    obtain rfl : option = given := Option.some.inj hgiven
    exact hmem (List.mem_cons_of_mem _ hvalue)

/-- What has a dash in front and is not the separator. -/
theorem option_of_mem_valueOptions (hvalue : option ∈ valueOptions) :
    option ≠ "--" ∧ option.toList.head? = some '-' := by
  revert option
  decide

theorem passes_value (hvalue : option ∈ valueOptions) (value : String) (rest : List String) :
    Passes [option, value] rest where
  not_stops place hplace := by
    obtain ⟨hseparator, hstart⟩ := option_of_mem_valueOptions hvalue
    obtain rfl | rfl : place = 0 ∨ place = 1 := by
      rw [List.length_cons, List.length_singleton] at hplace
      omega
    · exact not_stops_of_option hseparator hstart rfl
    · exact fun hstops => hstops.1 ⟨⟨option, rfl, hvalue⟩, not_isValue_zero _⟩
  not_isValue hsecond := hsecond.2 ⟨⟨option, rfl, hvalue⟩, not_isValue_zero _⟩

theorem getElem?_front_append (front rest : List String) (place : Nat) :
    (front ++ rest)[front.length + place]? = rest[place]? := by
  rw [List.getElem?_append_right (Nat.le_add_right _ _), Nat.add_sub_cancel_left]

/-- Behind a front that is passed over, values are where they would be without it. -/
theorem Passes.isValue_iff (hpasses : Passes front rest) (place : Nat) :
    IsValue (front ++ rest) (front.length + place) ↔ IsValue rest place := by
  induction place with
  | zero => exact iff_of_false hpasses.not_isValue (not_isValue_zero rest)
  | succ place ih =>
      rw [← Nat.add_assoc, IsValue, IsValue, getElem?_front_append, ih]

theorem Passes.stops_iff (hpasses : Passes front rest) (place : Nat) :
    Stops (front ++ rest) (front.length + place) ↔ Stops rest place := by
  rw [Stops, Stops, hpasses.isValue_iff, getElem?_front_append]

theorem Passes.isLeast_stops_iff (hpasses : Passes front rest) :
    IsLeast {stop | Stops (front ++ rest) stop} (front.length + stop) ↔
      IsLeast {stop | Stops rest stop} stop := by
  constructor
  · rintro ⟨hstops, hleast⟩
    refine ⟨(hpasses.stops_iff stop).mp hstops, fun other hother => ?_⟩
    exact Nat.le_of_add_le_add_left (hleast ((hpasses.stops_iff other).mpr hother))
  · rintro ⟨hstops, hleast⟩
    refine ⟨(hpasses.stops_iff stop).mpr hstops, fun other hother => ?_⟩
    obtain hinside | hbehind := Nat.lt_or_ge other front.length
    · exact absurd hother (hpasses.not_stops other hinside)
    · obtain ⟨later, rfl⟩ := Nat.exists_eq_add_of_le hbehind
      exact Nat.add_le_add_left (hleast ((hpasses.stops_iff later).mp hother)) _

theorem Passes.expects_iff (hpasses : Passes front rest) :
    Expects (front ++ rest) place ↔ ∃ later, place = front.length + later ∧ Expects rest later := by
  constructor
  · rintro ⟨stop, hstop, rfl⟩
    have hbehind : front.length ≤ stop := by
      by_contra hinside
      exact hpasses.not_stops stop (Nat.lt_of_not_le hinside) hstop.1
    obtain ⟨later, rfl⟩ := Nat.exists_eq_add_of_le hbehind
    refine ⟨_, ?_, later, hpasses.isLeast_stops_iff.mp hstop, rfl⟩
    rw [getElem?_front_append]
    split <;> rfl
  · rintro ⟨-, rfl, stop, hstop, rfl⟩
    refine ⟨front.length + stop, hpasses.isLeast_stops_iff.mpr hstop, ?_⟩
    rw [getElem?_front_append]
    split <;> rfl

theorem Passes.lacksCommand_iff (hpasses : Passes front rest) :
    LacksCommand (front ++ rest) place ↔
      ∃ later, place = front.length + later ∧ LacksCommand rest later := by
  rw [LacksCommand, hpasses.expects_iff]
  constructor
  · rintro ⟨⟨later, rfl, hexpects⟩, hword⟩
    rw [getElem?_front_append] at hword
    exact ⟨later, rfl, hexpects, hword⟩
  · rintro ⟨later, rfl, hexpects, hword⟩
    refine ⟨⟨later, rfl, hexpects⟩, ?_⟩
    rwa [getElem?_front_append]

theorem insertIdx_front_append (front rest : List String) (place : Nat) (word : String) :
    (front ++ rest).insertIdx (front.length + place) word =
      front ++ rest.insertIdx place word := by
  induction front with
  | nil => rw [List.length_nil, Nat.zero_add, List.nil_append, List.nil_append]
  | cons argument front ih =>
      rw [List.length_cons, Nat.add_right_comm, List.cons_append, List.insertIdx_succ_cons, ih,
        List.cons_append]

/-- A front that is passed over is left as it is. -/
theorem Completes.append (hcompletes : Completes rest result) (hpasses : Passes front rest) :
    Completes (front ++ rest) (front ++ result) := by
  obtain ⟨place, hlacks, rfl⟩ | ⟨hnone, rfl⟩ := hcompletes
  · left
    refine ⟨front.length + place, hpasses.lacksCommand_iff.mpr ⟨place, rfl, hlacks⟩, ?_⟩
    rw [insertIdx_front_append]
  · right
    refine ⟨fun place hlacks => ?_, rfl⟩
    obtain ⟨later, -, hlater⟩ := hpasses.lacksCommand_iff.mp hlacks
    exact hnone later hlater

/-! ## Where the search stops -/

theorem completes_of_not_stops (hnone : ∀ place, ¬ Stops arguments place) :
    Completes arguments arguments := by
  right
  refine ⟨fun place hlacks => ?_, rfl⟩
  obtain ⟨⟨stop, ⟨hstops, -⟩, -⟩, -⟩ := hlacks
  exact hnone stop hstops

/-- A line may end where the value of its last option should be. -/
theorem not_stops_missing (hvalue : option ∈ valueOptions) (place : Nat) :
    ¬ Stops [option] place := by
  obtain ⟨hseparator, hstart⟩ := option_of_mem_valueOptions hvalue
  cases place with
  | zero => exact not_stops_of_option hseparator hstart rfl
  | succ place =>
      rintro ⟨-, argument, hargument, -⟩
      cases hargument

theorem insert_missing (hvalue : option ∈ valueOptions) : insert [option] = [option] := by
  obtain ⟨hseparator, -⟩ := option_of_mem_valueOptions hvalue
  rw [insert.eq_def]
  simp [hseparator, hvalue]

theorem expects_of_stops_zero (hstops : Stops (argument :: rest) 0) :
    Expects (argument :: rest) place ↔ place = if argument = "--" then 1 else 0 := by
  have hleast : IsLeast {stop | Stops (argument :: rest) stop} 0 :=
    ⟨hstops, fun stop _ => Nat.zero_le stop⟩
  have hplace : (if (argument :: rest)[0]? = some "--" then 0 + 1 else 0) =
      if argument = "--" then 1 else 0 := by
    simp only [List.getElem?_cons_zero, Option.some.injEq, Nat.zero_add]
  constructor
  · rintro ⟨stop, hstop, rfl⟩
    rw [hstop.unique hleast, hplace]
  · rintro rfl
    exact ⟨0, hleast, hplace.symm⟩

/-- Where the place behind a front is the one for a command, the command is put there
unless it is there. -/
theorem completes_atFront (front rest : List String)
    (hexpects : ∀ place, Expects (front ++ rest) place ↔ place = front.length) :
    Completes (front ++ rest) (front ++ atFront rest) := by
  have hplace : (front ++ rest)[front.length]? = rest[0]? := getElem?_front_append front rest 0
  cases rest with
  | nil =>
      right
      refine ⟨fun place hlacks => ?_, rfl⟩
      obtain ⟨hplaced, word, hword, -⟩ := hlacks
      rw [(hexpects place).mp hplaced, hplace] at hword
      cases hword
  | cons argument rest =>
      rw [atFront]
      split
      case isTrue hcommand =>
        right
        refine ⟨fun place hlacks => ?_, rfl⟩
        obtain ⟨hplaced, word, hword, hother⟩ := hlacks
        rw [(hexpects place).mp hplaced, hplace] at hword
        obtain rfl : argument = word := Option.some.inj hword
        exact hother (List.contains_iff_mem.mp hcommand)
      case isFalse hcommand =>
        left
        refine ⟨front.length, ⟨(hexpects _).mpr rfl, argument, ?_, ?_⟩, ?_⟩
        · rw [hplace]
          rfl
        · exact fun hmem => hcommand (List.contains_iff_mem.mpr hmem)
        · exact (insertIdx_front_append front (argument :: rest) 0 "scan").symm

theorem completes_separator (rest : List String) :
    Completes ("--" :: rest) ("--" :: atFront rest) := by
  have hstops : Stops ("--" :: rest) 0 := ⟨not_isValue_zero _, "--", rfl, .inl rfl⟩
  apply completes_atFront ["--"] rest
  intro place
  exact (expects_of_stops_zero hstops).trans (by rw [if_pos rfl, List.length_singleton])

theorem completes_word (hstart : argument.toList.head? ≠ some '-') (rest : List String) :
    Completes (argument :: rest) (atFront (argument :: rest)) := by
  have hstops : Stops (argument :: rest) 0 :=
    ⟨not_isValue_zero _, argument, rfl, .inr hstart⟩
  have hseparator : argument ≠ "--" := by
    rintro rfl
    exact hstart rfl
  apply completes_atFront [] (argument :: rest)
  intro place
  exact (expects_of_stops_zero hstops).trans (by rw [if_neg hseparator, List.length_nil])

/-- The search for the place takes one option after the other, with its value where it
has one, and then puts the command in front of what is left. -/
theorem completes_insert (arguments : List String) : Completes arguments (insert arguments) := by
  induction arguments using insert.induct with
  | case1 =>
      apply completes_of_not_stops
      rintro place ⟨-, argument, hargument, -⟩
      cases hargument
  | case2 rest =>
      rw [insert_separator]
      exact completes_separator rest
  | case3 option hseparator hvalue =>
      have hmem := List.contains_iff_mem.mp hvalue
      rw [insert_missing hmem]
      exact completes_of_not_stops (not_stops_missing hmem)
  | case4 option hseparator hvalue value rest ih =>
      have hmem := List.contains_iff_mem.mp hvalue
      rw [insert_value hmem]
      exact ih.append (passes_value hmem value rest)
  | case5 option rest hseparator hvalue hstart ih =>
      have hmem : option ∉ "--" :: valueOptions := by
        simpa [hseparator] using hvalue
      rw [insert_flag hmem hstart]
      exact ih.append (passes_option hmem hstart rest)
  | case6 word rest hseparator hvalue hstart =>
      rw [insert_word hstart]
      exact completes_word hstart rest

/-! ## Completed lines -/

theorem atFront_atFront (arguments : List String) :
    atFront (atFront arguments) = atFront arguments := by
  cases arguments with
  | nil => rfl
  | cons argument rest =>
      rw [atFront]
      split
      case isTrue hcommand => rw [atFront, if_pos hcommand]
      case isFalse => rfl

theorem insert_atFront (hstart : argument.toList.head? ≠ some '-') (rest : List String) :
    insert (atFront (argument :: rest)) = atFront (argument :: rest) := by
  rw [atFront]
  split
  case isTrue hcommand => rw [insert_word hstart, atFront, if_pos hcommand]
  case isFalse =>
    rw [insert_word (by decide)]
    rfl

/-- A second search passes over the same options as the first one, and what it comes to
then is a command. -/
theorem insert_insert (arguments : List String) : insert (insert arguments) = insert arguments := by
  induction arguments using insert.induct with
  | case1 => rfl
  | case2 rest => rw [insert_separator, insert_separator, atFront_atFront]
  | case3 option hseparator hvalue =>
      have hmem := List.contains_iff_mem.mp hvalue
      rw [insert_missing hmem, insert_missing hmem]
  | case4 option hseparator hvalue value rest ih =>
      have hmem := List.contains_iff_mem.mp hvalue
      rw [insert_value hmem, insert_value hmem, ih]
  | case5 option rest hseparator hvalue hstart ih =>
      have hmem : option ∉ "--" :: valueOptions := by
        simpa [hseparator] using hvalue
      rw [insert_flag hmem hstart, insert_flag hmem hstart, ih]
  | case6 word rest hseparator hvalue hstart => rw [insert_word hstart, insert_atFront hstart]

/-- There is one place at most where a command is expected. -/
theorem Expects.unique {other : Nat} (hplace : Expects arguments place)
    (hother : Expects arguments other) : place = other := by
  obtain ⟨stop, hstop, rfl⟩ := hplace
  obtain ⟨otherStop, hotherStop, rfl⟩ := hother
  rw [hstop.unique hotherStop]

theorem LacksCommand.place_lt (hlacks : LacksCommand arguments place) :
    place < arguments.length := by
  obtain ⟨-, word, hword, -⟩ := hlacks
  exact (List.getElem?_eq_some_iff.mp hword).1

theorem Completes.eq_of_lacksCommand (hcompletes : Completes arguments result)
    (hlacks : LacksCommand arguments place) : result = arguments.insertIdx place "scan" := by
  obtain ⟨other, hother, rfl⟩ | ⟨hnone, -⟩ := hcompletes
  · rw [hother.1.unique hlacks.1]
  · exact absurd hlacks (hnone place)

theorem Completes.ne_iff (hcompletes : Completes arguments result) :
    result ≠ arguments ↔ ∃ place, LacksCommand arguments place := by
  obtain ⟨place, hlacks, rfl⟩ | ⟨hnone, rfl⟩ := hcompletes
  · refine iff_of_true (fun heq => ?_) ⟨place, hlacks⟩
    have hlength := congrArg List.length heq
    rw [List.length_insertIdx_of_le_length hlacks.place_lt.le] at hlength
    omega
  · exact iff_of_false (fun hne => hne rfl) fun ⟨place, hlacks⟩ => hnone place hlacks

/-- A completed line is the line itself, with the command put in behind the program's
name at the place where it is lacking.  It differs from the line exactly if there is
such a place, and completing it once more changes nothing. -/
theorem complete_at_command_place (line : List String) :
    (∀ place, LacksCommand line.tail place →
      complete line = line.insertIdx (place + 1) "scan") ∧
    (complete line ≠ line ↔ ∃ place, LacksCommand line.tail place) ∧
    complete (complete line) = complete line := by
  cases line with
  | nil =>
      have hnone : ∀ place, ¬ LacksCommand [] place := fun place hlacks =>
        Nat.not_lt_zero place hlacks.place_lt
      refine ⟨fun place hlacks => absurd hlacks (hnone place), ?_, rfl⟩
      exact iff_of_false (fun hne => hne rfl) fun ⟨place, hlacks⟩ => hnone place hlacks
  | cons program arguments =>
      have hcompletes := completes_insert arguments
      rw [List.tail_cons, complete, complete]
      refine ⟨fun place hlacks => ?_, ?_, ?_⟩
      · rw [hcompletes.eq_of_lacksCommand hlacks, List.insertIdx_succ_cons]
      · rw [← hcompletes.ne_iff, Ne, List.cons.injEq]
        simp
      · rw [insert_insert]

/-- A separator and an option as values, and a flag in front of the path. -/
theorem complete_at_command_place_optionValues :
    let line := ["jar-sentry", "-o", "--", "--format", "-f", "-v", "lib/app.jar", "scan"]
    LacksCommand line.tail 5 ∧ complete line = line.insertIdx 6 "scan" := by
  intro line
  have hleast : IsLeast {stop | Stops line.tail stop} 5 := by
    refine ⟨by decide +kernel, fun stop hstop => ?_⟩
    have hearlier : ∀ stop < 5, ¬ Stops line.tail stop := by
      decide +kernel
    by_contra hlater
    exact hearlier stop (Nat.lt_of_not_le hlater) hstop
  have hlacks : LacksCommand line.tail 5 :=
    ⟨⟨5, hleast, by decide⟩, "lib/app.jar", rfl, by decide⟩
  exact ⟨hlacks, (complete_at_command_place line).1 5 hlacks⟩

end ImplicitScan

end ClassWarden
