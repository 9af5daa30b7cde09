import ClassWarden.CommandLine.Spelling
import Mathlib.Data.List.Nodup

/-!
# Reading written command lines

However an option is spelled, it is read with the value it was written with, and
options of different names do not get into each other's way.  The value of an
option and the paths are checked late, so that what has been read is described by
what it comes to once it is checked.
-/

namespace ClassWarden

namespace OptionName

variable {name : OptionName} {text : String} {letter : Char}

theorem ofLong?_longName (name : OptionName) : ofLong? name.longName = some name := by
  cases name <;> rfl

theorem ofShort?_of_letter? (hletter : name.letter? = some letter) :
    ofShort? letter = some name := by
  cases name <;> cases hletter <;> rfl

theorem not_mem_longName (name : OptionName) : '=' ∉ name.longName.toList := by
  cases name <;> decide

end OptionName

/-! ## Values -/

theorem Format.exists_parse?_eq {text : String} (htext : text = "json" ∨ text = "text") :
    ∃ format, Format.parse? text = some format ∧
      (text = "json" ∧ some format = some .json ∨ text = "text" ∧ some format = some .text) := by
  obtain rfl | rfl := htext
  · exact ⟨.json, rfl, .inl ⟨rfl, rfl⟩⟩
  · exact ⟨.text, rfl, .inr ⟨rfl, rfl⟩⟩

namespace OptionValues

variable {values : OptionValues} {name other : OptionName} {text : String}

theorem SameAt.refl (values : OptionValues) (name : OptionName) : values.SameAt values name := by
  cases name <;> rfl

theorem SameAt.symm {left right : OptionValues} (hsame : left.SameAt right name) :
    right.SameAt left name := by
  cases name <;> exact Eq.symm hsame

theorem SameAt.trans {left middle right : OptionValues} (hleft : left.SameAt middle name)
    (hright : middle.SameAt right name) : left.SameAt right name := by
  cases name <;> exact Eq.trans hleft hright

theorem SameAt.holds {left right : OptionValues} (hsame : left.SameAt right name)
    (hholds : left.Holds name text) : right.Holds name text := by
  cases name <;> simp only [SameAt] at hsame <;> simpa only [Holds, hsame] using hholds

theorem count_of_isNone {old : Option Nat} {value : Nat} (hold : old = .none)
    (hvalue : Count.parse text = .ok value) : count old text = .ok (some value) := by
  simp [count, hold, hvalue]

/-- An option that has no value yet takes each of its values. -/
theorem exists_set_eq_ok (hlacks : OptionValues.none.SameAt values name)
    (hadmits : name.Admits text) :
    ∃ next, values.set name text = .ok next ∧ next.Holds name text ∧
      ∀ other, other ≠ name → values.SameAt next other := by
  cases name with
  | maxDistance | maxSkip | threads =>
      obtain ⟨value, hvalue⟩ := hadmits
      rw [set, count_of_isNone hlacks.symm hvalue]
      refine ⟨_, rfl, ⟨value, hvalue, rfl⟩, fun other hother => ?_⟩
      cases other <;> grind [SameAt]
  | format =>
      have hnone : values.format = .none := hlacks.symm
      obtain ⟨format, hparse, hholds⟩ := Format.exists_parse?_eq hadmits
      refine ⟨{ values with format := some format }, by simp [set, hnone, hparse], hholds, ?_⟩
      intro other hother
      cases other <;> grind [SameAt]
  | output =>
      have hnone : values.output = .none := hlacks.symm
      have hne : text ≠ "" := hadmits
      refine ⟨{ values with output := some text }, by simp [set, hnone, hne], rfl, ?_⟩
      intro other hother
      cases other <;> grind [SameAt]

theorem none_within (values : OptionValues) : OptionValues.none.within values = values := by
  rfl

end OptionValues

/-! ## What arguments look like -/

namespace Arguments

variable {name : OptionName} {text : String} {letter : Char}

theorem splitEquals_of_not_mem {chars : List Char} (hchars : '=' ∉ chars) :
    splitEquals chars = (chars, none) := by
  induction chars with
  | nil => rfl
  | cons char chars ih =>
      obtain ⟨hchar, hrest⟩ := not_or.mp (List.mem_cons.not.mp hchars)
      rw [splitEquals, ih hrest]
      exact fun hequals => hchar hequals.symm

theorem splitEquals_append {chars : List Char} (hchars : '=' ∉ chars) (value : List Char) :
    splitEquals (chars ++ '=' :: value) = (chars, some value) := by
  induction chars with
  | nil => rfl
  | cons char chars ih =>
      obtain ⟨hchar, hrest⟩ := not_or.mp (List.mem_cons.not.mp hchars)
      rw [List.cons_append, splitEquals, ih hrest]
      exact fun hequals => hchar hequals.symm

variable {argument : String} {chars : List Char}

theorem shape_of_long (hargument : argument.toList = '-' :: '-' :: chars) (hne : chars ≠ []) :
    Shape.of argument =
      .long (String.ofList (splitEquals chars).1) ((splitEquals chars).2.map String.ofList) := by
  rw [Shape.of, hargument]
  cases chars with
  | nil => exact absurd rfl hne
  | cons char chars => rfl

theorem shape_of_short (hargument : argument.toList = '-' :: letter :: chars)
    (hletter : letter ≠ '-') : Shape.of argument = .short letter chars := by
  rw [Shape.of, hargument]
  split
  case h_1 hchars => exact absurd (List.cons.inj (List.cons.inj hchars).2).1 hletter
  case h_2 hchars => exact absurd (List.cons.inj (List.cons.inj hchars).2).1 hletter
  case h_3 hchars =>
    cases hchars
    rfl
  case h_4 hother => exact absurd rfl (hother letter chars)

theorem shape_of_word (hword : IsWord text) : Shape.of text = .word text := by
  obtain rfl | hstart := hword
  · rfl
  · rw [Shape.of]
    split
    case h_1 hchars | h_2 hchars | h_3 hchars =>
      rw [hchars] at hstart
      exact absurd rfl hstart
    case h_4 => rfl

theorem longName_ne_nil (name : OptionName) : name.longName.toList ≠ [] := by
  cases name <;> decide

theorem shape_long (name : OptionName) :
    Shape.of ("--" ++ name.longName) = .long name.longName none := by
  have hargument : ("--" ++ name.longName).toList = '-' :: '-' :: name.longName.toList := by
    simp
  rw [shape_of_long hargument (longName_ne_nil name),
    splitEquals_of_not_mem (OptionName.not_mem_longName name)]
  simp

theorem shape_long_joined (name : OptionName) (text : String) :
    Shape.of ("--" ++ name.longName ++ "=" ++ text) = .long name.longName (some text) := by
  have hargument : ("--" ++ name.longName ++ "=" ++ text).toList =
      '-' :: '-' :: (name.longName.toList ++ '=' :: text.toList) := by
    simp
  rw [shape_of_long hargument (by simp), splitEquals_append (OptionName.not_mem_longName name)]
  simp

theorem letter_ne_dash (hletter : name.letter? = some letter) : letter ≠ '-' := by
  cases name <;> cases hletter <;> decide

theorem toList_letter : ("-" ++ letter.toString).toList = ['-', letter] := by
  simp

theorem toList_letter_append :
    ("-" ++ letter.toString ++ text).toList = '-' :: letter :: text.toList := by
  simp

theorem toList_letter_joined :
    ("-" ++ letter.toString ++ "=" ++ text).toList = '-' :: letter :: '=' :: text.toList := by
  simp

/-- What follows the letter is the attached value, if there is anything. -/
theorem shape_letter (hletter : name.letter? = some letter)
    (hargument : argument.toList = '-' :: letter :: chars) :
    Shape.of argument = .short letter chars :=
  shape_of_short hargument (letter_ne_dash hletter)

theorem attachedValue?_toList (hne : text ≠ "") (hstart : text.toList.head? ≠ some '=') :
    attachedValue? text.toList = some text := by
  rw [attachedValue?.eq_def]
  split
  case h_1 hchars => exact absurd (String.toList_eq_nil_iff.mp hchars) hne
  case h_2 hchars =>
    rw [hchars] at hstart
    exact absurd rfl hstart
  case h_3 => simp

/-! ## Reading one argument -/

variable {level : Level} {progress later : Progress} {rest : List String}
variable {option : OptionName} {value? : Option String}

/-- An argument that begins with a dash is no command. -/
theorem not_command_of_shape (argument : String) (hshape : Shape.of argument ≠ .word argument) :
    argument ≠ "scan" ∧ argument ≠ "signatures" ∧ argument ≠ "help" := by
  refine ⟨?_, ?_, ?_⟩ <;> rintro rfl <;> exact hshape (by decide)

theorem read_long (hshape : Shape.of argument = .long text value?)
    (hoption : OptionName.ofLong? text = some option)
    (hnext : progress.option option value? = .ok later) :
    read level progress (argument :: rest) = read level later rest := by
  obtain ⟨hscan, hsignatures, hhelp⟩ := not_command_of_shape argument (by simp [hshape])
  rw [read]
  simp [hscan, hsignatures, hhelp, hshape, hoption, hnext]

theorem read_short (hshape : Shape.of argument = .short letter chars)
    (hoption : OptionName.ofShort? letter = some option)
    (hnext : progress.option option (attachedValue? chars) = .ok later) :
    read level progress (argument :: rest) = read level later rest := by
  obtain ⟨hscan, hsignatures, hhelp⟩ := not_command_of_shape argument (by simp [hshape])
  rw [read]
  simp [hscan, hsignatures, hhelp, hshape, hoption, hnext]

/-- A word behind an option is its value, also if it is the name of a command. -/
theorem read_value (hpending : progress.pending = .option option none) (hword : IsWord text) :
    read level progress (text :: rest) =
      read level { progress with pending := .option option (some text) } rest := by
  have hawaits : progress.awaitsValue = true := by
    rw [Progress.awaitsValue, hpending]
  rw [read]
  simp [hawaits, shape_of_word hword, hpending]

/-- The command ends the options in front of it. -/
theorem read_scan (hawaits : progress.awaitsValue = false) {inner : Invocation}
    (hinner : read .scan .start rest = .ok inner) :
    read .top progress ("scan" :: rest) = enclose progress inner := by
  rw [read]
  simp [hawaits, hinner]

theorem read_separator : read level progress ("--" :: rest) = trailing level progress rest := by
  rw [read]
  simp [show Shape.of "--" = .separator by decide]

/-- Behind a separator there is no command to be found. -/
theorem read_separator_scan :
    read .top progress ("--" :: "scan" :: rest) = .error .unknownArgument := by
  rw [read_separator, trailing, if_pos ⟨rfl, by decide⟩]

/-! ## Reading the options -/

variable {values next : OptionValues} {options : List GivenOption}

/-- The options read so far are complete and have these values, though the last
value may still have to be checked. -/
structure Ready (values : OptionValues) (progress : Progress) : Prop where
  settle_eq : progress.settle = .ok ⟨values, [], .nothing⟩
  awaitsValue_eq : progress.awaitsValue = false

theorem ready_start : Ready .none .start :=
  ⟨rfl, rfl⟩

theorem ready_settled (values : OptionValues) : Ready values ⟨values, [], .nothing⟩ :=
  ⟨rfl, rfl⟩

/-- An attached value is checked at once. -/
theorem Ready.option_attached (hready : Ready values progress)
    (hset : values.set option text = .ok next) :
    progress.option option (some text) = .ok ⟨next, [], .nothing⟩ := by
  rw [Progress.option, hready.settle_eq]
  simp [hset]

theorem Ready.option_separate (hready : Ready values progress) :
    progress.option option none = .ok ⟨values, [], .option option none⟩ := by
  rw [Progress.option, hready.settle_eq]

/-- A value of its own is checked with what follows. -/
theorem ready_pending (hset : values.set option text = .ok next) :
    Ready next ⟨values, [], .option option (some text)⟩ := by
  refine ⟨?_, rfl⟩
  rw [Progress.settle]
  simp [hset]

/-- However an option is spelled, it is read with its value. -/
theorem read_spelled (hready : Ready values progress) {arguments : List String}
    (hspelled : Spelled option text arguments) (hset : values.set option text = .ok next) :
    ∃ later, Ready next later ∧
      ∀ level rest, read level progress (arguments ++ rest) = read level later rest := by
  cases hspelled with
  | separate hword =>
      refine ⟨_, ready_pending hset, fun level rest => ?_⟩
      rw [List.cons_append, read_long (shape_long option) option.ofLong?_longName
        hready.option_separate]
      exact read_value rfl hword
  | joined =>
      refine ⟨_, ready_settled next, fun level rest => ?_⟩
      exact read_long (shape_long_joined option text) option.ofLong?_longName
        (hready.option_attached hset)
  | letter hletter hword =>
      refine ⟨_, ready_pending hset, fun level rest => ?_⟩
      rw [List.cons_append, read_short (shape_letter hletter toList_letter)
        (OptionName.ofShort?_of_letter? hletter) hready.option_separate]
      exact read_value rfl hword
  | letterAttached hletter hne hstart =>
      refine ⟨_, ready_settled next, fun level rest => ?_⟩
      refine read_short (shape_letter hletter toList_letter_append)
        (OptionName.ofShort?_of_letter? hletter) ?_
      rw [attachedValue?_toList hne hstart]
      exact hready.option_attached hset
  | letterJoined hletter =>
      refine ⟨_, ready_settled next, fun level rest => ?_⟩
      refine read_short (shape_letter hletter toList_letter_joined)
        (OptionName.ofShort?_of_letter? hletter) ?_
      rw [attachedValue?, String.ofList_toList]
      exact hready.option_attached hset

/-- Options of different names are all read. -/
theorem read_options (hready : Ready values progress)
    (hnodup : (options.map GivenOption.name).Nodup)
    (hlacks : ∀ option ∈ options, OptionValues.none.SameAt values option.name) :
    ∃ next later, Ready next later ∧
      (∀ level rest, read level progress (options.flatMap GivenOption.arguments ++ rest) =
        read level later rest) ∧
      (∀ option ∈ options, next.Holds option.name option.text) ∧
      ∀ name, name ∉ options.map GivenOption.name → values.SameAt next name := by
  induction options generalizing values progress with
  | nil => exact ⟨values, progress, hready, fun _ _ => rfl, by simp, fun _ _ => .refl values _⟩
  | cons option options ih =>
      -- The names of the later options are still without a value: this one has another name.
      obtain ⟨hfresh, hnodup⟩ := List.nodup_cons.mp hnodup
      obtain ⟨between, hset, hholds, hsame⟩ :=
        OptionValues.exists_set_eq_ok (hlacks option (.head _)) option.admits
      obtain ⟨progress', hready', hread⟩ := read_spelled hready option.spelled hset
      have hlacks' : ∀ other ∈ options, OptionValues.none.SameAt between other.name := by
        intro other hother
        refine (hlacks other (.tail _ hother)).trans (hsame other.name ?_)
        intro hname
        exact hfresh (hname ▸ List.mem_map_of_mem hother)
      obtain ⟨next, later, hlater, hreads, hall, hothers⟩ := ih hready' hnodup hlacks'
      refine ⟨next, later, hlater, fun level rest => ?_, ?_, fun name hname => ?_⟩
      · rw [List.flatMap_cons, List.append_assoc, hread, hreads]
      · intro other hother
        obtain rfl | hother := List.mem_cons.mp hother
        · exact (hothers _ hfresh).holds hholds
        · exact hall other hother
      · obtain ⟨hne, hname⟩ := not_or.mp (List.mem_cons.not.mp hname)
        exact (hsame name hne).trans (hothers name hname)

/-! ## Reading the paths -/

variable {seen paths : List String}

theorem read_paths (hplain : ∀ path ∈ paths, path.toList.head? ≠ some '-') :
    read .scan ⟨values, [], .paths seen⟩ paths =
      finish .scan ⟨values, [], .paths (seen ++ paths)⟩ := by
  induction paths generalizing seen with
  | nil => rw [List.append_nil, read]
  | cons path paths ih =>
      have hword : IsWord path := .inr (hplain path (.head _))
      have hplain' : ∀ other ∈ paths, other.toList.head? ≠ some '-' :=
        fun other hother => hplain other (.tail _ hother)
      rw [read]
      simp [shape_of_word hword, word, Progress.path, ih hplain']

/-- Behind the separator a path may look like anything. -/
theorem trailing_paths :
    trailing .scan ⟨values, [], .paths seen⟩ paths =
      finish .scan ⟨values, [], .paths (seen ++ paths)⟩ := by
  induction paths generalizing seen with
  | nil => rw [List.append_nil, trailing]
  | cons path paths ih =>
      rw [trailing]
      simp [word, Progress.path, ih]

theorem finish_paths (hne : paths ≠ []) (hnonempty : ∀ path ∈ paths, path ≠ "") :
    finish .scan ⟨values, [], .paths paths⟩ = .ok ⟨.scan paths, values⟩ := by
  have hmem : "" ∉ paths := fun hempty => hnonempty "" hempty rfl
  simp [finish, Progress.settle, hmem, hne]

theorem Ready.enclose_eq (hready : Ready values progress) (command : Command) :
    enclose progress ⟨command, .none⟩ = .ok ⟨command, values⟩ := by
  rw [enclose, hready.settle_eq]
  simp only [OptionValues.none_within]

end Arguments

namespace PathLine

open Arguments

variable (line : PathLine)

theorem read_rest : read .scan .start line.rest = .ok ⟨.scan line.paths, .none⟩ := by
  have hfinish : finish .scan ⟨.none, [], .paths line.paths⟩ = .ok ⟨.scan line.paths, .none⟩ :=
    finish_paths (List.cons_ne_nil _ _) line.paths_ne_empty
  rw [← hfinish, PathLine.rest]
  split
  case isTrue =>
    rw [read_separator, PathLine.paths, trailing, if_neg (by simp)]
    exact trailing_paths
  case isFalse hseparated =>
    have hplain := line.separated_or_plain.resolve_left hseparated
    have hword : IsWord line.first := .inr (hplain line.first (.head _))
    rw [PathLine.paths, Arguments.read]
    simp only [shape_of_word hword, reduceCtorEq, decide_false, Bool.false_and,
      Bool.false_eq_true, if_false]
    exact read_paths fun path hpath => hplain path (.tail _ hpath)

/-- The options in front are read whatever follows them. -/
theorem exists_parse_given :
    ∃ values progress, values.Gathers line.options ∧ Ready values progress ∧
      ∀ rest, parse (line.program :: (line.given ++ rest)) = read .top progress rest := by
  obtain ⟨values, progress, hready, hread, hholds, hothers⟩ :=
    read_options ready_start line.options_nodup fun option _ => .refl .none option.name
  exact ⟨values, progress, ⟨hholds, fun name hname => (hothers name hname).symm⟩, hready,
    hread .top⟩

/-- With the command in front of the paths, and the options in front of that, the
line asks for a scan of the paths. -/
theorem read_scan_rest {values : OptionValues} {progress : Progress}
    (hready : Ready values progress) :
    read .top progress ("scan" :: line.rest) = .ok ⟨.scan line.paths, values⟩ := by
  rw [read_scan hready.awaitsValue_eq line.read_rest]
  exact hready.enclose_eq _

end PathLine

end ClassWarden
