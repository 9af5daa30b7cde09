import ClassWarden.CommandLine.ImplicitScan
import ClassWarden.Proofs.Arguments

/-!
# Scans of bare paths

A command line that names paths and no command asks for a scan of these paths,
and its options mean what they mean with the command spelled out.  This needs the
place where the command is put to be found by the same reading of the options that
later checks them.

It holds of every line without a separator.  Where there is one, the command is put
on the wrong side of it: there it counts as a path of no command, and the line is
refused.
-/

namespace ClassWarden

namespace ImplicitScan

variable {name : OptionName} {text argument : String} {arguments rest : List String}

theorem insert_separator : insert ("--" :: rest) = "--" :: atFront rest := by
  rw [insert.eq_def]
  rfl

/-- An argument with a dash in front stands for itself unless it is the separator or
takes a value. -/
theorem insert_flag (hmem : argument ∉ "--" :: valueOptions)
    (hstart : argument.toList.head? = some '-') :
    insert (argument :: rest) = argument :: insert rest := by
  obtain ⟨hseparator, hvalue⟩ := not_or.mp (List.mem_cons.not.mp hmem)
  rw [insert.eq_def]
  simp [hseparator, hvalue, hstart]

theorem insert_word (hstart : argument.toList.head? ≠ some '-') :
    insert (argument :: rest) = atFront (argument :: rest) := by
  have hoptions : ∀ option ∈ "--" :: valueOptions, option.toList.head? = some '-' := by decide
  have hmem : argument ∉ "--" :: valueOptions := fun hmem => hstart (hoptions argument hmem)
  obtain ⟨hseparator, hvalue⟩ := not_or.mp (List.mem_cons.not.mp hmem)
  rw [insert.eq_def]
  simp [hseparator, hvalue, hstart]

theorem insert_value (hvalue : argument ∈ valueOptions) :
    insert (argument :: text :: rest) = argument :: text :: insert rest := by
  have hseparator : argument ≠ "--" := by
    rintro rfl
    exact absurd hvalue (by decide)
  rw [insert.eq_def]
  simp [hseparator, hvalue]

/-- No option that takes its value from the next argument has an equals sign. -/
theorem insert_joined (hequals : '=' ∈ argument.toList)
    (hstart : argument.toList.head? = some '-') :
    insert (argument :: rest) = argument :: insert rest := by
  have hoptions : ∀ option ∈ "--" :: valueOptions, '=' ∉ option.toList := by decide
  exact insert_flag (fun hmem => hoptions argument hmem hequals) hstart

/-- A letter with something behind it takes nothing from the next argument. -/
theorem insert_attached {letter : Char} {chars : List Char} (hletter : letter ≠ '-')
    (hchars : chars ≠ []) (hargument : argument.toList = '-' :: letter :: chars) :
    insert (argument :: rest) = argument :: insert rest := by
  -- What is compared with has two dashes or is a dash and a letter.
  have hoptions : ∀ option ∈ "--" :: valueOptions,
      option.toList[1]? = some '-' ∨ option.toList.drop 2 = [] := by
    decide
  have hmem : argument ∉ "--" :: valueOptions := by
    intro hmem
    obtain hsecond | hshort := hoptions argument hmem
    · rw [hargument] at hsecond
      exact hletter (Option.some.inj hsecond)
    · rw [hargument] at hshort
      exact hchars hshort
  exact insert_flag hmem (by rw [hargument, List.head?_cons])

/-- However an option is spelled, all its arguments are passed over. -/
theorem insert_spelled (hspelled : Spelled name text arguments) :
    insert (arguments ++ rest) = arguments ++ insert rest := by
  cases hspelled with
  | separate hword => exact insert_value (by cases name <;> decide)
  | joined => exact insert_joined (by simp) (by simp)
  | letter hletter hword => exact insert_value (by cases name <;> cases hletter <;> decide)
  | letterAttached hletter hne hstart =>
      exact insert_attached (Arguments.letter_ne_dash hletter)
        (String.toList_eq_nil_iff.not.mpr hne) Arguments.toList_letter_append
  | letterJoined hletter => exact insert_joined (by simp) (by simp)

theorem insert_options (options : List GivenOption) (rest : List String) :
    insert (options.flatMap GivenOption.arguments ++ rest) =
      options.flatMap GivenOption.arguments ++ insert rest := by
  induction options with
  | nil => rfl
  | cons option options ih =>
      rw [List.flatMap_cons, List.append_assoc, insert_spelled option.spelled, ih,
        List.append_assoc]

theorem atFront_paths (line : PathLine) : atFront line.paths = "scan" :: line.paths := by
  rw [PathLine.paths, atFront, if_neg (by simpa using line.first_not_command)]

theorem insert_rest_of_separated {line : PathLine} (hseparated : line.separated = true) :
    insert line.rest = "--" :: "scan" :: line.paths := by
  rw [PathLine.rest, if_pos hseparated, insert_separator, atFront_paths]

theorem insert_rest_of_not_separated {line : PathLine} (hseparated : line.separated = false) :
    insert line.rest = "scan" :: line.rest := by
  have hplain : line.first.toList.head? ≠ some '-' :=
    line.separated_or_plain.resolve_left (by simp [hseparated]) line.first (.head _)
  rw [PathLine.rest, if_neg (by simp [hseparated]), ← atFront_paths, PathLine.paths]
  exact insert_word hplain

/-- Without a separator the line becomes the one with the command spelled out; else
the command comes to stand behind the separator. -/
theorem complete_bare (line : PathLine) :
    complete line.bare =
      if line.separated then line.program :: (line.given ++ "--" :: "scan" :: line.paths)
      else line.explicit := by
  rw [PathLine.bare, complete, PathLine.given, insert_options, ← PathLine.given]
  split
  case isTrue hseparated => rw [insert_rest_of_separated hseparated]
  case isFalse hseparated =>
    rw [insert_rest_of_not_separated (Bool.not_eq_true _ ▸ hseparated), PathLine.explicit]

/-- A line of options and paths is one that the command spelled out makes a scan of
exactly these paths with exactly these options.  Without the command it means the
same, unless a separator stands in front of the paths: then it is refused. -/
theorem bare_paths_scanned (line : PathLine) :
    ∃ values : OptionValues, values.Gathers line.options ∧
      Arguments.parse line.explicit = .ok ⟨.scan line.paths, values⟩ ∧
      Arguments.parse (complete line.bare) =
        if line.separated then .error .unknownArgument else .ok ⟨.scan line.paths, values⟩ := by
  obtain ⟨values, progress, hgathers, hready, hparse⟩ := line.exists_parse_given
  have hexplicit : Arguments.parse line.explicit = .ok ⟨.scan line.paths, values⟩ := by
    rw [PathLine.explicit, hparse, line.read_scan_rest hready]
  refine ⟨values, hgathers, hexplicit, ?_⟩
  rw [complete_bare]
  split
  case isTrue => rw [hparse, Arguments.read_separator_scan]
  case isFalse => exact hexplicit

/-- Options in three spellings and two paths. -/
theorem bare_paths_scanned_mixed :
    ∃ line : PathLine,
      line.bare = ["jar-sentry", "-f=json", "--max-skip", "0", "-oreport", "a.jar", "scan"] ∧
      ∃ values : OptionValues, values.Gathers line.options ∧
        Arguments.parse (complete line.bare) = .ok ⟨.scan ["a.jar", "scan"], values⟩ := by
  have hreport : "report" ≠ "" := by decide
  let format : GivenOption := ⟨.format, "json", _, .inl rfl, .letterJoined rfl⟩
  let maxSkip : GivenOption :=
    ⟨.maxSkip, "0", _, ⟨0, by decide⟩, .separate (.inr (by decide))⟩
  let output : GivenOption :=
    ⟨.output, "report", _, hreport, .letterAttached rfl hreport (by decide)⟩
  have hnames : ([format, maxSkip, output].map GivenOption.name).Nodup := by
    simp [format, maxSkip, output]
  let line : PathLine :=
    ⟨"jar-sentry", [format, maxSkip, output], hnames, false, "a.jar", ["scan"], by decide,
      by decide, .inr (by decide)⟩
  obtain ⟨values, hgathers, -, hbare⟩ := bare_paths_scanned line
  exact ⟨line, rfl, values, hgathers, hbare⟩

/-- A separator in front of the path makes the line without the command an error. -/
theorem separated_path_refused :
    Arguments.parse (complete ["jar-sentry", "--", "a.jar"]) = .error .unknownArgument ∧
      Arguments.parse ["jar-sentry", "scan", "--", "a.jar"] = .ok ⟨.scan ["a.jar"], .none⟩ := by
  decide +kernel

end ImplicitScan

end ClassWarden
