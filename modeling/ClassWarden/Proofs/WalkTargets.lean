import ClassWarden.Program
import Mathlib.Data.List.Basic

/-!
# Walks and kinds

A walk goes by the extension of a file's name and the detector by the ending of the
whole path.  Both agree on every name but two: a name that is nothing but an ending
has no extension, though it has a kind.  So a walk yields the files beneath a
directory that have a kind, less those whose whole name is `.jar` or `.class`.
-/

namespace ClassWarden

namespace Path

/-- A text that an entry of a directory can be named by. -/
structure IsName (text : String) : Prop where
  ne_empty : text ≠ ""
  ne_here : text ≠ "."
  ne_parent : text ≠ ".."
  slash_not_mem : '/' ∉ text.toList

instance (text : String) : Decidable (IsName text) :=
  decidable_of_iff (text ≠ "" ∧ text ≠ "." ∧ text ≠ ".." ∧ '/' ∉ text.toList)
    ⟨fun ⟨hempty, hhere, hparent, hslash⟩ => ⟨hempty, hhere, hparent, hslash⟩,
      fun hname => ⟨hname.ne_empty, hname.ne_here, hname.ne_parent, hname.slash_not_mem⟩⟩

/-- The last piece of a path is a name. -/
inductive EndsIn : String → String → Prop where
  | alone {name : String} (hname : IsName name) : EndsIn name name
  | beneath {directory name : String} (hname : IsName name) :
      EndsIn (directory ++ "/" ++ name) name

variable {path directory name text extension : String} {chars : List Char}

/-- There is a slash between a directory's path and a name, unless the path is empty. -/
theorem join_cases (directory name : String) :
    directory = "" ∧ join directory name = name ∨
      ∃ front, (directory = front ++ "/" ∨ directory = front ∧ directory ≠ "") ∧
        join directory name = front ++ "/" ++ name := by
  rw [join]
  split
  case h_1 hlast =>
    rw [List.getLast?_eq_none_iff, String.toList_eq_nil_iff] at hlast
    exact .inl ⟨hlast, rfl⟩
  case h_2 last hlast =>
    right
    split
    case isTrue hslash =>
      obtain ⟨front, hfront⟩ := List.getLast?_eq_some_iff.mp (hslash ▸ hlast)
      have hdirectory : directory = String.ofList front ++ "/" := by
        rw [← String.toList_inj, hfront]
        simp
      exact ⟨String.ofList front, .inl hdirectory, by rw [hdirectory]⟩
    case isFalse =>
      refine ⟨directory, .inr ⟨rfl, ?_⟩, rfl⟩
      rintro rfl
      cases hlast

theorem endsIn_join (directory : String) (hname : IsName name) :
    EndsIn (join directory name) name := by
  obtain ⟨-, hjoin⟩ | ⟨front, -, hjoin⟩ := join_cases directory name
  · rw [hjoin]
    exact .alone hname
  · rw [hjoin]
    exact .beneath hname

/-! ## Pieces -/

theorem split_eq_splitOn (separator : Char) (chars : List Char) :
    split separator chars = chars.splitOn separator := by
  induction chars with
  | nil => rfl
  | cons char chars ih =>
      rw [split, ih, List.splitOn_cons_eq_if_modifyHead]
      by_cases hchar : char = separator
      · simp [hchar]
      · rw [if_neg hchar, if_neg (by simpa using hchar)]
        cases hpieces : chars.splitOn separator with
        | nil => exact absurd hpieces (List.splitOn_ne_nil separator chars)
        | cons piece pieces => rfl

theorem toList_beneath (directory name : String) :
    (directory ++ "/" ++ name).toList = directory.toList ++ '/' :: name.toList := by
  simp

theorem pieces_of_slash_not_mem (hslash : '/' ∉ name.toList) : pieces name = [name] := by
  rw [pieces, split_eq_splitOn, List.splitOn_eq_singleton hslash]
  simp

theorem pieces_beneath (directory : String) (hslash : '/' ∉ name.toList) :
    pieces (directory ++ "/" ++ name) = pieces directory ++ [name] := by
  rw [pieces, toList_beneath, split_eq_splitOn, List.splitOn_append_cons_self,
    List.map_append, ← split_eq_splitOn, ← pieces, ← split_eq_splitOn, ← pieces,
    pieces_of_slash_not_mem hslash]

theorem EndsIn.pieces_eq (hends : EndsIn path name) :
    ∃ front, pieces path = front ++ [name] := by
  cases hends with
  | alone hname => exact ⟨[], pieces_of_slash_not_mem hname.slash_not_mem⟩
  | @beneath directory _ hname => exact ⟨pieces directory, pieces_beneath _ hname.slash_not_mem⟩

theorem EndsIn.isName (hends : EndsIn path name) : IsName name := by
  cases hends <;> assumption

theorem IsName.ofPiece? (hname : IsName name) : Component.ofPiece? name = some (.name name) := by
  simp [Component.ofPiece?, hname.ne_empty, hname.ne_here, hname.ne_parent]

theorem components_getLast? {front : List String} (hpieces : pieces path = front ++ [name])
    (hname : IsName name) : (components path).getLast? = some (.name name) := by
  rw [components, hpieces]
  cases front with
  | nil => simp [hname.ne_empty, hname.ne_here, hname.ofPiece?]
  | cons first rest =>
      have hlater : (rest ++ [name]).filterMap Component.ofPiece? =
          rest.filterMap Component.ofPiece? ++ [.name name] := by
        simp [hname.ofPiece?]
      have hrest : (rest ++ [name]).isEmpty = false := by
        simp
      simp only [List.cons_append, hlater, hrest, Bool.false_eq_true, if_false]
      split
      case isTrue => rw [← List.cons_append, List.getLast?_concat]
      case isFalse =>
        split
        case isTrue => rw [← List.cons_append, List.getLast?_concat]
        case isFalse => rw [← List.append_assoc, List.getLast?_concat]

theorem EndsIn.fileName?_eq (hends : EndsIn path name) : fileName? path = some name := by
  obtain ⟨front, hpieces⟩ := hends.pieces_eq
  rw [fileName?, components_getLast? hpieces hends.isName]

/-! ## Endings -/

/-- An ending without a slash is one of the last piece. -/
theorem EndsIn.hasSuffix_iff (hends : EndsIn path name) {ending : String}
    (hslash : '/' ∉ ending.toList) :
    Subject.hasSuffix path ending = true ↔ Subject.hasSuffix name ending = true := by
  cases hends with
  | alone => rfl
  | @beneath directory _ hname =>
      rw [Subject.hasSuffix, Subject.hasSuffix, List.isSuffixOf_iff_suffix,
        List.isSuffixOf_iff_suffix, toList_beneath]
      constructor
      · intro hsuffix
        obtain hlong | hshort :=
          List.suffix_or_suffix_of_suffix (List.suffix_append _ ('/' :: name.toList)) hsuffix
        · exact absurd (hlong.subset (.head _)) hslash
        · obtain heq | hname := List.suffix_cons_iff.mp hshort
          · exact absurd (heq ▸ List.mem_cons_self) hslash
          · exact hname
      · intro hsuffix
        exact hsuffix.trans ((List.suffix_cons '/' _).trans (List.suffix_append _ _))

theorem split_eq_singleton_nil_iff {separator : Char} :
    split separator chars = [[]] ↔ chars = [] := by
  rw [split_eq_splitOn]
  constructor
  · intro hpieces
    have hchars : [separator].intercalate (chars.splitOn separator) = chars :=
      List.intercalate_splitOn separator
    rw [hpieces] at hchars
    exact hchars.symm
  · rintro rfl
    rfl

/-- The extension follows the last dot, unless that dot comes first. -/
theorem nameExtension?_ofList {stem last : List Char} (hlast : '.' ∉ last) :
    nameExtension? (String.ofList (stem ++ '.' :: last)) =
      if stem = [] then none else some (String.ofList last) := by
  have hsplit : split '.' (stem ++ '.' :: last) = split '.' stem ++ [last] := by
    simp only [split_eq_splitOn, List.splitOn_append_cons_self, List.splitOn_eq_singleton hlast]
  rw [nameExtension?, String.toList_ofList, hsplit, List.reverse_append]
  cases hreverse : (split '.' stem).reverse with
  | nil =>
      rw [List.reverse_eq_nil_iff, split_eq_splitOn] at hreverse
      exact absurd hreverse (List.splitOn_ne_nil '.' stem)
  | cons before more =>
      have hfirst : before = [] ∧ more = [] ↔ stem = [] := by
        rw [← List.cons.injEq, ← hreverse, List.reverse_eq_iff]
        exact split_eq_singleton_nil_iff
      simp only [List.reverse_singleton, List.singleton_append, hfirst]

theorem nameExtension?_of_not_mem (hdot : '.' ∉ name.toList) : nameExtension? name = none := by
  rw [nameExtension?, split_eq_splitOn, List.splitOn_eq_singleton hdot]
  rfl

/-- Two endings that a character begins and that hold it nowhere else are the same. -/
theorem cons_suffix_append_cons_iff {separator : Char} {stem last ending : List Char}
    (hlast : separator ∉ last) (hending : separator ∉ ending) :
    separator :: ending <:+ stem ++ separator :: last ↔ ending = last := by
  constructor
  · intro hsuffix
    obtain hshort | hlong :=
      List.suffix_or_suffix_of_suffix hsuffix (List.suffix_append stem (separator :: last))
    · obtain heq | hinner := List.suffix_cons_iff.mp hshort
      · exact (List.cons.inj heq).2
      · exact absurd (hinner.subset (.head _)) hlast
    · obtain heq | hinner := List.suffix_cons_iff.mp hlong
      · exact (List.cons.inj heq).2.symm
      · exact absurd (hinner.subset (.head _)) hending
  · rintro rfl
    exact List.suffix_append _ _

theorem exists_last_of_mem {char : Char} (hmem : char ∈ chars) :
    ∃ stem last, chars = stem ++ char :: last ∧ char ∉ last := by
  obtain ⟨front, back, hreverse, hfront⟩ :=
    List.eq_append_cons_of_mem (List.mem_reverse.mpr hmem)
  refine ⟨back.reverse, front.reverse, ?_, by simpa using hfront⟩
  rw [← List.reverse_inj, hreverse]
  simp

/-- A name has an extension if it ends in it, a dot in front, and is more than that. -/
theorem nameExtension?_eq_some_iff (hextension : '.' ∉ extension.toList) :
    nameExtension? name = some extension ↔
      Subject.hasSuffix name ("." ++ extension) = true ∧ name ≠ "." ++ extension := by
  have hending : ("." ++ extension).toList = '.' :: extension.toList := by
    simp
  rw [Subject.hasSuffix, List.isSuffixOf_iff_suffix, hending]
  by_cases hdot : '.' ∈ name.toList
  · obtain ⟨stem, last, hname, hlast⟩ := exists_last_of_mem hdot
    obtain rfl : name = String.ofList (stem ++ '.' :: last) := by
      rw [← hname, String.ofList_toList]
    rw [nameExtension?_ofList hlast, String.toList_ofList,
      cons_suffix_append_cons_iff hlast hextension, Ne, ← String.toList_inj, hending,
      String.toList_ofList]
    by_cases hstem : stem = []
    · rw [if_pos hstem, hstem]
      simp [eq_comm]
    · rw [if_neg hstem, Option.some.injEq, ← String.toList_inj, String.toList_ofList]
      constructor
      · rintro rfl
        refine ⟨rfl, fun hname => hstem ?_⟩
        exact List.append_cancel_right (hname.trans (List.nil_append _).symm)
      · exact fun hsame => hsame.1.symm
  · rw [nameExtension?_of_not_mem hdot]
    have hsuffix : ¬ '.' :: extension.toList <:+ name.toList := fun hsuffix =>
      hdot (hsuffix.subset (.head _))
    simp [hsuffix]

end Path

/-- What a walk sees can be: the entries of directories have names. -/
inductive Listing.WellNamed : Listing → Prop where
  | file : WellNamed .file
  | other : WellNamed .other
  | directory {entries : List (String × Listing)}
      (named : ∀ entry ∈ entries, Path.IsName entry.1)
      (inner : ∀ entry ∈ entries, entry.2.WellNamed) : WellNamed (.directory entries)

namespace Targets

variable {path name base : String} {listing : Listing}

/-- Whether a file's whole name is one of the endings that kinds go by. -/
def isBareEnding (path : String) : Bool :=
  Path.fileName? path = some ".jar" || Path.fileName? path = some ".class"

theorem isTarget_iff_extension? :
    isTarget path = true ↔
      Path.extension? path = some "jar" ∨ Path.extension? path = some "class" := by
  rw [isTarget]
  cases Path.extension? path <;> simp

/-- A path with a kind is a target, unless its file's name is nothing but the ending. -/
theorem isTarget_iff (hends : Path.EndsIn path name) :
    isTarget path = true ↔
      (Program.fileSubject path).kind?.isSome = true ∧ isBareEnding path = false := by
  have hextension : Path.extension? path = Path.nameExtension? name := by
    rw [Path.extension?, hends.fileName?_eq, Option.bind_some]
  have htarget : isTarget path = true ↔
      Path.nameExtension? name = some "jar" ∨ Path.nameExtension? name = some "class" := by
    rw [isTarget_iff_extension?, hextension]
  have hkind : (Program.fileSubject path).kind?.isSome = true ↔
      Subject.hasSuffix name ".jar" = true ∨ Subject.hasSuffix name ".class" = true := by
    rw [← hends.hasSuffix_iff (by decide), ← hends.hasSuffix_iff (by decide), Subject.kind?,
      Program.fileSubject, Subject.new]
    split <;> simp_all
  rw [htarget, hkind, Path.nameExtension?_eq_some_iff (by decide),
    Path.nameExtension?_eq_some_iff (by decide), isBareEnding, hends.fileName?_eq]
  have hjar : "." ++ "jar" = ".jar" := by decide
  have hclass : "." ++ "class" = ".class" := by decide
  rw [hjar, hclass]
  by_cases hname : name = ".jar" ∨ name = ".class"
  · obtain rfl | rfl := hname <;> decide
  · obtain ⟨hnotJar, hnotClass⟩ := not_or.mp hname
    simp [hnotJar, hnotClass]

theorem mem_entryFiles {directory : String} {entries : List (String × Listing)} :
    path ∈ entryFiles directory entries ↔
      ∃ entry ∈ entries, path ∈ regularFiles (Path.join directory entry.1) entry.2 := by
  induction entries with
  | nil => simp [entryFiles]
  | cons entry entries ih => simp [entryFiles, ih]

/-- Every file that is met has a name, that of the walk's start only if it is a file. -/
theorem exists_endsIn (hnamed : listing.WellNamed)
    (hbase : listing = .file → ∃ name, Path.EndsIn base name)
    (hpath : path ∈ regularFiles base listing) : ∃ name, Path.EndsIn path name := by
  induction hnamed generalizing base with
  | file =>
      rw [regularFiles, List.mem_singleton] at hpath
      exact hpath ▸ hbase rfl
  | other =>
      rw [regularFiles] at hpath
      cases hpath
  | directory named inner ih =>
      rw [regularFiles, mem_entryFiles] at hpath
      obtain ⟨entry, hentry, hpath⟩ := hpath
      exact ih entry hentry (fun _ => ⟨_, Path.endsIn_join base (named entry hentry)⟩) hpath

/-- A walk takes up a file exactly if it has a kind and its name is more than an
ending.  Beneath a start that does not stand for standard input, these files are what
it yields. -/
theorem beneath_perm_kinds (hnamed : listing.WellNamed)
    (hbase : listing = .file → ∃ name, Path.EndsIn base name) :
    (∀ path ∈ regularFiles base listing,
      isTarget path = true ↔
        (Program.fileSubject path).kind?.isSome = true ∧ isBareEnding path = false) ∧
    (beneath base listing).Perm
      (if base = standardInput then []
      else (regularFiles base listing).filter fun path =>
        (Program.fileSubject path).kind?.isSome && !isBareEnding path) := by
  have htargets : ∀ path ∈ regularFiles base listing,
      isTarget path = true ↔
        (Program.fileSubject path).kind?.isSome = true ∧ isBareEnding path = false := by
    intro path hpath
    obtain ⟨name, hends⟩ := exists_endsIn hnamed hbase hpath
    exact isTarget_iff hends
  refine ⟨htargets, ?_⟩
  rw [beneath]
  split
  case isTrue => exact .nil
  case isFalse =>
    rw [ofPaths]
    refine (List.mergeSort_perm _ _).trans (.of_eq (List.filter_congr fun path hpath => ?_))
    rw [Bool.eq_iff_iff, htargets path hpath]
    simp

/-- A hidden directory, several dots and other letters.  A link and another case of
letters are left out, as is the name that is nothing but an ending. -/
theorem beneath_perm_kinds_hidden :
    let hidden := Listing.directory [("B.class", .file), ("..jar", .file)]
    let listing := Listing.directory [(".hidden", hidden), ("a.tar.jar", .file),
      ("é.class", .file), ("c.JAR", .file), ("d.jar", .other), (".jar", .file)]
    listing.WellNamed ∧
      (beneath "lib/" listing).Perm
        ["lib/.hidden/B.class", "lib/.hidden/..jar", "lib/a.tar.jar", "lib/é.class"] := by
  intro hidden listing
  have hhidden : hidden.WellNamed := .directory (by decide) (by simp [Listing.WellNamed.file])
  have hnamed : listing.WellNamed :=
    .directory (by decide) (by simp [hhidden, Listing.WellNamed.file, Listing.WellNamed.other])
  refine ⟨hnamed, (beneath_perm_kinds hnamed (by simp [listing])).2.trans (.of_eq ?_)⟩
  decide +kernel

/-- A file whose name is nothing but an ending has a kind, but no walk takes it up. -/
theorem bare_ending_not_beneath :
    let listing := Listing.directory [(".jar", .file)]
    regularFiles "d" listing = ["d/.jar"] ∧
      (Program.fileSubject "d/.jar").kind? = some .archive ∧
      isTarget "d/.jar" = false ∧ beneath "d" listing = [] := by
  decide +kernel

end Targets

end ClassWarden
