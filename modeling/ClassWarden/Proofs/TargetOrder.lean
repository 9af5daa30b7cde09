import ClassWarden.Proofs.WalkTargets
import Mathlib.Data.List.Lex
import Mathlib.Data.List.Nodup
import Mathlib.Data.Prod.Lex
import Mathlib.Data.String.Basic

/-!
# The targets of a walk

Paths are ordered by components, the first different one deciding.  The files beneath a
directory differ in their components, since entries of one directory differ in their
names.  So there is only one order to list them in, whatever order a walk comes to them
in, and no file is listed twice.
-/

namespace ClassWarden

namespace Path

/-! ## The order of paths -/

namespace Component

def text : Component → String
  | name text => text
  | root | here | parent => ""

/-- Where a component stands among all components. -/
def key (component : Component) : ℕ ×ₗ String :=
  toLex (component.level, component.text)

theorem key_injective : Function.Injective key := by
  intro left right hkey
  obtain ⟨hlevel, htext⟩ := Prod.mk.inj (toLex.injective hkey)
  cases left <;> cases right <;> simp_all [level, text]

/-- Names come after all other components, in the order of their texts. -/
instance : LinearOrder Component := LinearOrder.lift' key key_injective

theorem lt_iff {left right : Component} :
    left < right ↔
      left.level < right.level ∨ left.level = right.level ∧ left.text < right.text :=
  Prod.Lex.toLex_lt_toLex

theorem precedes_iff {left right : Component} : left.precedes right = true ↔ left < right := by
  rw [lt_iff]
  cases left <;> cases right <;> simp [precedes, level, text]

end Component

variable {left right path directory name base : String} {names : List String}

theorem componentsPrecede_iff {lefts rights : List Component} :
    componentsPrecede lefts rights = true ↔ lefts < rights := by
  induction lefts generalizing rights with
  | nil => cases rights <;> simp [componentsPrecede]
  | cons left lefts ih =>
      cases rights with
      | nil => simp [componentsPrecede]
      | cons right rights =>
          rw [componentsPrecede, List.cons_lt_cons_iff]
          by_cases hsame : left = right
          · rw [if_pos hsame, ih]
            simp [hsame]
          · rw [if_neg hsame, Component.precedes_iff]
            simp [hsame]

theorem notAfter_iff : notAfter left right = true ↔ components left ≤ components right := by
  rw [notAfter, precedes, Bool.not_eq_true', Bool.eq_false_iff, Ne, componentsPrecede_iff, not_lt]

/-! ## Components of paths beneath a directory -/

theorem exists_pieces_eq_cons (path : String) : ∃ first rest, pieces path = first :: rest := by
  apply List.exists_cons_of_ne_nil
  rw [pieces, split_eq_splitOn, Ne, List.map_eq_nil_iff]
  exact List.splitOn_ne_nil '/' path.toList

theorem pieces_slash (path : String) : pieces (path ++ "/") = pieces path ++ [""] := by
  rw [← String.append_empty (s := path ++ "/")]
  exact pieces_beneath path (by decide)

theorem components_beneath (directory : String) (hname : IsName name) :
    components (directory ++ "/" ++ name) = components (directory ++ "/") ++ [.name name] := by
  obtain ⟨first, rest, hpieces⟩ := exists_pieces_eq_cons directory
  have hempty : Component.ofPiece? "" = none := rfl
  rw [components, components, pieces_beneath directory hname.slash_not_mem, pieces_slash, hpieces]
  by_cases hfirst : first = ""
  · simp [hfirst, hname.ofPiece?, hempty]
  · by_cases hhere : first = "." <;> simp [hfirst, hhere, hname.ofPiece?, hempty]

/-- A slash at the end leads nowhere. -/
theorem components_slash (hne : path ≠ "") : components (path ++ "/") = components path := by
  obtain ⟨first, rest, hpieces⟩ := exists_pieces_eq_cons path
  have hempty : Component.ofPiece? "" = none := rfl
  rw [components, components, pieces_slash, hpieces]
  by_cases hfirst : first = ""
  · have hrest : rest ≠ [] := by
      rintro rfl
      rw [hfirst, pieces, List.map_eq_singleton_iff] at hpieces
      obtain ⟨chars, hsplit, hchars⟩ := hpieces
      rw [String.ofList_eq_empty_iff.mp hchars, split_eq_singleton_nil_iff] at hsplit
      exact hne (String.toList_eq_nil_iff.mp hsplit)
    simp [hfirst, hrest, hempty]
  · by_cases hhere : first = "." <;> simp [hfirst, hhere, hempty]

theorem components_join (directory : String) (hname : IsName name) :
    components (join directory name) = components directory ++ [.name name] := by
  obtain ⟨rfl, hjoin⟩ | ⟨front, hdirectory, hjoin⟩ := join_cases directory name
  · rw [hjoin, components, pieces_of_slash_not_mem hname.slash_not_mem]
    simp [hname.ne_empty, hname.ne_here, hname.ofPiece?]
    rfl
  · rw [hjoin, components_beneath front hname]
    obtain rfl | ⟨rfl, hne⟩ := hdirectory
    · rfl
    · rw [components_slash hne]

/-- Names on the way down from a directory are the last components of a path. -/
theorem components_foldl_join (hnames : ∀ name ∈ names, IsName name) (base : String) :
    components (names.foldl join base) = components base ++ names.map .name := by
  induction names generalizing base with
  | nil => rw [List.foldl_nil, List.map_nil, List.append_nil]
  | cons name names ih =>
      rw [List.forall_mem_cons] at hnames
      rw [List.foldl_cons, ih hnames.2, components_join base hnames.1, List.map_cons,
        List.append_assoc, List.singleton_append]

end Path

/-! ## Trees -/

namespace Listing

/-- What a walk sees is a tree: the entries of each directory have names, and no two of
them the same. -/
inductive IsTree : Listing → Prop where
  | file : IsTree .file
  | other : IsTree .other
  | directory {entries : List (String × Listing)}
      (named : ∀ entry ∈ entries, Path.IsName entry.1)
      (distinct : (entries.map Prod.fst).Nodup)
      (inner : ∀ entry ∈ entries, entry.2.IsTree) : IsTree (.directory entries)

/-- What stands in a listing at a place, which is given by the names on the way down. -/
inductive Holds : Listing → List String → Listing → Prop where
  | start (listing : Listing) : Holds listing [] listing
  | beneath {entries : List (String × Listing)} {name : String} {inner found : Listing}
      {names : List String} (hentry : (name, inner) ∈ entries)
      (hinner : inner.Holds names found) : Holds (.directory entries) (name :: names) found

variable {listing found : Listing} {names : List String}

theorem IsTree.isName_of_mem (htree : listing.IsTree) (hholds : listing.Holds names found) :
    ∀ name ∈ names, Path.IsName name := by
  induction hholds with
  | start => exact List.forall_mem_nil _
  | beneath hentry _ ih =>
      cases htree with
      | directory named _ inner => exact List.forall_mem_cons.mpr ⟨named _ hentry, ih (inner _ hentry)⟩

end Listing

namespace Targets

variable {path base name directory : String} {listing : Listing} {entries : List (String × Listing)}
variable {names paths others : List String} {walk : List (String × Listing)}

/-! ## Walks -/

mutual

/-- All that a walk from `path` comes to: the start and everything beneath it, each with
its path. -/
def visits (path : String) : Listing → List (String × Listing)
  | .file => [(path, .file)]
  | .directory entries => (path, .directory entries) :: entryVisits path entries
  | .other => [(path, .other)]

def entryVisits (directory : String) : List (String × Listing) → List (String × Listing)
  | [] => []
  | (name, listing) :: entries =>
    visits (Path.join directory name) listing ++ entryVisits directory entries

end

def filePath? : String × Listing → Option String
  | (path, .file) => some path
  | (_, .directory _) | (_, .other) => none

/-- The targets among what a walk comes to. -/
def ofVisits (walk : List (String × Listing)) : List String :=
  ofPaths (walk.filterMap filePath?)

mutual

theorem filterMap_visits (path : String) :
    ∀ listing, (visits path listing).filterMap filePath? = regularFiles path listing
  | .file => rfl
  | .directory entries => by
    rw [visits, List.filterMap_cons_none rfl, filterMap_entryVisits, regularFiles]
  | .other => rfl

theorem filterMap_entryVisits (directory : String) :
    ∀ entries, (entryVisits directory entries).filterMap filePath? = entryFiles directory entries
  | [] => rfl
  | (name, listing) :: entries => by
    rw [entryVisits, List.filterMap_append, filterMap_visits, filterMap_entryVisits, entryFiles]

end

/-! ## The files of a tree -/

theorem mem_regularFiles_of_holds {found : Listing} (hholds : listing.Holds names found)
    (hfound : found = .file) (base : String) :
    names.foldl Path.join base ∈ regularFiles base listing := by
  induction hholds generalizing base with
  | start =>
      rw [hfound, regularFiles]
      exact List.mem_singleton_self base
  | @beneath _ name inner _ _ hentry _ ih =>
      rw [regularFiles, mem_entryFiles]
      exact ⟨(name, inner), hentry, ih hfound (Path.join base name)⟩

theorem mem_regularFiles_iff (htree : listing.IsTree) :
    path ∈ regularFiles base listing ↔
      ∃ names, listing.Holds names .file ∧ path = names.foldl Path.join base := by
  constructor
  · intro hpath
    induction htree generalizing base with
    | file => exact ⟨[], .start _, List.mem_singleton.mp hpath⟩
    | other => cases hpath
    | directory named distinct inner ih =>
        rw [regularFiles, mem_entryFiles] at hpath
        obtain ⟨entry, hentry, hpath⟩ := hpath
        obtain ⟨names, hholds, rfl⟩ := ih entry hentry hpath
        exact ⟨entry.1 :: names, .beneath hentry hholds, rfl⟩
  · rintro ⟨names, hholds, rfl⟩
    exact mem_regularFiles_of_holds hholds rfl base

/-- Files beneath different entries of a directory differ in the component behind those
of the directory. -/
theorem components_of_mem_regularFiles (htree : listing.IsTree) (hname : Path.IsName name)
    (hpath : path ∈ regularFiles (Path.join directory name) listing) :
    ∃ later, Path.components path = Path.components directory ++ .name name :: later := by
  obtain ⟨names, hholds, rfl⟩ := (mem_regularFiles_iff htree).mp hpath
  refine ⟨names.map .name, ?_⟩
  rw [Path.components_foldl_join (htree.isName_of_mem hholds), Path.components_join _ hname,
    List.append_assoc, List.singleton_append]

theorem entryFiles_eq_flatMap (directory : String) (entries : List (String × Listing)) :
    entryFiles directory entries =
      entries.flatMap fun entry => regularFiles (Path.join directory entry.1) entry.2 := by
  induction entries with
  | nil => rfl
  | cons entry entries ih => rw [entryFiles, ih, List.flatMap_cons]

/-- No two files of a tree have the same components. -/
theorem nodup_components_regularFiles (htree : listing.IsTree) (base : String) :
    ((regularFiles base listing).map Path.components).Nodup := by
  induction htree generalizing base with
  | file => exact List.nodup_singleton _
  | other => exact List.nodup_nil
  | directory named distinct inner ih =>
      rw [regularFiles, entryFiles_eq_flatMap, List.map_flatMap, List.nodup_flatMap]
      refine ⟨fun entry hentry => ih entry hentry _, ?_⟩
      refine (List.pairwise_map.mp distinct).imp_of_mem fun {left right} hleft hright hne => ?_
      intro shared hinLeft hinRight
      obtain ⟨first, hfirst, rfl⟩ := List.mem_map.mp hinLeft
      obtain ⟨second, hsecond, hsame⟩ := List.mem_map.mp hinRight
      obtain ⟨_, hbelowLeft⟩ :=
        components_of_mem_regularFiles (inner left hleft) (named left hleft) hfirst
      obtain ⟨_, hbelowRight⟩ :=
        components_of_mem_regularFiles (inner right hright) (named right hright) hsecond
      rw [hbelowLeft, hbelowRight] at hsame
      have hheads := (List.cons.inj (List.append_cancel_left hsame)).1
      exact hne (Path.Component.name.inj hheads).symm

/-! ## The list of targets -/

theorem mem_ofPaths : path ∈ ofPaths paths ↔ path ∈ paths ∧ isTarget path = true := by
  rw [ofPaths, (List.mergeSort_perm _ _).mem_iff, List.mem_filter]

/-- Paths that differ in their components are listed in strictly increasing order. -/
theorem pairwise_ofPaths (hdistinct : (paths.map Path.components).Nodup) :
    (ofPaths paths).Pairwise fun left right => Path.components left < Path.components right := by
  have hsorted : (ofPaths paths).Pairwise fun left right => Path.notAfter left right = true := by
    apply List.pairwise_mergeSort
    · intro first second third
      simp only [Path.notAfter_iff]
      exact le_trans
    · intro left right
      rw [Bool.or_eq_true, Path.notAfter_iff, Path.notAfter_iff]
      exact le_total _ _
  have hperm : ((ofPaths paths).map Path.components).Perm
      ((paths.filter isTarget).map Path.components) :=
    (List.mergeSort_perm _ _).map _
  have hnodup : ((ofPaths paths).map Path.components).Nodup :=
    hperm.nodup_iff.mpr (hdistinct.sublist ((List.filter_sublist).map _))
  refine hsorted.imp₂ (fun left right hle hne => ?_) (List.pairwise_map.mp hnodup)
  exact lt_of_le_of_ne (Path.notAfter_iff.mp hle) hne

/-- The order in which paths come does not matter. -/
theorem ofPaths_eq_of_perm (hperm : paths.Perm others)
    (hdistinct : (others.map Path.components).Nodup) : ofPaths paths = ofPaths others := by
  have hsame : (ofPaths paths).Perm (ofPaths others) :=
    (List.mergeSort_perm _ _).trans
      ((hperm.filter isTarget).trans (List.mergeSort_perm _ _).symm)
  have hpaths : (paths.map Path.components).Nodup := (hperm.map _).nodup_iff.mpr hdistinct
  refine hsame.eq_of_pairwise (fun left right _ _ hlt hgt => ?_)
    (pairwise_ofPaths hpaths) (pairwise_ofPaths hdistinct)
  exact absurd hgt hlt.asymm

/-- However a walk goes through a tree, its targets are the same list.  They are the
regular files of the tree whose extension is `jar` or `class`, wherever they stand, each
once, in strictly increasing order of components.  Only at a start that stands for
standard input no walk takes place. -/
theorem targets_of_any_order (htree : listing.IsTree) (hwalk : walk.Perm (visits base listing)) :
    ofVisits walk = ofPaths (regularFiles base listing) ∧
    (ofVisits walk).Pairwise (fun left right => Path.components left < Path.components right) ∧
    (∀ path, path ∈ ofVisits walk ↔
      (∃ names, listing.Holds names .file ∧ path = names.foldl Path.join base) ∧
        (Path.extension? path = some "jar" ∨ Path.extension? path = some "class")) ∧
    beneath base listing = if base = standardInput then [] else ofVisits walk := by
  have hdistinct := nodup_components_regularFiles htree base
  have hfiles : ofVisits walk = ofPaths (regularFiles base listing) := by
    rw [ofVisits]
    apply ofPaths_eq_of_perm _ hdistinct
    rw [← filterMap_visits]
    exact hwalk.filterMap filePath?
  refine ⟨hfiles, ?_, fun path => ?_, ?_⟩
  · rw [hfiles]
    exact pairwise_ofPaths hdistinct
  · rw [hfiles, mem_ofPaths, mem_regularFiles_iff htree, isTarget_iff_extension?]
  · rw [hfiles, beneath]

/-- A directory comes before a file whose name starts with the directory's, although a
dash comes before a slash.  A hidden directory is walked, a link is no target, and
neither is a directory with the ending of one. -/
theorem targets_of_any_order_nested :
    let inner := Listing.directory [("x.jar", .file), (".hidden", .directory [("B.class", .file)])]
    let listing := Listing.directory [("a-b.jar", .file), ("a", inner), ("c.jar", .other),
      ("d.class", .directory [])]
    let targets := ["lib/a/.hidden/B.class", "lib/a/x.jar", "lib/a-b.jar"]
    listing.IsTree ∧ ofVisits (visits "lib" listing).reverse = targets ∧
      beneath "lib" listing = targets := by
  intro inner listing targets
  have hhidden : (Listing.directory [("B.class", .file)]).IsTree :=
    .directory (by decide) (by decide) (by simp [Listing.IsTree.file])
  have hinner : inner.IsTree :=
    .directory (by decide) (by decide) (by simp [hhidden, Listing.IsTree.file])
  have hempty : (Listing.directory []).IsTree := .directory (by simp) (by simp) (by simp)
  have htree : listing.IsTree :=
    .directory (by decide) (by decide)
      (by simp [hinner, hempty, Listing.IsTree.file, Listing.IsTree.other])
  obtain ⟨hwalk, -, -, hbeneath⟩ :=
    targets_of_any_order htree (List.reverse_perm (visits "lib" listing))
  have htargets : ofPaths (regularFiles "lib" listing) = targets := by
    have hfiles : regularFiles "lib" listing = targets.reverse := by
      decide +kernel
    have hdistinct : (targets.map Path.components).Nodup := by
      decide +kernel
    rw [hfiles, ofPaths_eq_of_perm (List.reverse_perm targets) hdistinct, ofPaths,
      List.filter_eq_self.mpr (by decide +kernel)]
    exact List.mergeSort_of_pairwise (by decide +kernel)
  rw [if_neg (by decide)] at hbeneath
  exact ⟨htree, hwalk.trans htargets, hbeneath.trans (hwalk.trans htargets)⟩

end Targets

end ClassWarden
