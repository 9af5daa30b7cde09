import ClassWarden.Files.Path

/-!
# Scan targets

The files beneath a directory that a scan takes up: regular files whose
extension is `jar` or `class`, hidden ones included, at any depth.  Links met on
the way are neither listed nor followed.  Targets are ordered by components,
so the order in which a directory lists its entries does not matter.
-/

namespace ClassWarden

/-- What a walk sees of a file or directory. -/
inductive Listing where
  | file
  | directory (entries : List (String × Listing))
  /-- A link, or anything else that is no regular file. -/
  | other

namespace Targets

def isTarget (path : String) : Bool :=
  match Path.extension? path with
  | some extension => extension = "jar" || extension = "class"
  | none => false

mutual

/-- Paths of the regular files of a listing that stands at `path`. -/
def regularFiles (path : String) : Listing → List String
  | .file => [path]
  | .directory entries => entryFiles path entries
  | .other => []

def entryFiles (directory : String) : List (String × Listing) → List String
  | [] => []
  | (name, listing) :: entries =>
    regularFiles (Path.join directory name) listing ++ entryFiles directory entries

end

/-- The targets among paths that come in any order. -/
def ofPaths (paths : List String) : List String :=
  (paths.filter isTarget).mergeSort Path.notAfter

/-- Stands for standard input where a walk should start, and holds no files. -/
def standardInput : String := "-"

def beneath (base : String) (listing : Listing) : List String :=
  if base = standardInput then [] else ofPaths (regularFiles base listing)

end Targets

end ClassWarden
