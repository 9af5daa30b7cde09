/-!
# Paths

A path is text; slashes separate its pieces.  Comparison and file names go by
components, which ignore repeated slashes and dots that lead nowhere.
-/

namespace ClassWarden.Path

/-- Cuts text at every occurrence of a character. -/
def split (separator : Char) : List Char → List (List Char)
  | [] => [[]]
  | char :: rest =>
    if char = separator then [] :: split separator rest
    else
      match split separator rest with
      | piece :: pieces => (char :: piece) :: pieces
      | [] => [[char]]

/-- The texts between the slashes of a path. -/
def pieces (path : String) : List String :=
  (split '/' path.toList).map String.ofList

inductive Component where
  | root
  /-- A dot, where it comes first. -/
  | here
  | parent
  | name (text : String)
  deriving DecidableEq, Repr

namespace Component

/-- The component that a piece stands for, if it stands for one. -/
def ofPiece? (piece : String) : Option Component :=
  if piece = "" ∨ piece = "." then none
  else if piece = ".." then some .parent
  else some (.name piece)

def level : Component → Nat
  | root => 0
  | here => 1
  | parent => 2
  | name _ => 3

/-- Order of components; names go by their code points. -/
def precedes : Component → Component → Bool
  | name left, name right => left < right
  | left, right => left.level < right.level

end Component

def components (path : String) : List Component :=
  match pieces path with
  | [] => []
  | first :: rest =>
    let later := rest.filterMap Component.ofPiece?
    -- The empty path has one piece, a path that starts with a slash has more.
    if first = "" then (if rest.isEmpty then [] else .root :: later)
    else if first = "." then .here :: later
    else (Component.ofPiece? first).toList ++ later

def componentsPrecede : List Component → List Component → Bool
  | _, [] => false
  | [], _ :: _ => true
  | left :: lefts, right :: rights =>
    if left = right then componentsPrecede lefts rights else left.precedes right

def precedes (left right : String) : Bool :=
  componentsPrecede (components left) (components right)

def notAfter (left right : String) : Bool :=
  !precedes right left

def fileName? (path : String) : Option String :=
  match (components path).getLast? with
  | some (.name text) => some text
  | _ => none

/-- What follows the last dot of a name, unless no letter stands before it. -/
def nameExtension? (name : String) : Option String :=
  match (split '.' name.toList).reverse with
  | last :: before :: more =>
    if before = [] ∧ more = [] then none else some (String.ofList last)
  | _ => none

def extension? (path : String) : Option String :=
  (fileName? path).bind nameExtension?

/-- The path of an entry of a directory: its name behind the directory's path,
with one slash between them. -/
def join (directory name : String) : String :=
  match directory.toList.getLast? with
  | none => name
  | some last => if last = '/' then directory ++ name else directory ++ "/" ++ name

/-- Pieces of a path, last one first, as a path again. -/
def ofReversed (reversed : List String) : String :=
  if reversed = [""] then "/" else "/".intercalate reversed.reverse

/-- Every list that is left when elements are taken away from the front. -/
def tails {α : Type} : List α → List (List α)
  | [] => []
  | head :: rest => (head :: rest) :: tails rest

/-- Whether the last piece of a path counts as a component of its own. -/
def endsInComponent : List String → Bool
  | [] => false
  | [_] => true
  | last :: _ => !(last = "" || last = ".")

/-- A path and the paths of the directories above it, nearest first. -/
def ancestors (path : String) : List String :=
  ((tails (pieces path).reverse).filter endsInComponent).map ofReversed

/-- The directory above a path, as far as the path names one. -/
def parent? (path : String) : Option String :=
  (ancestors path).tail.head?

end ClassWarden.Path
