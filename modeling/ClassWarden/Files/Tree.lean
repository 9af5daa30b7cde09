import ClassWarden.Files.System

/-!
# File trees

Files, directories and symbolic links as a value, seen from the directory at
the top, which is also where paths start.  Requests are answered the way a
system with these files would answer them.
-/

namespace ClassWarden

inductive FileNode where
  | file (bytes : List UInt8)
  | directory (entries : List (String × FileNode))
  | link (target : String)

/-- The entries of the directory at the top. -/
structure FileTree where
  entries : List (String × FileNode)

namespace FileNode

mutual

def listing : FileNode → Listing
  | file _ => .file
  | directory entries => .directory (entryListings entries)
  | link _ => .other

def entryListings : List (String × FileNode) → List (String × Listing)
  | [] => []
  | (name, node) :: entries => (name, node.listing) :: entryListings entries

end

def entries? : FileNode → Option (List (String × FileNode))
  | directory entries => some entries
  | _ => none

/-- The node at a place below this one, given by names. -/
def at? : List String → FileNode → Option FileNode
  | [], node => some node
  | name :: names, node =>
    match node.entries?.bind (·.lookup name) with
    | some inner => at? names inner
    | none => none

/-- Entries with a node put under a name. -/
def putEntry (name : String) (node : FileNode) : List (String × FileNode) →
    List (String × FileNode)
  | [] => [(name, node)]
  | (given, old) :: entries =>
    if given = name then (name, node) :: entries else (given, old) :: putEntry name node entries

/-- The node with another one put at a place below it; nothing changes if there
is no directory for it. -/
def put (node : FileNode) : List String → FileNode → FileNode
  | [], _ => node
  | name :: names, outer =>
    match outer with
    | directory entries =>
      match entries.lookup name with
      | some inner => directory (putEntry name (put node names inner) entries)
      | none => if names.isEmpty then directory (putEntry name node entries) else outer
    | _ => outer

end FileNode

/-- Where a path leads: to a node, or to a free name in a directory.  Places are
given by the names on the way from the top. -/
inductive Place where
  | taken (names : List String)
  | free (directory : List String) (name : String)
  deriving DecidableEq, Repr

/-- How far pieces of a path lead. -/
inductive Stretch where
  | arrived (place : Place)
  /-- To a link in the directory `here`, with the pieces behind it still to come. -/
  | link (here : List String) (target : String) (rest : List String)
  deriving DecidableEq, Repr

namespace FileTree

def empty : FileTree := ⟨[]⟩

def top (tree : FileTree) : FileNode := .directory tree.entries

def at? (tree : FileTree) (names : List String) : Option FileNode :=
  FileNode.at? names tree.top

def put (tree : FileTree) (names : List String) (node : FileNode) : FileTree :=
  match FileNode.put node names tree.top with
  | .directory entries => ⟨entries⟩
  | _ => tree

/-- Links that are followed on the way to one place. -/
def maxLinks : Nat := 40

/-- Follows pieces of a path from the directory `here`, given last name first, up
to the first link.  An empty piece or a dot stays where it is; two dots go up, at
the top they stay.  A link in last place is followed only on request. -/
def stretch (tree : FileTree) (followLast : Bool) (here : List String) :
    List String → Except OsError Stretch
  | [] => .ok (.arrived (.taken here.reverse))
  | piece :: rest =>
    match (tree.at? here.reverse).bind FileNode.entries? with
    | none => .error .notDirectory
    | some entries =>
      if piece = "" ∨ piece = "." then tree.stretch followLast here rest
      else if piece = ".." then tree.stretch followLast here.tail rest
      else
        match entries.lookup piece with
        | none =>
          if rest.isEmpty then .ok (.arrived (.free here.reverse piece)) else .error .notFound
        | some (.link target) =>
          if rest.isEmpty && !followLast then .ok (.arrived (.taken (piece :: here).reverse))
          else .ok (.link here target rest)
        | some _ => tree.stretch followLast (piece :: here) rest

/-- Follows pieces of a path from the directory `here` over a number of links at
most. -/
def walk (tree : FileTree) (followLast : Bool) (links : Nat) (here pieces : List String) :
    Except OsError Place :=
  match tree.stretch followLast here pieces with
  | .error error => .error error
  | .ok (.arrived place) => .ok place
  | .ok (.link here target rest) =>
    match links with
    | 0 => .error .tooManyLinks
    | links + 1 =>
      let start := if target.toList.head? = some '/' then [] else here
      tree.walk followLast links start (Path.pieces target ++ rest)

def place (tree : FileTree) (followLast : Bool) (path : String) : Except OsError Place :=
  if path.toList.contains '\x00' then .error .nulInName
  else if path = "" then .error .notFound
  else tree.walk followLast maxLinks [] (Path.pieces path)

def node (tree : FileTree) (path : String) : Except OsError FileNode :=
  match tree.place true path with
  | .error error => .error error
  | .ok (.free _ _) => .error .notFound
  | .ok (.taken names) =>
    match tree.at? names with
    | some node => .ok node
    | none => .error .notFound

def list (tree : FileTree) (path : String) : Except OsError Listing :=
  (tree.node path).map FileNode.listing

def read (tree : FileTree) (path : String) : FileAnswer :=
  match tree.node path with
  | .ok (.file bytes) => .bytes bytes
  | .ok (.directory _) => .directory
  | .ok (.link _) => .refused .tooManyLinks
  | .error error => .refused error

def isDirectory (tree : FileTree) (path : String) : Bool :=
  match tree.node path with
  | .ok (.directory _) => true
  | _ => false

/-- Makes a directory under a name that is free. -/
def createDirectory (tree : FileTree) (path : String) : Except OsError FileTree :=
  match tree.place false path with
  | .error error => .error error
  | .ok (.taken _) => .error .alreadyExists
  | .ok (.free directory name) => .ok (tree.put (directory ++ [name]) (.directory []))

/-- Makes the first of some directories, each of which lies in the next one, and
the ones above it as far as they are not there. -/
def ensure (tree : FileTree) : List String → Except OsError FileTree
  | [] => .ok tree
  | path :: above =>
    let settle (tree : FileTree) (error : OsError) : Except OsError FileTree :=
      if tree.isDirectory path then .ok tree else .error error
    match tree.createDirectory path with
    | .ok tree => .ok tree
    | .error .notFound =>
      match ensure tree above with
      | .error error => .error error
      | .ok tree =>
        match tree.createDirectory path with
        | .ok tree => .ok tree
        | .error error => settle tree error
    | .error error => settle tree error

def createDirectories (tree : FileTree) (path : String) : Except OsError FileTree :=
  tree.ensure (Path.ancestors path)

/-- Puts bytes into a file, which is made if its name is free.  A path that ends
in a slash can only mean a directory, whether there is one or not. -/
def write (tree : FileTree) (path : String) (bytes : List UInt8) : Except OsError FileTree :=
  if path.toList.getLast? = some '/' then
    match tree.place false ((Path.ancestors path).headD path) with
    | .error error => .error error
    | .ok _ => .error .isDirectory
  else
    match tree.place true path with
    | .error error => .error error
    | .ok (.free directory name) => .ok (tree.put (directory ++ [name]) (.file bytes))
    | .ok (.taken names) =>
      match tree.at? names with
      | some (.directory _) => .error .isDirectory
      | _ => .ok (tree.put names (.file bytes))

end FileTree

/-- Requests to a tree, which a write changes. -/
abbrev InTree := StateM FileTree

namespace InTree

/-- A request that changes the tree if it is granted. -/
def change (request : FileTree → Except OsError FileTree) : InTree (Except OsError Unit) := do
  match request (← get) with
  | .ok tree => do
    set tree
    return .ok ()
  | .error error => return .error error

instance : FileSystem InTree where
  list path := return (← get).list path
  read path := return (← get).read path
  createDirectories path := change (·.createDirectories path)
  write path text := change (·.write path text.toUTF8.data.toList)

end InTree

end ClassWarden
