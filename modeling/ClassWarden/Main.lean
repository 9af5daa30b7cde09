import ClassWarden.Program

/-!
# The command

Runs the program on the files of the system.
-/

namespace ClassWarden.Command

/-- An error of the system by its kind. -/
def osError : IO.Error → OsError
  | .noFileOrDirectory _ _ _ => .notFound
  | .alreadyExists _ _ _ => .alreadyExists
  | .inappropriateType _ 20 _ => .notDirectory
  | .inappropriateType _ 21 _ => .isDirectory
  | .permissionDenied _ code text => .other code.toNat text
  | .otherError code text => .other code.toNat text
  | error => .other 0 (toString error)

def answered {α : Type} (request : IO α) : IO (Except OsError α) := do
  try
    return .ok (← request)
  catch error =>
    return .error (osError error)

/-- An entry of a directory as a walk sees it, links not followed. -/
partial def entryListing (entry : IO.FS.DirEntry) : IO Listing := do
  let path := entry.path
  match (← path.symlinkMetadata).type with
  | .file => return .file
  | .dir => return .directory (← (← path.readDir).toList.mapM fun entry =>
      return (entry.fileName, ← entryListing entry))
  | _ => return .other

def listing (path : String) : IO Listing := do
  let place := (← IO.currentDir) / path
  match (← place.metadata).type with
  | .file => return .file
  | .dir => return .directory (← (← place.readDir).toList.mapM fun entry =>
      return (entry.fileName, ← entryListing entry))
  | _ => return .other

def bytes (path : String) : IO FileAnswer := do
  let place := (← IO.currentDir) / path
  if ← place.isDir then return .directory
  else
    match ← answered (IO.FS.readBinFile place) with
    | .ok bytes => return .bytes bytes.data.toList
    | .error error => return .refused error

instance : FileSystem IO where
  list path := answered (listing path)
  read := bytes
  createDirectories path := answered (IO.FS.createDirAll path)
  write path text := answered (IO.FS.writeFile path text)

def environment : IO Environment := do
  let names := [Settings.distanceVariable, Settings.skipVariable, Settings.threadsVariable]
  let values ← names.mapM fun name => return (name, ← IO.getEnv name)
  return fun name => (values.lookup name).join

end ClassWarden.Command

def main (arguments : List String) : IO UInt32 := do
  let environment ← ClassWarden.Command.environment
  let outcome ← ClassWarden.Program.run environment ("class-warden" :: arguments)
  IO.print outcome.output
  match outcome.refusal with
  | some error => IO.eprintln (repr error)
  | none => IO.eprint outcome.diagnosis
  return UInt32.ofNat outcome.status
