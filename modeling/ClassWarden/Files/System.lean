import ClassWarden.Detector
import ClassWarden.Files.Targets

/-!
# Access to files

What a scan asks of the system that it runs on.  Every request is answered,
with the system's error if it is refused.
-/

namespace ClassWarden

class FileSystem (m : Type → Type) where
  /-- What a path leads to, links followed, as a walk sees it. -/
  list : String → m (Except OsError Listing)
  /-- The bytes that a path leads to. -/
  read : String → m FileAnswer
  /-- Makes a directory and those above it, unless they are there. -/
  createDirectories : String → m (Except OsError Unit)
  /-- Puts text into a file, in place of what it held. -/
  write : String → String → m (Except OsError Unit)

end ClassWarden
