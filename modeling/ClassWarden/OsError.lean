/-!
# Errors of the file system

The reasons for which the system refuses a file operation, with the number and
the text by which it reports them.
-/

namespace ClassWarden

inductive OsError where
  | notFound
  | alreadyExists
  | noDevice
  | notDirectory
  | isDirectory
  | tooManyLinks
  /-- The name holds a NUL character and was never passed on to the system. -/
  | nulInName
  | other (code : Nat) (text : String)
  deriving DecidableEq, Repr

namespace OsError

/-- An error of the system as it is reported. -/
def numbered (code : Nat) (text : String) : String :=
  s!"{text} (os error {code})"

/-- The error in words. -/
def message : OsError → String
  | notFound => numbered 2 "No such file or directory"
  | alreadyExists => numbered 17 "File exists"
  | noDevice => numbered 19 "No such device"
  | notDirectory => numbered 20 "Not a directory"
  | isDirectory => numbered 21 "Is a directory"
  | tooManyLinks => numbered 40 "Too many levels of symbolic links"
  | nulInName => "file name contained an unexpected NUL byte"
  | other code text => numbered code text

end OsError

end ClassWarden
