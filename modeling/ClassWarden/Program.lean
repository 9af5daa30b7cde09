import ClassWarden.CommandLine.ImplicitScan
import ClassWarden.CommandLine.Settings
import ClassWarden.Files.System
import ClassWarden.Report

/-!
# The program

One run: read the command line, do what it asks for and hand the report over.
A scan collects its subjects before it looks into any of them, and reports only
when all are settled.  The exit status tells whether something infected was
found.  A request for help and a command line that cannot be read leave a kind
of error behind, not a text.
-/

namespace ClassWarden

/-- Why a run ends without a report. -/
inductive Failure where
  | setting (error : SettingError)
  | access (path : String) (error : OsError)
  | createDirectory (path : String) (error : OsError)
  | writeReport (path : String) (error : OsError)
  deriving DecidableEq, Repr

namespace Failure

def context : Failure → String
  | setting error => s!"Invalid value for {error.name}: {Quoted.quote error.raw}"
  | access path _ => s!"Unable to access {path}"
  | createDirectory path _ => s!"Failed to create directory: {path}"
  | writeReport path _ => s!"Failed to write report: {path}"

def cause : Failure → String
  | setting error => error.fault.message
  | access _ error | createDirectory _ error | writeReport _ error => error.message

/-- The failure on one line. -/
def message (failure : Failure) : String :=
  failure.context ++ ": " ++ failure.cause

/-- The failure as a run reports it. -/
def diagnosis (failure : Failure) : String :=
  "Error: " ++ failure.context ++ "\n\nCaused by:\n    " ++ failure.cause ++ "\n"

end Failure

/-- Exit status of a run whose command line is refused. -/
def UsageError.status : UsageError → Nat
  | help => 0
  | _ => 2

/-- What a run leaves behind, files apart. -/
structure Outcome where
  status : Nat
  output : String
  diagnosis : String
  /-- Why the command line was refused, if it was. -/
  refusal : Option UsageError
  deriving DecidableEq, Repr

namespace Program

def fileSubject (path : String) : Subject :=
  .new path (.file path)

section

variable {m : Type → Type} [Monad m] [FileSystem m]

/-- The subjects for a path: the targets beneath a directory, and anything else
as it is named. -/
def subjectsAt (path : String) : m (Except Failure (List Subject)) := do
  match ← FileSystem.list path with
  | .error error => return .error (.access path error)
  | .ok (.directory entries) =>
    return .ok ((Targets.beneath path (.directory entries)).map fileSubject)
  | .ok _ => return .ok [fileSubject path]

/-- The subjects for all paths in order, unless one of them leads nowhere. -/
def collect : List String → m (Except Failure (List Subject))
  | [] => return .ok []
  | path :: paths => do
    match ← subjectsAt path with
    | .error failure => return .error failure
    | .ok subjects =>
      match ← collect paths with
      | .error failure => return .error failure
      | .ok later => return .ok (subjects ++ later)

/-- What the system answers for a subject's bytes.  Only the file of a subject
that can be scanned is asked for. -/
def answerFor (subject : Subject) : m FileAnswer :=
  match subject.kind?, subject.content with
  | some _, .file path => FileSystem.read path
  | _, _ => return .refused .notFound

def settle (detector : Detector) : List Subject → m (List Subject)
  | [] => return []
  | subject :: subjects => do
    let answer ← answerFor subject
    let settled := (detector.detect (fun _ => answer) subject).value
    return settled :: (← settle detector subjects)

def prepareDirectory (path : String) : m (Except Failure Unit) := do
  match Path.parent? path with
  | none => return .ok ()
  | some directory =>
    return (← FileSystem.createDirectories directory).mapError (.createDirectory directory)

def writeReport (path content : String) : m (Except Failure Unit) := do
  match ← prepareDirectory path with
  | .error failure => return .error failure
  | .ok () => return (← FileSystem.write path content).mapError (.writeReport path)

def ended (content : String) : String :=
  if content.toList.getLast? = some '\n' then content else content ++ "\n"

/-- Hands a report over, to the file that was named or to the output. -/
def deliver (output? : Option String) (content : String) (status : Nat) :
    m (Except Failure Outcome) := do
  match output? with
  | none => return .ok ⟨status, ended content, "", none⟩
  | some path =>
    match ← writeReport path content with
    | .error failure => return .error failure
    | .ok () => return .ok ⟨status, "", "", none⟩

def signatureList : Format → String
  | .json =>
    Json.render <| .array <| Signature.catalog.map fun signature =>
      .object
        [("name", .text signature.name),
         ("description", .text signature.description),
         ("length", .number signature.size),
         ("restriction", signature.scope.toJson)]
  | .text =>
    String.join <| Signature.catalog.map fun signature =>
      s!"{signature.name}: {signature.description} " ++
        s!"({signature.size} instructions, opcodes: {signature.scope.display})\n"

def render (report : Report) : Format → String
  | .json => report.json
  | .text => report.text

def scan (options : MatchOptions) (paths : List String) (format : Format)
    (output? : Option String) : m (Except Failure Outcome) := do
  match ← collect paths with
  | .error failure => return .error failure
  | .ok subjects =>
    let settled ← settle (.standard options) subjects
    let report := Report.ofSubjects settled
    deliver output? (render report format) (if report.anyInfected then 1 else 0)

def perform (environment : Environment) (invocation : Invocation) :
    m (Except Failure Outcome) := do
  let values := invocation.values
  let format := values.format.getD .json
  match Settings.threads environment values with
  | .error error => return .error (.setting error)
  | .ok _ =>
    match invocation.command with
    | .signatures => deliver values.output (signatureList format) 0
    | .scan paths =>
      match Settings.matchOptions environment values with
      | .error error => return .error (.setting error)
      | .ok options => scan options paths format values.output

/-- One run.  The program's own name stands in front of the arguments. -/
def run (environment : Environment) (arguments : List String) : m Outcome := do
  match Arguments.parse (ImplicitScan.complete arguments) with
  | .error error => return ⟨error.status, "", "", some error⟩
  | .ok invocation =>
    match ← perform environment invocation with
    | .error failure => return ⟨1, "", failure.diagnosis, none⟩
    | .ok outcome => return outcome

end

end Program

end ClassWarden
