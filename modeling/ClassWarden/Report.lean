import ClassWarden.Subject

/-!
# Reports

A report counts the verdicts of a scan and lists its subjects with what was
found.  It is written as a JSON document, where absent parts are left out, or as
text.

The text has one line for each subject, indented by its depth, one for each
error and one for each finding of a subject without entries, and ends with the
counts.  Clean entries of an archive are not shown, and neither is anything
below them.
-/

namespace ClassWarden

/-- What is reported of a subject. -/
structure SubjectReport where
  name : String
  status : Status
  sha256 : Option String
  findings : List Finding
  error : Option String
  children : List SubjectReport

/-- Numbers of subjects by verdict. -/
structure Summary where
  scanned : Nat
  clean : Nat
  infected : Nat
  error : Nat
  deriving DecidableEq, Repr

structure Report where
  summary : Summary
  subjects : List SubjectReport

namespace SubjectReport

mutual

def ofSubject : Subject → SubjectReport
  | ⟨name, _, state, children, sha256⟩ =>
    { name
      status := state.status
      sha256
      findings := state.findings
      error := state.error?
      children := ofSubjects children }

def ofSubjects : List Subject → List SubjectReport
  | [] => []
  | subject :: subjects => ofSubject subject :: ofSubjects subjects

end

/-- A field that is left out when there is nothing to tell. -/
def optional (name : String) : Option String → List (String × Json)
  | some text => [(name, .text text)]
  | none => []

/-- A list that is left out when it is empty. -/
def nonempty (name : String) : List Json → List (String × Json)
  | [] => []
  | items => [(name, .array items)]

mutual

def toJson : SubjectReport → Json
  | ⟨name, status, sha256, findings, error, children⟩ =>
    .object <|
      [("name", .text name), ("status", .text status.display)] ++
        optional "sha256" sha256 ++
        nonempty "matches" (findings.map Finding.toJson) ++
        optional "error" error ++
        nonempty "children" (toJsonItems children)

def toJsonItems : List SubjectReport → List Json
  | [] => []
  | report :: reports => toJson report :: toJsonItems reports

end

/-- Blanks in front of what stands at a depth. -/
def indent (depth : Nat) : String :=
  String.ofList (List.replicate (2 * depth) ' ')

mutual

/-- The lines of a subject at some depth. -/
def lines (depth : Nat) : SubjectReport → List String
  | ⟨name, status, _, findings, error, children⟩ =>
    (indent depth ++ name ++ ": " ++ status.display) ::
      (error.toList.map (indent depth ++ "  error: " ++ ·) ++
        (if children.isEmpty then
          findings.map (indent depth ++ "  - " ++ Finding.display ·)
        else []) ++
        childLines (depth + 1) children)

/-- The lines of the entries that are not clean. -/
def childLines (depth : Nat) : List SubjectReport → List String
  | [] => []
  | report :: reports =>
    (if report.status = .clean then [] else lines depth report) ++ childLines depth reports

end

end SubjectReport

namespace Summary

/-- Counts verdicts; subjects without one count as scanned only. -/
def ofSubjects (subjects : List Subject) : Summary :=
  let count (status : Status) := (subjects.filter (·.status = status)).length
  { scanned := subjects.length
    clean := count .clean
    infected := count .infected
    error := count .error }

def toJson (summary : Summary) : Json :=
  .object
    [("scanned", .number summary.scanned),
     ("clean", .number summary.clean),
     ("infected", .number summary.infected),
     ("error", .number summary.error)]

def display (summary : Summary) : String :=
  s!"scanned: {summary.scanned}, clean: {summary.clean}, infected: {summary.infected}, " ++
    s!"error: {summary.error}"

end Summary

namespace Report

def ofSubjects (subjects : List Subject) : Report :=
  ⟨.ofSubjects subjects, SubjectReport.ofSubjects subjects⟩

def anyInfected (report : Report) : Bool :=
  0 < report.summary.infected

def toJson (report : Report) : Json :=
  .object
    [("summary", report.summary.toJson),
     ("units", .array (report.subjects.map SubjectReport.toJson))]

def json (report : Report) : String :=
  report.toJson.render

/-- The lines of the text report, the counts last. -/
def lines (report : Report) : List String :=
  report.subjects.flatMap (SubjectReport.lines 0) ++ [report.summary.display]

/-- The report as text, each line ended. -/
def text (report : Report) : String :=
  String.join (report.lines.map (· ++ "\n"))

end Report

end ClassWarden
