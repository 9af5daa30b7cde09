import ClassWarden.Report
import ClassWarden.Text.Json.Reader

/-!
# Reading reports back

A report is read from its JSON document by the names of the fields.  What a
document leaves out is absent from the report or empty in it, and a field of the
wrong kind refuses the document.
-/

namespace ClassWarden

/-- The status with the given name. -/
def Status.ofDisplay? (text : String) : Option Status :=
  Status.all.find? fun status => status.display = text

def Finding.ofJson? (document : Json) : Option Finding := do
  let fields ← document.fields?
  let method ← (← fields.lookup "method").text?
  let signature ← (← fields.lookup "signature").text?
  let offset ← (← fields.lookup "offset").count?
  let distance ← (← fields.lookup "distance").count?
  return { method, signature, offset, distance }

def Summary.ofJson? (document : Json) : Option Summary := do
  let fields ← document.fields?
  let scanned ← (← fields.lookup "scanned").count?
  let clean ← (← fields.lookup "clean").count?
  let infected ← (← fields.lookup "infected").count?
  let error ← (← fields.lookup "error").count?
  return { scanned, clean, infected, error }

namespace SubjectReport

/-- The text of a field that may be left out. -/
def optional? : Option Json → Option (Option String)
  | none => some none
  | some value => value.text?.map some

/-- The items of a field that may be left out. -/
def nonempty? : Option Json → Option (List Json)
  | none => some []
  | some value => value.items?

mutual

def ofJson? : Json → Option SubjectReport
  | .object fields => do
    let name ← (← fields.lookup "name").text?
    let status ← Status.ofDisplay? (← (← fields.lookup "status").text?)
    let sha256 ← optional? (fields.lookup "sha256")
    let findings ← (← nonempty? (fields.lookup "matches")).mapM Finding.ofJson?
    let error ← optional? (fields.lookup "error")
    let children ← childrenOf? fields
    return { name, status, sha256, findings, error, children }
  | _ => none

/-- What is reported below a subject with the given fields. -/
def childrenOf? : List (String × Json) → Option (List SubjectReport)
  | [] => some []
  | (name, value) :: fields => if name = "children" then ofItems? value else childrenOf? fields

def ofItems? : Json → Option (List SubjectReport)
  | .array items => ofJsonItems? items
  | _ => none

def ofJsonItems? : List Json → Option (List SubjectReport)
  | [] => some []
  | item :: items => do
    let report ← ofJson? item
    let reports ← ofJsonItems? items
    return report :: reports

end

end SubjectReport

namespace Report

def ofJson? (document : Json) : Option Report := do
  let fields ← document.fields?
  let summary ← Summary.ofJson? (← fields.lookup "summary")
  let subjects ← SubjectReport.ofItems? (← fields.lookup "units")
  return { summary, subjects }

/-- The report with the given text. -/
def decode? (text : String) : Option Report :=
  (Json.parse? text).bind ofJson?

end Report

end ClassWarden
