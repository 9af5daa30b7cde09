import ClassWarden.Proofs.JsonText
import ClassWarden.Report.Reader

/-!
# Nothing is lost in the JSON report

Every part of a report is read back from its document, and a document from its
text.  A part that is left out is told from one that is there: an absent text has
no field, and an empty list is not written as an empty one.
-/

namespace ClassWarden

@[simp]
theorem Status.ofDisplay?_display (status : Status) :
    Status.ofDisplay? status.display = some status := by
  cases status <;> rfl

theorem Finding.ofJson?_toJson (finding : Finding) :
    Finding.ofJson? finding.toJson = some finding := by
  rfl

theorem Summary.ofJson?_toJson (summary : Summary) :
    Summary.ofJson? summary.toJson = some summary := by
  rfl

namespace SubjectReport

/-! ## Fields that may be left out -/

theorem lookup_field (wanted name : String) (value : Json) (fields : List (String × Json)) :
    ((name, value) :: fields).lookup wanted =
      if wanted = name then some value else fields.lookup wanted := by
  rw [List.lookup_cons]
  by_cases hname : wanted = name
  · simp [hname]
  · simp [hname, beq_false_of_ne hname]

@[simp]
theorem lookup_optional (wanted name : String) (value : Option String) :
    (optional name value).lookup wanted = if wanted = name then value.map .text else none := by
  cases value with
  | none => simp [optional]
  | some text => simp [optional, lookup_field]

/-- The value of a list's field, absent when the list is empty. -/
def listed : List Json → Option Json
  | [] => none
  | items => some (.array items)

@[simp]
theorem lookup_nonempty (wanted name : String) (items : List Json) :
    (nonempty name items).lookup wanted = if wanted = name then listed items else none := by
  cases items with
  | nil => simp [nonempty, listed]
  | cons item items => simp [nonempty, listed, lookup_field]

@[simp]
theorem optional?_map_text (value : Option String) :
    optional? (value.map .text) = some value := by
  cases value <;> rfl

@[simp]
theorem nonempty?_listed (items : List Json) : nonempty? (listed items) = some items := by
  cases items <;> rfl

theorem childrenOf?_eq (fields : List (String × Json)) :
    childrenOf? fields =
      match fields.lookup "children" with
      | none => some []
      | some value => ofItems? value := by
  induction fields with
  | nil => rfl
  | cons field fields ih =>
      obtain ⟨name, value⟩ := field
      rw [childrenOf?, lookup_field, ih]
      by_cases hname : name = "children"
      · rw [if_pos hname, if_pos hname.symm]
      · rw [if_neg hname, if_neg (Ne.symm hname)]

/-- Only the field of the children is read for them, wherever it stands. -/
theorem childrenOf?_of_lookup {fields : List (String × Json)} {items : List Json}
    (hfield : fields.lookup "children" = listed items) :
    childrenOf? fields = ofJsonItems? items := by
  rw [childrenOf?_eq, hfield]
  cases items <;> rfl

/-! ## Subjects -/

theorem mapM_ofJson?_toJson (findings : List Finding) :
    (findings.map Finding.toJson).mapM Finding.ofJson? = some findings := by
  have hfindings : Finding.ofJson? ∘ Finding.toJson = pure := funext Finding.ofJson?_toJson
  rw [List.mapM_map, hfindings]
  exact List.mapM_pure.trans (congrArg some (List.map_id findings))

theorem toJsonItems_eq_map (reports : List SubjectReport) :
    toJsonItems reports = reports.map toJson := by
  induction reports with
  | nil => rfl
  | cons report reports ih => rw [toJsonItems, ih, List.map_cons]

/-- A subject is read from its fields, in whatever order they stand. -/
theorem ofJson?_object {fields : List (String × Json)} (report : SubjectReport)
    (hname : fields.lookup "name" = some (.text report.name))
    (hstatus : fields.lookup "status" = some (.text report.status.display))
    (hsha256 : fields.lookup "sha256" = report.sha256.map .text)
    (hmatches : fields.lookup "matches" = listed (report.findings.map Finding.toJson))
    (herror : fields.lookup "error" = report.error.map .text)
    (hchildren : childrenOf? fields = some report.children) :
    ofJson? (.object fields) = some report := by
  rw [ofJson?, hname, hstatus, hsha256, hmatches, herror, hchildren]
  simp only [Option.bind_eq_bind, Option.bind_some, Json.text?, Status.ofDisplay?_display,
    optional?_map_text, nonempty?_listed, mapM_ofJson?_toJson]
  cases report
  rfl

mutual

theorem ofJson?_toJson : (report : SubjectReport) → ofJson? (toJson report) = some report
  | ⟨name, status, sha256, findings, error, children⟩ => by
      rw [toJson]
      apply ofJson?_object
      case hchildren =>
        rw [childrenOf?_of_lookup, ofJsonItems?_toJsonItems children]
        simp [List.lookup_append, lookup_field]
      all_goals simp [List.lookup_append, lookup_field]

theorem ofJsonItems?_toJsonItems :
    (reports : List SubjectReport) → ofJsonItems? (toJsonItems reports) = some reports
  | [] => rfl
  | report :: reports => by
      rw [toJsonItems, ofJsonItems?, ofJson?_toJson report, ofJsonItems?_toJsonItems reports]
      rfl

end

end SubjectReport

namespace Report

theorem ofJson?_toJson (report : Report) : ofJson? report.toJson = some report := by
  have hunits : SubjectReport.ofItems? (.array (report.subjects.map SubjectReport.toJson)) =
      some report.subjects := by
    rw [← SubjectReport.toJsonItems_eq_map]
    exact SubjectReport.ofJsonItems?_toJsonItems report.subjects
  simp [ofJson?, toJson, Json.fields?, SubjectReport.lookup_field, Summary.ofJson?_toJson, hunits]

theorem decode?_json (report : Report) : decode? report.json = some report := by
  rw [decode?, json, Json.parse?_render, Option.bind_some, ofJson?_toJson]

/-- The JSON report is complete and unambiguous: whatever names, errors and digests
it holds and however deep its subjects nest, the report is read back from its text,
so no two reports have the same text. -/
theorem json_loses_nothing :
    (∀ report : Report, decode? report.json = some report) ∧
      Function.Injective Report.json := by
  refine ⟨decode?_json, ?_⟩
  intro first second hjson
  have hdecoded := decode?_json first
  rw [hjson, decode?_json second] at hdecoded
  exact (Option.some_inj.mp hdecoded).symm

end Report

end ClassWarden
