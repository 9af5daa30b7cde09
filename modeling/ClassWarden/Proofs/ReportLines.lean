import ClassWarden.Proofs.TextReport
import Mathlib.Algebra.BigOperators.Group.List.Lemmas
import Mathlib.Algebra.Order.Ring.Nat
import Mathlib.Data.List.Basic

/-!
# The lines that are read off a text report

The text report is written line by line: one line for each subject that is shown, one
for each error, one for each finding of a subject without entries, and the counts.
Names and messages are written as they are.  So the lines that a reader sees are those
that were written exactly if no text that the report shows holds a line feed; each line
feed in one of them adds a line, and what stands on it is up to whoever chose the text.
-/

namespace ClassWarden

/-! ## Texts of ended lines -/

def lineFeeds (text : String) : Nat :=
  text.toList.count '\n'

/-- The lines of a text, each ended by a line feed.  What stands behind the last line feed
is no line. -/
def endedLines (text : String) : List (List Char) :=
  (text.toList.splitOn '\n').dropLast

@[simp]
theorem lineFeeds_append (left right : String) :
    lineFeeds (left ++ right) = lineFeeds left + lineFeeds right := by
  rw [lineFeeds, String.toList_append, List.count_append]
  rfl

theorem lineFeeds_eq_zero_iff {text : String} : lineFeeds text = 0 ↔ '\n' ∉ text.toList :=
  List.count_eq_zero

theorem length_splitOn (chars : List Char) :
    (chars.splitOn '\n').length = chars.count '\n' + 1 := by
  induction chars with
  | nil => rfl
  | cons char chars ih =>
      rw [List.splitOn_cons_eq_if_modifyHead, List.count_cons]
      split
      · rw [List.length_cons, ih]
      · rw [List.length_modifyHead, ih]

/-- Lines that are written one after another are read off in pieces, as many as their line
feeds make of each. -/
theorem endedLines_join (lines : List String) :
    endedLines (String.join (lines.map (· ++ "\n"))) =
      lines.flatMap fun line => line.toList.splitOn '\n' := by
  have hsplit : (String.join (lines.map (· ++ "\n"))).toList.splitOn '\n' =
      (lines.flatMap fun line => line.toList.splitOn '\n') ++ [[]] := by
    rw [String.toList_join]
    induction lines with
    | nil => rfl
    | cons line lines ih =>
        have hend : "\n".toList = ['\n'] := by
          decide
        rw [List.map_cons, List.flatMap_cons, String.toList_append, hend, List.append_assoc,
          List.singleton_append, List.splitOn_append_cons_self, ih, List.flatMap_cons,
          List.append_assoc]
  rw [endedLines, hsplit, List.dropLast_concat]

theorem length_endedLines_join (lines : List String) :
    (endedLines (String.join (lines.map (· ++ "\n")))).length =
      lines.length + (lines.map lineFeeds).sum := by
  rw [endedLines_join, List.length_flatMap]
  simp only [length_splitOn]
  rw [List.sum_map_add, List.map_const', List.sum_replicate_nat, Nat.mul_one, Nat.add_comm]
  rfl

/-- Lines without a line feed are read off as they were written. -/
theorem endedLines_join_of_whole {lines : List String}
    (hwhole : ∀ line ∈ lines, lineFeeds line = 0) :
    endedLines (String.join (lines.map (· ++ "\n"))) = lines.map String.toList := by
  rw [endedLines_join, List.map_eq_flatMap]
  apply List.flatMap_congr
  intro line hline
  exact List.splitOn_eq_singleton (lineFeeds_eq_zero_iff.mp (hwhole line hline))

/-! ## What the report shows, subject by subject -/

namespace Subject

mutual

/-- The subjects that the text report has lines for, with their depths: a subject and, below
it, the entries that are not clean. -/
def displayed (depth : Nat) : Subject → List (Nat × Subject)
  | ⟨name, content, state, children, sha256⟩ =>
    (depth, ⟨name, content, state, children, sha256⟩) :: displayedAmong (depth + 1) children

def displayedAmong (depth : Nat) : List Subject → List (Nat × Subject)
  | [] => []
  | subject :: subjects =>
    (if subject.status = .clean then [] else displayed depth subject) ++
      displayedAmong depth subjects

end

theorem displayedAmong_eq_flatMap (depth : Nat) (subjects : List Subject) :
    displayedAmong depth subjects = subjects.flatMap fun subject =>
      if subject.status = .clean then [] else displayed depth subject := by
  induction subjects with
  | nil => rw [displayedAmong, List.flatMap_nil]
  | cons subject subjects ih => rw [displayedAmong, ih, List.flatMap_cons]

theorem displayed_eq_cons (depth : Nat) (subject : Subject) :
    displayed depth subject =
      (depth, subject) :: subject.children.flatMap fun child =>
        if child.status = .clean then [] else displayed (depth + 1) child := by
  cases subject
  rw [displayed, displayedAmong_eq_flatMap]

/-- Number of items that are told of a subject itself: its verdict, an error and, if it has
no entries, its findings. -/
def itemCount (subject : Subject) : Nat :=
  1 + subject.state.error?.toList.length +
    if subject.children.isEmpty then subject.state.findings.length else 0

/-- The texts that are told with these items. -/
def told (subject : Subject) : List String :=
  subject.name :: (subject.state.error?.toList ++
    if subject.children.isEmpty then
      subject.state.findings.flatMap fun finding => [finding.signature, finding.method]
    else [])

end Subject

namespace ReportLine

def own (node : Nat × Subject) : List ReportLine :=
  named node.1 node.2 ::
    (node.2.state.error?.toList.map (failed node.1) ++
      if node.2.children.isEmpty then node.2.state.findings.map (found node.1) else [])

/-- The texts that a line holds as they are. -/
def told : ReportLine → List String
  | named _ subject => [subject.name]
  | failed _ message => [message]
  | found _ finding => [finding.signature, finding.method]

/-- The report goes through the subjects that it shows, one after another. -/
theorem ofSubject_eq_flatMap_own (depth : Nat) (subject : Subject) :
    ofSubject depth subject = (subject.displayed depth).flatMap own := by
  induction subject using Subject.children_induction generalizing depth with
  | step subject ih =>
      have hentries : (subject.children.flatMap fun child =>
            if child.status = .clean then [] else ofSubject (depth + 1) child) =
          (subject.children.flatMap fun child =>
            if child.status = .clean then [] else child.displayed (depth + 1)).flatMap own := by
        rw [List.flatMap_assoc]
        apply List.flatMap_congr
        intro child hchild
        rw [ih child hchild, apply_ite (List.flatMap own), List.flatMap_nil]
      rw [ofSubject_eq, hentries, Subject.displayed_eq_cons, List.flatMap_cons, own,
        List.cons_append, List.append_assoc]

theorem length_own (node : Nat × Subject) : (own node).length = node.2.itemCount := by
  rw [own, List.length_cons, List.length_append, List.length_map,
    apply_ite List.length, List.length_map, List.length_nil, Subject.itemCount]
  omega

/-! ## Line feeds come from the texts that are told -/

theorem lineFeeds_ofList_eq_zero {chars : List Char} (hchars : '\n' ∉ chars) :
    lineFeeds (String.ofList chars) = 0 := by
  rw [lineFeeds_eq_zero_iff, String.toList_ofList]
  exact hchars

@[simp]
theorem lineFeeds_indent (depth : Nat) : lineFeeds (SubjectReport.indent depth) = 0 := by
  apply lineFeeds_ofList_eq_zero
  intro hmem
  have hblank := List.eq_of_mem_replicate hmem
  contradiction

@[simp]
theorem lineFeeds_repr (value : Nat) : lineFeeds value.repr = 0 := by
  rw [Nat.repr_eq_ofList_toDigits]
  apply lineFeeds_ofList_eq_zero
  intro hmem
  have hdigit := Nat.isDigit_of_mem_toDigits (by decide) (by decide) hmem
  contradiction

@[simp]
theorem lineFeeds_status (status : Status) : lineFeeds status.display = 0 := by
  cases status <;> decide

@[simp]
theorem lineFeeds_finding (finding : Finding) :
    lineFeeds finding.display = lineFeeds finding.signature + lineFeeds finding.method := by
  have hdisplay : finding.display = finding.signature ++ " in " ++ finding.method ++ " at " ++
      finding.offset.repr ++ " (distance " ++ finding.distance.repr ++ ")" := by
    rfl
  rw [hdisplay]
  simp only [lineFeeds_append, lineFeeds_repr]
  rfl

@[simp]
theorem lineFeeds_summary (summary : Summary) : lineFeeds summary.display = 0 := by
  have hdisplay : summary.display = "scanned: " ++ summary.scanned.repr ++ ", clean: " ++
      summary.clean.repr ++ ", infected: " ++ summary.infected.repr ++ ", " ++
      ("error: " ++ summary.error.repr) := by
    rfl
  rw [hdisplay]
  simp only [lineFeeds_append, lineFeeds_repr]
  rfl

/-- A line is written without line feeds of its own. -/
theorem lineFeeds_text (line : ReportLine) :
    lineFeeds line.text = (line.told.map lineFeeds).sum := by
  cases line with
  | named depth subject =>
      have hmark : lineFeeds ": " = 0 := by
        decide
      simp [text, told, hmark]
  | failed depth message =>
      have hmark : lineFeeds "  error: " = 0 := by
        decide
      simp [text, told, hmark]
  | found depth finding =>
      have hmark : lineFeeds "  - " = 0 := by
        decide
      simp [text, told, hmark]

theorem sum_lineFeeds_text (lines : List ReportLine) :
    ((lines.map text).map lineFeeds).sum = ((lines.flatMap told).map lineFeeds).sum := by
  induction lines with
  | nil => rfl
  | cons line lines ih =>
      rw [List.map_cons, List.map_cons, List.sum_cons, ih, List.flatMap_cons, List.map_append,
        List.sum_append, lineFeeds_text]

theorem flatMap_told_own (node : Nat × Subject) : (own node).flatMap told = node.2.told := by
  have hfailed : (node.2.state.error?.toList.flatMap fun message => (failed node.1 message).told) =
      node.2.state.error?.toList :=
    List.flatMap_singleton' _
  rw [own, List.flatMap_cons, List.flatMap_append, List.flatMap_map,
    apply_ite (List.flatMap told), List.flatMap_map, List.flatMap_nil, hfailed]
  rfl

end ReportLine

namespace Report

open Subject ReportLine

/-- No text that the report shows holds a line feed. -/
def ShowsWholeLines (subjects : List Subject) : Prop :=
  ∀ node ∈ subjects.flatMap (displayed 0), ∀ text ∈ node.2.told, '\n' ∉ text.toList

theorem lines_eq_flatMap_own (subjects : List Subject) :
    subjects.flatMap (ofSubject 0) = (subjects.flatMap (displayed 0)).flatMap own := by
  rw [List.flatMap_assoc]
  apply List.flatMap_congr
  intro subject _
  exact ofSubject_eq_flatMap_own 0 subject

theorem length_lines (subjects : List Subject) :
    (ofSubjects subjects).lines.length =
      1 + ((subjects.flatMap (displayed 0)).map fun node => node.2.itemCount).sum := by
  rw [lines_ofSubjects, lines_eq_flatMap_own, List.length_append, List.length_map,
    List.length_flatMap, List.length_singleton, Nat.add_comm]
  simp only [length_own]

theorem sum_lineFeeds_lines (subjects : List Subject) :
    ((ofSubjects subjects).lines.map lineFeeds).sum =
      (((subjects.flatMap (displayed 0)).flatMap fun node => node.2.told).map lineFeeds).sum := by
  rw [lines_ofSubjects, lines_eq_flatMap_own, List.map_append, List.sum_append,
    sum_lineFeeds_text, List.flatMap_assoc, List.map_singleton, List.sum_singleton,
    lineFeeds_summary, Nat.add_zero]
  simp only [flatMap_told_own]

theorem sum_lineFeeds_eq_zero_iff {subjects : List Subject} :
    (((subjects.flatMap (displayed 0)).flatMap fun node => node.2.told).map lineFeeds).sum = 0 ↔
      ShowsWholeLines subjects := by
  simp only [List.sum_eq_zero_iff_forall_eq_nat, List.forall_mem_map, List.mem_flatMap,
    lineFeeds_eq_zero_iff, ShowsWholeLines]
  constructor
  · intro hwhole node hnode text htext
    exact hwhole text ⟨node, hnode, htext⟩
  · rintro hwhole text ⟨node, hnode, htext⟩
    exact hwhole node hnode text htext

/-- The text has a line for each item and one more for each line feed in the texts it shows.
So there is one line per item, and the lines are read off as they were written, exactly if
no such text holds a line feed. -/
theorem line_per_item_iff_whole (subjects : List Subject) :
    let shown := subjects.flatMap (displayed 0)
    let items := (shown.map fun node => node.2.itemCount).sum
    let seen := endedLines (ofSubjects subjects).text
    seen.length = 1 + items + ((shown.flatMap fun node => node.2.told).map lineFeeds).sum ∧
      (seen.length = 1 + items ↔ ShowsWholeLines subjects) ∧
      (seen = (ofSubjects subjects).lines.map String.toList ↔ ShowsWholeLines subjects) := by
  intro shown items seen
  have hlength : seen.length =
      1 + items + ((shown.flatMap fun node => node.2.told).map lineFeeds).sum := by
    rw [← sum_lineFeeds_lines, ← length_lines]
    exact length_endedLines_join _
  have hcount : seen.length = 1 + items ↔ ShowsWholeLines subjects := by
    rw [hlength, ← sum_lineFeeds_eq_zero_iff]
    exact Nat.add_eq_left
  refine ⟨hlength, hcount, ?_, ?_⟩
  · intro hseen
    apply hcount.mp
    rw [hseen, List.length_map, length_lines]
  · intro hwhole
    apply endedLines_join_of_whole
    rw [← sum_lineFeeds_eq_zero_iff, ← sum_lineFeeds_lines] at hwhole
    intro line hline
    exact List.sum_eq_zero_iff_forall_eq_nat.mp hwhole _ (List.mem_map_of_mem hline)

/-- A broken entry whose name holds line feeds: besides the counts there are four items, but
seven lines are read off, one of which tells of a class that was never met. -/
theorem entry_name_forges_line :
    let entry : Subject :=
      { Subject.new "a\nGood.class: clean\n.class" .missing with state := .error "File is empty" }
    let archive : Subject :=
      { Subject.new "lib.jar" .missing with
        state := Subject.aggregate [entry]
        children := [entry] }
    let items := ((displayed 0 archive).map fun node => node.2.itemCount).sum
    let seen := endedLines (ofSubjects [archive]).text
    items = 4 ∧ seen.length = 7 ∧ seen.length ≠ 1 + items ∧ "Good.class: clean".toList ∈ seen := by
  intro entry archive items seen
  have hseen : seen = (ofSubjects [archive]).lines.flatMap fun line =>
      line.toList.splitOn '\n' :=
    endedLines_join _
  rw [hseen]
  decide +kernel

end Report

end ClassWarden
