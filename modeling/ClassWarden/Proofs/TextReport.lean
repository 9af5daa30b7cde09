import ClassWarden.Proofs.ArchiveVerdict

/-!
# What the text report shows

The text report leaves out clean entries with everything below them, and the
findings of an archive with entries.  Neither hides anything of a subject that
events can lead to.  Below a clean subject everything is clean, so the lines
about subjects name exactly those at the top and those on a way to an infection
or a failure.  The findings of an archive are those of its entries, so the lines
about findings tell each of them once.

The lines are taken here as values, before they are written as text.
-/

namespace ClassWarden

namespace Subject

variable {subject child : Subject} {depth : Nat}

theorem children_induction {motive : Subject → Prop}
    (step : ∀ subject, (∀ child ∈ subject.children, motive child) → motive subject)
    (subject : Subject) : motive subject :=
  step subject fun child _ => children_induction step child
termination_by sizeOf subject
decreasing_by
  obtain ⟨name, content, state, children, sha256⟩ := subject
  have hsize := List.sizeOf_lt_of_mem ‹_ ∈ children›
  simp only [Subject.mk.sizeOf_spec]
  omega

/-! ## Nodes in the order of a report -/

mutual

/-- The nodes of a subject's tree with their depths, each in front of those below
it. -/
def nodes (depth : Nat) : Subject → List (Nat × Subject)
  | ⟨name, content, state, children, sha256⟩ =>
    (depth, ⟨name, content, state, children, sha256⟩) :: nodesAmong (depth + 1) children

def nodesAmong (depth : Nat) : List Subject → List (Nat × Subject)
  | [] => []
  | subject :: subjects => nodes depth subject ++ nodesAmong depth subjects

end

def descendants (depth : Nat) (subject : Subject) : List (Nat × Subject) :=
  subject.children.flatMap (nodes (depth + 1))

theorem nodesAmong_eq_flatMap (depth : Nat) (subjects : List Subject) :
    nodesAmong depth subjects = subjects.flatMap (nodes depth) := by
  induction subjects with
  | nil => rw [nodesAmong, List.flatMap_nil]
  | cons subject subjects ih => rw [nodesAmong, ih, List.flatMap_cons]

theorem nodes_eq_cons (depth : Nat) (subject : Subject) :
    nodes depth subject = (depth, subject) :: descendants depth subject := by
  cases subject
  rw [nodes, nodesAmong_eq_flatMap, descendants]

def isAlarm (subject : Subject) : Bool :=
  subject.status = .infected || subject.status = .error

/-- Whether a subject or something below it is infected or has failed. -/
def leadsToAlarm (subject : Subject) : Bool :=
  (subject.nodes 0).any fun node => node.2.isAlarm

/-- The subjects that a report has to name: those it is about and, below them, the
ones on the way to an infection or a failure. -/
def toBeShown (subjects : List Subject) : List (Nat × Subject) :=
  subjects.flatMap fun subject =>
    (0, subject) :: (subject.descendants 0).filter fun node => node.2.leadsToAlarm

end Subject

/-- What a line of the text report tells, at a depth. -/
inductive ReportLine where
  | named (depth : Nat) (subject : Subject)
  | failed (depth : Nat) (message : String)
  | found (depth : Nat) (finding : Finding)

namespace ReportLine

variable {subject : Subject} {depth : Nat}

def text : ReportLine → String
  | named depth subject =>
    SubjectReport.indent depth ++ subject.name ++ ": " ++ subject.status.display
  | failed depth message => SubjectReport.indent depth ++ "  error: " ++ message
  | found depth finding => SubjectReport.indent depth ++ "  - " ++ finding.display

def subject? : ReportLine → Option (Nat × Subject)
  | named depth subject => some (depth, subject)
  | _ => none

def finding? : ReportLine → Option Finding
  | found _ finding => some finding
  | _ => none

mutual

/-- The lines of a subject at some depth. -/
def ofSubject (depth : Nat) : Subject → List ReportLine
  | ⟨name, content, state, children, sha256⟩ =>
    named depth ⟨name, content, state, children, sha256⟩ ::
      (state.error?.toList.map (failed depth) ++
        (if children.isEmpty then state.findings.map (found depth) else []) ++
        ofEntries (depth + 1) children)

def ofEntries (depth : Nat) : List Subject → List ReportLine
  | [] => []
  | subject :: subjects =>
    (if subject.status = .clean then [] else ofSubject depth subject) ++ ofEntries depth subjects

end

theorem ofEntries_eq_flatMap (depth : Nat) (subjects : List Subject) :
    ofEntries depth subjects = subjects.flatMap fun subject =>
      if subject.status = .clean then [] else ofSubject depth subject := by
  induction subjects with
  | nil => rw [ofEntries, List.flatMap_nil]
  | cons subject subjects ih => rw [ofEntries, ih, List.flatMap_cons]

theorem ofSubject_eq (depth : Nat) (subject : Subject) :
    ofSubject depth subject =
      named depth subject ::
        (subject.state.error?.toList.map (failed depth) ++
          (if subject.children.isEmpty then subject.state.findings.map (found depth) else []) ++
          subject.children.flatMap fun child =>
            if child.status = .clean then [] else ofSubject (depth + 1) child) := by
  cases subject
  rw [ofSubject, ofEntries_eq_flatMap]

theorem childLines_eq_flatMap (depth : Nat) (reports : List SubjectReport) :
    SubjectReport.childLines depth reports = reports.flatMap fun report =>
      if report.status = .clean then [] else SubjectReport.lines depth report := by
  induction reports with
  | nil => rw [SubjectReport.childLines, List.flatMap_nil]
  | cons report reports ih => rw [SubjectReport.childLines, ih, List.flatMap_cons]

/-- As text, the lines are those of the subject's report. -/
theorem map_text_ofSubject (subject : Subject) (depth : Nat) :
    (ofSubject depth subject).map text =
      SubjectReport.lines depth (SubjectReport.ofSubject subject) := by
  induction subject using Subject.children_induction generalizing depth with
  | step subject ih =>
      have hentries : (subject.children.flatMap fun child =>
            if child.status = .clean then [] else ofSubject (depth + 1) child).map text =
          SubjectReport.childLines (depth + 1)
            (subject.children.map SubjectReport.ofSubject) := by
        rw [childLines_eq_flatMap, List.flatMap_map, List.map_flatMap]
        refine List.flatMap_congr fun child hchild => ?_
        have hstatus : (SubjectReport.ofSubject child).status = child.status := by
          rw [SubjectReport.ofSubject_eq]
        rw [hstatus, apply_ite (List.map text), List.map_nil, ih child hchild]
      rw [ofSubject_eq, SubjectReport.ofSubject_eq, SubjectReport.lines, List.map_cons,
        List.map_append, List.map_append, hentries, List.map_map, apply_ite (List.map text),
        List.map_nil, List.map_map, List.isEmpty_map]
      rfl

/-! ## Lines of one kind -/

/-- What is picked from the lines of a subject: from its own ones, kind by kind, and
from those of the entries that are shown. -/
theorem filterMap_ofSubject {α : Type} (pick : ReportLine → Option α) (subject : Subject)
    (depth : Nat) :
    (ofSubject depth subject).filterMap pick =
      (pick (named depth subject)).toList ++
        (subject.state.error?.toList.filterMap fun message => pick (failed depth message)) ++
        (if subject.children.isEmpty then
          subject.state.findings.filterMap fun finding => pick (found depth finding)
        else []) ++
        subject.children.flatMap fun child =>
          if child.status = .clean then [] else (ofSubject (depth + 1) child).filterMap pick := by
  have hname : [named depth subject].filterMap pick = (pick (named depth subject)).toList := by
    cases hpick : pick (named depth subject) <;> simp [hpick]
  rw [ofSubject_eq, ← List.singleton_append, List.filterMap_append, hname,
    List.filterMap_append, List.filterMap_append, List.filterMap_map, List.filterMap_flatMap]
  simp only [apply_ite (List.filterMap pick), List.filterMap_nil, List.filterMap_map,
    Function.comp_def, List.append_assoc]

theorem filterMap_subject?_ofSubject (subject : Subject) (depth : Nat) :
    (ofSubject depth subject).filterMap subject? =
      (depth, subject) :: subject.children.flatMap fun child =>
        if child.status = .clean then [] else (ofSubject (depth + 1) child).filterMap subject? := by
  rw [filterMap_ofSubject]
  simp [subject?]

theorem filterMap_finding?_ofSubject (subject : Subject) (depth : Nat) :
    (ofSubject depth subject).filterMap finding? =
      (if subject.children.isEmpty then subject.state.findings else []) ++
        subject.children.flatMap fun child =>
          if child.status = .clean then []
          else (ofSubject (depth + 1) child).filterMap finding? := by
  rw [filterMap_ofSubject]
  simp [finding?]

end ReportLine

/-! ## Subjects that events lead to -/

namespace Subject

variable {subject child : Subject} {depth : Nat}

theorem Sound.of_mem (hsound : Sound subject) (hchild : child ∈ subject.children) : Sound child :=
  fun node hnode => hsound node (.entry hchild hnode)

theorem Sound.consistent (hsound : Sound subject) : Consistent subject :=
  hsound subject (.self subject)

theorem isAlarm_eq_false_iff (hsettled : subject.isSettled = true) :
    subject.isAlarm = false ↔ subject.status = .clean := by
  rw [isSettled] at hsettled
  rw [isAlarm]
  cases hstatus : subject.status <;> simp_all [Status.isTerminal, Status.rank?]

/-- The entries of a clean archive are clean. -/
theorem Sound.child_clean (hsound : Sound subject) (hclean : subject.status = .clean)
    (hchild : child ∈ subject.children) : child.status = .clean := by
  have hne : subject.children ≠ [] := List.ne_nil_of_mem hchild
  have haggregate : (aggregate subject.children).status = .clean := by
    rw [← hsound.consistent.state_eq hne]
    exact hclean
  obtain ⟨hnoError, hnoInfection⟩ := (isWorst_aggregate subject.children).clean_iff.mp haggregate
  have hsettled := hsound.consistent.children_isSettled child hchild
  refine (isAlarm_eq_false_iff hsettled).mp ?_
  rw [isAlarm, Bool.or_eq_false_iff, decide_eq_false_iff_not, decide_eq_false_iff_not]
  exact ⟨fun hinfected => hnoInfection ⟨child, hchild, hinfected⟩,
    fun herror => hnoError ⟨child, hchild, herror⟩⟩

/-- Everything below a clean subject is clean. -/
theorem Sound.nodes_clean (hsound : Sound subject) (hclean : subject.status = .clean)
    (depth : Nat) : ∀ node ∈ nodes depth subject, Sound node.2 ∧ node.2.status = .clean := by
  induction subject using children_induction generalizing depth with
  | step subject ih =>
      rw [nodes_eq_cons, descendants, List.forall_mem_cons]
      refine ⟨⟨hsound, hclean⟩, fun node hnode => ?_⟩
      obtain ⟨child, hchild, hnode⟩ := List.mem_flatMap.mp hnode
      exact ih child hchild (hsound.of_mem hchild) (hsound.child_clean hclean hchild) _ node hnode

/-- Of a clean subject nothing is on the way to an infection or a failure. -/
theorem Sound.leadsToAlarm_eq_false (hsound : Sound subject) (hclean : subject.status = .clean) :
    subject.leadsToAlarm = false := by
  rw [leadsToAlarm, List.any_eq_false]
  intro node hnode
  have hnode := (hsound.nodes_clean hclean 0 node hnode).2
  simp [isAlarm, hnode]

theorem leadsToAlarm_of_isAlarm (halarm : subject.isAlarm = true) :
    subject.leadsToAlarm = true := by
  rw [leadsToAlarm, nodes_eq_cons, List.any_cons, halarm, Bool.true_or]

theorem Sound.filter_nodes_of_clean (hsound : Sound subject) (hclean : subject.status = .clean)
    (depth : Nat) : ((nodes depth subject).filter fun node => node.2.leadsToAlarm) = [] := by
  rw [List.filter_eq_nil_iff]
  intro node hnode
  obtain ⟨hsound, hclean⟩ := hsound.nodes_clean hclean depth node hnode
  rw [hsound.leadsToAlarm_eq_false hclean]
  decide

/-- The lines name a subject and whatever leads to an alarm below it. -/
theorem Sound.subjects_shown (hsound : Sound subject) (depth : Nat) :
    (ReportLine.ofSubject depth subject).filterMap ReportLine.subject? =
      (depth, subject) ::
        (descendants depth subject).filter fun node => node.2.leadsToAlarm := by
  induction subject using children_induction generalizing depth with
  | step subject ih =>
      rw [ReportLine.filterMap_subject?_ofSubject, descendants, List.filter_flatMap]
      congr 1
      refine List.flatMap_congr fun child hchild => ?_
      have hchildSound := hsound.of_mem hchild
      by_cases hclean : child.status = .clean
      · rw [if_pos hclean, hchildSound.filter_nodes_of_clean hclean]
      · have hsettled := hsound.consistent.children_isSettled child hchild
        have halarm : child.isAlarm = true := by
          rw [← Bool.not_eq_false, isAlarm_eq_false_iff hsettled]
          exact hclean
        rw [if_neg hclean, ih child hchild hchildSound, nodes_eq_cons, List.filter_cons,
          if_pos (leadsToAlarm_of_isAlarm halarm)]

theorem findings_of_status_ne_infected (hstatus : subject.status ≠ .infected) :
    subject.state.findings = [] := by
  cases hstate : subject.state <;>
    simp_all [status, State.status, State.findings, State.findings?]

/-- An archive has the findings of its entries. -/
theorem findings_aggregate (children : List Subject) :
    (aggregate children).findings = children.flatMap (·.state.findings) := by
  cases haggregate : aggregate children with
  | infected findings => exact (mem_findings_aggregate haggregate).1
  | added | loading | scanning | clean | error message =>
      symm
      refine List.flatMap_eq_nil_iff.mpr fun child hchild => ?_
      refine findings_of_status_ne_infected fun hinfected => ?_
      have hworst := (isWorst_aggregate children).infected_iff.mpr ⟨child, hchild, hinfected⟩
      rw [haggregate] at hworst
      cases hworst

/-- The lines tell the findings of a subject, each where it was made. -/
theorem Sound.findings_shown (hsound : Sound subject) (depth : Nat) :
    (ReportLine.ofSubject depth subject).filterMap ReportLine.finding? =
      subject.state.findings := by
  induction subject using children_induction generalizing depth with
  | step subject ih =>
      rw [ReportLine.filterMap_finding?_ofSubject]
      by_cases hchildren : subject.children = []
      · simp [hchildren]
      · have hnotEmpty : ¬subject.children.isEmpty = true := by simpa using hchildren
        rw [hsound.consistent.state_eq hchildren, findings_aggregate, if_neg hnotEmpty,
          List.nil_append]
        refine List.flatMap_congr fun child hchild => ?_
        split
        case isTrue hclean =>
          rw [findings_of_status_ne_infected (by simp [hclean])]
        case isFalse => exact ih child hchild (hsound.of_mem hchild) _

end Subject

namespace Report

theorem lines_ofSubjects (subjects : List Subject) :
    (ofSubjects subjects).lines =
      (subjects.flatMap (ReportLine.ofSubject 0)).map ReportLine.text ++
        [(Summary.ofSubjects subjects).display] := by
  rw [lines, ofSubjects, SubjectReport.ofSubjects_eq_map, List.flatMap_map, List.map_flatMap]
  simp only [ReportLine.map_text_ofSubject]

/-- The text report names every subject it is about and, below them, those on the
way to an infection or a failure, and it tells every finding of its subjects
once. -/
theorem text_shows_all {subjects : List Subject}
    (hreachable : ∀ subject ∈ subjects, subject.Reachable) :
    let lines := subjects.flatMap (ReportLine.ofSubject 0)
    (ofSubjects subjects).text = String.join
        ((lines.map ReportLine.text ++ [(Summary.ofSubjects subjects).display]).map (· ++ "\n")) ∧
      lines.filterMap ReportLine.subject? = Subject.toBeShown subjects ∧
      lines.filterMap ReportLine.finding? = subjects.flatMap (·.state.findings) := by
  intro lines
  refine ⟨?_, ?_, ?_⟩
  · rw [text, lines_ofSubjects]
  · rw [List.filterMap_flatMap, Subject.toBeShown]
    exact List.flatMap_congr fun subject hsubject =>
      (hreachable subject hsubject).sound.subjects_shown 0
  · rw [List.filterMap_flatMap]
    exact List.flatMap_congr fun subject hsubject =>
      (hreachable subject hsubject).sound.findings_shown 0

/-- Two archives, one in the other, with an infected class, a broken one and a
clean one. -/
theorem text_shows_all_nestedArchive :
    let finding : Finding := ⟨"run", "sig2", 0, 1⟩
    let infected := ((Subject.discovered "A.class" .missing).advance .scan).value.advance
      (.complete [finding])
    let clean := ((Subject.discovered "B.class" .missing).advance .scan).value.advance
      (.complete [])
    let broken := (Subject.discovered "C.class" .missing).fail "File is empty"
    let inner := (Subject.discovered "in.jar" .missing).advance
      (.settle [infected.value, clean.value])
    let outer := (Subject.discovered "out.jar" .missing).advance
      (.settle [clean.value, inner.value, broken.value])
    let lines := ReportLine.ofSubject 0 outer.value
    outer.value.Reachable ∧
      lines.filterMap ReportLine.subject? =
        [(0, outer.value), (1, inner.value), (2, infected.value), (1, broken.value)] ∧
      lines.filterMap ReportLine.finding? = [finding] := by
  intro finding infected clean broken inner outer lines
  have hinfected : infected.value.Reachable :=
    .advance (.advance (.discovered _ _) (by simp [Event.children])) (by simp [Event.children])
  have hclean : clean.value.Reachable :=
    .advance (.advance (.discovered _ _) (by simp [Event.children])) (by simp [Event.children])
  have hbroken : broken.value.Reachable := .fail _ (.discovered _ _)
  have hinner : inner.value.Reachable :=
    .advance (.discovered _ _) (by simp [Event.children, hinfected, hclean])
  have houter : outer.value.Reachable :=
    .advance (.discovered _ _) (by simp [Event.children, hclean, hinner, hbroken])
  obtain ⟨-, hsubjects, hfindings⟩ := text_shows_all (List.forall_mem_singleton.mpr houter)
  rw [List.flatMap_singleton] at hsubjects hfindings
  refine ⟨houter, ?_, ?_⟩
  · rw [hsubjects]
    rfl
  · rw [hfindings]
    rfl

end Report

end ClassWarden
