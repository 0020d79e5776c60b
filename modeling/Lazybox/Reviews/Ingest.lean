import Lazybox.Core.Decimal
import Lazybox.Core.WorkingClaim

/-!
# What a review and a fixer submit

A submission is always kept.  It is a draft where something is wrong with it, and says what, and a
report which is not a draft may be handed to a fixer, whose result answers its findings one by one.

A finding that has no id is given one by its position.  Another finding may have that very id, and
the later of the two is dropped.  A text is a list of characters, and how one is quoted (`debug`) is
given.
-/

namespace Lazybox.Review

open WorkingClaim (Text)
open scoped WorkingClaim

def REVIEW_SCHEMA_VERSION : ℕ := 1

/-! ### Reports -/

inductive Severity where
  | blocker
  | major
  | minor
deriving DecidableEq, Repr

def Severity.parse (text : Text) : Option Severity :=
  let word := toAsciiLowercase (trim text)
  if word ∈ ["blocker", "critical", "high"].map String.toList then some .blocker
  else if word ∈ ["major", "medium"].map String.toList then some .major
  else if word ∈ ["minor", "low", "nit"].map String.toList then some .minor
  else none

def parseU32 (s : Text) : Option ℕ := (parseU64 s).filter fun n => n < 4294967296

structure FileAnchor where
  file : Text
  line : Option ℕ
deriving DecidableEq, Repr

def FileAnchor.parse (text : Text) : Option FileAnchor :=
  let text := trim text
  if text = [] then none
  else
    match rsplitOnce ':' text with
    | some (file, line) =>
        if file = [] then some ⟨text, none⟩
        else
          match parseU32 (trim line) with
          | some line => some ⟨file, some line⟩
          | none =>
              let file := text.rdropWhile (· = ':')
              if file = [] then none else some ⟨file, none⟩
    | none => some ⟨text, none⟩

structure Finding where
  id : Text
  title : Text
  severity : Severity
  anchors : List FileAnchor
  evidence : Text
  remediation : Text
  checks : List Text
deriving DecidableEq, Repr

structure ReviewScope where
  label : Text
  baseSha : Option Text
  headSha : Option Text
  dirtyDigest : Option Text
deriving DecidableEq, Repr

inductive ArtifactStatus where
  | draft
  | completed
deriving DecidableEq, Repr

/-- The status as it is quoted. -/
def ArtifactStatus.debug : ArtifactStatus → Text
  | draft => "Draft".toList
  | completed => "Completed".toList

inductive ReviewOrigin where
  | submitted
  | imported
deriving DecidableEq, Repr

structure ReviewArtifact where
  schema : ℕ
  id : Text
  workspace : Text
  repo : Option Text
  runId : Text
  agent : Option Text
  scope : ReviewScope
  status : ArtifactStatus
  origin : ReviewOrigin
  findings : List Finding
  checks : List Text
  openQuestions : List Text
  report : Text
  defects : List Text
  createdAtMs : ℤ
deriving DecidableEq, Repr

def ReviewArtifact.isBindable (report : ReviewArtifact) : Bool :=
  report.status = .completed ∧ report.schema = REVIEW_SCHEMA_VERSION

/-! ### Submissions -/

structure FindingInput where
  id : Option Text
  title : Text
  severity : Text
  anchors : List Text
  evidence : Text
  remediation : Text
  checks : List Text
deriving DecidableEq, Repr

structure ReviewSubmission where
  report : Text
  findings : List FindingInput
  scope : ReviewScope
  checks : List Text
  openQuestions : List Text
deriving DecidableEq, Repr

structure ReviewIngest where
  id : Text
  workspace : Text
  repo : Option Text
  runId : Text
  agent : Option Text
  origin : ReviewOrigin
  createdAtMs : ℤ
deriving DecidableEq, Repr

def trimmedLines (lines : List Text) : List Text :=
  lines.filterMap fun line => if trim line = [] then none else some (trim line)

/-- The id a finding is given. -/
def FindingInput.idAt (input : FindingInput) (position : ℕ) : Text :=
  match input.id.map trim with
  | some id => if id = [] then "f".toList ++ (toString position).toList else id
  | none => "f".toList ++ (toString position).toList

def FindingInput.parsedAnchors (input : FindingInput) : List FileAnchor :=
  input.anchors.filterMap FileAnchor.parse

/-- What was made of the findings so far. -/
structure Ingested where
  defects : List Text
  findings : List Finding
  seen : List Text

section Defects

variable (debug : Text → Text)

def defectIf (wrong : Prop) [Decidable wrong] (defect : Text) : List Text :=
  if wrong then [defect] else []

/-- The body of the loop of `into_artifact`. -/
def Ingested.next (s : Ingested) (input : FindingInput) (position : ℕ) : Ingested :=
  let id := input.idAt position
  if id ∈ s.seen then
    { s with defects := s.defects
      ++ ["finding ".toList ++ (toString position).toList ++ ": duplicate id ".toList ++ debug id
        ++ " — ids must be unique within a report".toList] }
  else
    let seen := s.seen ++ [id]
    let title := trim input.title
    let defects := s.defects
      ++ defectIf (title = []) ("finding ".toList ++ id ++ ": title is empty".toList)
    match Severity.parse input.severity with
    | none =>
        { s with
          seen := seen
          defects := defects ++ ["finding ".toList ++ id ++ ": severity ".toList
            ++ debug input.severity ++ " is not one of blocker / major / minor".toList] }
    | some severity =>
        let anchors := input.parsedAnchors
        let evidence := trim input.evidence
        { defects := defects
            ++ defectIf (anchors = []) ("finding ".toList ++ id
              ++ (": no `file:line` anchor — a finding a fixer cannot locate is not "
                ++ "actionable").toList)
            ++ defectIf (evidence = []) ("finding ".toList ++ id
              ++ (": evidence is empty — name the concrete input or state that produces the "
                ++ "wrong result").toList)
          findings := s.findings ++ [{
            id := id
            title := title
            severity := severity
            anchors := anchors
            evidence := evidence
            remediation := trim input.remediation
            checks := trimmedLines input.checks }]
          seen := seen }

/-- The loop, from a position on. -/
def Ingested.run (s : Ingested) : ℕ → List FindingInput → Ingested
  | _, [] => s
  | position, input :: inputs => run (s.next debug input position) (position + 1) inputs

def ReviewSubmission.intoArtifact (submission : ReviewSubmission) (ingest : ReviewIngest) :
    ReviewArtifact :=
  let defects :=
    defectIf (trim submission.report = [])
      "report is empty — submit the readable review text".toList
    ++ defectIf (ingest.origin = .submitted ∧ submission.scope.headSha = none)
      ("scope.head_sha is missing — pass `git rev-parse HEAD` so a fixer can tell "
        ++ "whether these findings still describe the tree").toList
  let s := Ingested.run debug ⟨defects, [], []⟩ 1 submission.findings
  { schema := REVIEW_SCHEMA_VERSION
    id := ingest.id
    workspace := ingest.workspace
    repo := ingest.repo
    runId := ingest.runId
    agent := ingest.agent
    scope := submission.scope
    status := if s.defects = [] then .completed else .draft
    origin := ingest.origin
    findings := s.findings
    checks := trimmedLines submission.checks
    openQuestions := trimmedLines submission.openQuestions
    report := trim submission.report
    defects := s.defects
    createdAtMs := ingest.createdAtMs }

/-! ### Results -/

inductive Disposition where
  | fixed
  | alreadyResolved
  | blocked
  | refuted
deriving DecidableEq, Repr

def Disposition.parse (text : Text) : Option Disposition :=
  let word := (toAsciiLowercase (trim text)).map fun c => if c = '-' ∨ c = ' ' then '_' else c
  if word = "fixed".toList then some .fixed
  else if word = "already_resolved".toList then some .alreadyResolved
  else if word = "blocked".toList then some .blocked
  else if word = "refuted".toList then some .refuted
  else none

def Disposition.label : Disposition → Text
  | fixed => "fixed".toList
  | alreadyResolved => "already_resolved".toList
  | blocked => "blocked".toList
  | refuted => "refuted".toList

structure FindingOutcome where
  findingId : Text
  disposition : Disposition
  evidence : Text
  commits : List Text
  checks : List Text
deriving DecidableEq, Repr

structure ReviewResult where
  schema : ℕ
  id : Text
  reportId : Text
  workspace : Text
  runId : Text
  agent : Option Text
  status : ArtifactStatus
  outcomes : List FindingOutcome
  uncovered : List Text
  checks : List Text
  notes : Text
  defects : List Text
  createdAtMs : ℤ
deriving DecidableEq, Repr

structure OutcomeInput where
  findingId : Text
  disposition : Text
  evidence : Text
  commits : List Text
  checks : List Text
deriving DecidableEq, Repr

structure ReviewResultSubmission where
  reportId : Text
  outcomes : List OutcomeInput
  checks : List Text
  notes : Text
deriving DecidableEq, Repr

structure ResultIngest where
  id : Text
  runId : Text
  agent : Option Text
  createdAtMs : ℤ
deriving DecidableEq, Repr

/-- What was made of the outcomes so far. -/
structure Answered where
  defects : List Text
  outcomes : List FindingOutcome
  covered : List Text

def Answered.next (report : ReviewArtifact) (s : Answered) (input : OutcomeInput)
    (position : ℕ) : Answered :=
  let findingId := trim input.findingId
  let outcome := "outcome ".toList ++ findingId
  if findingId = [] then
    { s with defects := s.defects
      ++ ["outcome ".toList ++ (toString position).toList ++ ": finding_id is empty".toList] }
  else if ¬ report.findings.any (·.id = findingId) then
    { s with defects := s.defects
      ++ [outcome ++ ": report ".toList ++ report.id ++ " has no such finding".toList] }
  else if findingId ∈ s.covered then
    { s with defects := s.defects ++ [outcome ++ ": reported twice".toList] }
  else
    match Disposition.parse input.disposition with
    | none =>
        { s with defects := s.defects
          ++ [outcome ++ ": disposition ".toList ++ debug input.disposition
            ++ " is not one of fixed / already_resolved / blocked / refuted".toList] }
    | some disposition =>
        let evidence := trim input.evidence
        { defects := s.defects
            ++ defectIf (evidence = []) (outcome ++ ": evidence is empty — a ".toList
              ++ disposition.label
              ++ " needs the change or the falsifiable reason behind it".toList)
          covered := s.covered ++ [findingId]
          outcomes := s.outcomes ++ [{
            findingId := findingId
            disposition := disposition
            evidence := evidence
            commits := trimmedLines input.commits
            checks := trimmedLines input.checks }] }

def Answered.run (report : ReviewArtifact) (s : Answered) : ℕ → List OutcomeInput → Answered
  | _, [] => s
  | position, input :: inputs =>
      run report (s.next debug report input position) (position + 1) inputs

def ReviewResultSubmission.intoArtifact (submission : ReviewResultSubmission)
    (report : ReviewArtifact) (ingest : ResultIngest) : ReviewResult :=
  let defects := defectIf (¬ report.isBindable)
    ("report ".toList ++ report.id ++ " is not bindable (".toList ++ report.status.debug
      ++ ("); a result against it means the fixer did not "
        ++ "work from a selected report").toList)
  let s := Answered.run debug report ⟨defects, [], []⟩ 1 submission.outcomes
  let uncovered := (report.findings.filter fun f => f.id ∉ s.covered).map Finding.id
  let defects := s.defects
    ++ defectIf (uncovered ≠ []) ("no outcome for ".toList ++ ", ".toList.intercalate uncovered
      ++ " — every finding needs one, including the ones you refute".toList)
  { schema := REVIEW_SCHEMA_VERSION
    id := ingest.id
    reportId := report.id
    workspace := report.workspace
    runId := ingest.runId
    agent := ingest.agent
    status := if defects = [] then .completed else .draft
    outcomes := s.outcomes
    uncovered := uncovered
    checks := trimmedLines submission.checks
    notes := trim submission.notes
    defects := defects
    createdAtMs := ingest.createdAtMs }

end Defects

end Lazybox.Review
