import Lazybox.Reviews.Ingest
import Mathlib.Data.List.Nodup

/-!
# What ingestion keeps

Nothing of a well-formed review is lost exactly when no finding asks for the id of another.  A
result is complete exactly when it answers every finding of its report once.
-/

namespace Lazybox.Review

open WorkingClaim (Text)

/-! ### Reports -/

/-- The id a finding asks for. -/
def FindingInput.explicitId (input : FindingInput) : Option Text :=
  (input.id.map trim).filter fun id => id ≠ []

/-- A finding has a title, a severity, an anchor and evidence. -/
structure FindingInput.WellFormed (input : FindingInput) : Prop where
  title : trim input.title ≠ []
  severity : Severity.parse input.severity ≠ none
  anchors : input.parsedAnchors ≠ []
  evidence : trim input.evidence ≠ []

/-- A review has a report, the commit it was made at and well-formed findings. -/
structure ReviewSubmission.WellFormed (submission : ReviewSubmission) : Prop where
  report : trim submission.report ≠ []
  headSha : submission.scope.headSha ≠ none
  findings : ∀ input ∈ submission.findings, input.WellFormed

/-- The finding says what was submitted, under the id it asked for. -/
structure Records (input : FindingInput) (finding : Finding) : Prop where
  id : ∀ id, input.explicitId = some id → finding.id = id
  title : finding.title = trim input.title
  severity : Severity.parse input.severity = some finding.severity
  anchors : finding.anchors = input.parsedAnchors
  evidence : finding.evidence = trim input.evidence
  remediation : finding.remediation = trim input.remediation
  checks : finding.checks = trimmedLines input.checks

/-- The report is complete, with one finding for each that was submitted, in order, and no two of
one id. -/
structure KeepsFindings (submission : ReviewSubmission) (artifact : ReviewArtifact) : Prop where
  completed : artifact.status = .completed
  findings : List.Forall₂ Records submission.findings artifact.findings
  distinct : (artifact.findings.map Finding.id).Nodup

/-- No finding asks for the id of another, be it that the other asks for it or that it is given it
by its position. -/
def NoClash (inputs : List FindingInput) : Prop :=
  ∀ (i j : ℕ) (input other : FindingInput), inputs[i]? = some input → inputs[j]? = some other →
    i ≠ j → input.explicitId ≠ some (other.idAt (j + 1))

/-- The ids that findings are given from a position on. -/
def idsFrom (position : ℕ) (inputs : List FindingInput) : List Text :=
  (inputs.zipIdx position).map fun input => input.1.idAt input.2

theorem idAt_of_explicitId {input : FindingInput} {id : Text} (h : input.explicitId = some id)
    (position : ℕ) :
  input.idAt position = id
  := by
  rw [FindingInput.explicitId, Option.filter_eq_some_iff] at h
  obtain ⟨hid, hne⟩ := h
  rw [FindingInput.idAt, hid]
  exact if_neg (of_decide_eq_true hne)

theorem idAt_of_none {input : FindingInput} (h : input.explicitId = none) (position : ℕ) :
  input.idAt position = "f".toList ++ (toString position).toList
  := by
  rw [FindingInput.explicitId, Option.filter_eq_none_iff] at h
  rw [FindingInput.idAt]
  cases hid : input.id.map trim with
  | none => rfl
  | some id =>
    have hblank := h id hid
    rw [decide_eq_true_eq, not_not] at hblank
    exact if_pos hblank

theorem toString_injective {m n : ℕ} (h : (toString m).toList = (toString n).toList) :
  m = n
  := by
  have hvalue := congrArg digitsValue h
  rwa [digitsValue_toString, digitsValue_toString] at hvalue

theorem getElem?_idsFrom (inputs : List FindingInput) (i : ℕ) :
  (idsFrom 1 inputs)[i]? = inputs[i]?.map fun input => input.idAt (i + 1)
  := by
  simp [idsFrom, List.getElem?_zipIdx, Nat.add_comm, Option.map_map, Function.comp_def]

/-- The ids given by position differ, so that only one that is asked for can be that of another. -/
theorem nodup_idsFrom_iff (inputs : List FindingInput) :
  (idsFrom 1 inputs).Nodup ↔ NoClash inputs
  := by
  have hclash {i j : ℕ} {input other : FindingInput} (hi : inputs[i]? = some input)
      (hj : inputs[j]? = some other) :
      (idsFrom 1 inputs)[i]? = (idsFrom 1 inputs)[j]?
        ↔ input.idAt (i + 1) = other.idAt (j + 1) := by
    rw [getElem?_idsFrom, getElem?_idsFrom, hi, hj, Option.map_some, Option.map_some,
      Option.some.injEq]
  rw [List.nodup_iff_getElem?_ne_getElem?]
  have hlength : (idsFrom 1 inputs).length = inputs.length := by simp [idsFrom]
  constructor
  · intro hnodup i j input other hi hj hne hid
    have heq := (hclash hi hj).mpr (idAt_of_explicitId hid (i + 1))
    have hil := (List.getElem?_eq_some_iff.mp hi).1
    have hjl := (List.getElem?_eq_some_iff.mp hj).1
    obtain hlt | hlt := Nat.lt_or_gt_of_ne hne
    · apply hnodup i j hlt (by rwa [hlength]) heq
    · apply hnodup j i hlt (by rwa [hlength]) heq.symm
  · intro noClash i j hlt hj heq
    rw [hlength] at hj
    have hi := List.getElem?_eq_getElem (hlt.trans hj)
    have hj := List.getElem?_eq_getElem hj
    rw [hclash hi hj] at heq
    cases hid : inputs[i].explicitId with
    | some id =>
      apply noClash i j _ _ hi hj hlt.ne
      rw [hid, ← heq, idAt_of_explicitId hid]
    | none =>
      cases hother : inputs[j].explicitId with
      | some id =>
        apply noClash j i _ _ hj hi hlt.ne'
        rw [hother, heq, idAt_of_explicitId hother]
      | none =>
        rw [idAt_of_none hid, idAt_of_none hother] at heq
        have hposition := toString_injective (List.append_cancel_left heq)
        omega

section Loops

variable {debug : Text → Text}

theorem defectIf_of_not {wrong : Prop} [Decidable wrong] (h : ¬wrong) (defect : Text) :
  defectIf wrong defect = []
  := if_neg h

theorem defectIf_eq_nil {wrong : Prop} [Decidable wrong] {defect : Text} :
  defectIf wrong defect = [] ↔ ¬wrong
  := by
  rw [defectIf]
  split_ifs with h <;> simp [h]

variable {s : Ingested}

/-- A well-formed finding is recorded, unless another had its id. -/
theorem next_of_fresh {input : FindingInput} (wellFormed : input.WellFormed) {position : ℕ}
    (fresh : input.idAt position ∉ s.seen) :
  ∃ finding, s.next debug input position
      = ⟨s.defects, s.findings ++ [finding], s.seen ++ [input.idAt position]⟩
    ∧ Records input finding ∧ finding.id = input.idAt position
  := by
  obtain ⟨severity, hseverity⟩ := Option.ne_none_iff_exists'.mp wellFormed.severity
  rw [Ingested.next, if_neg fresh]
  simp only [hseverity, defectIf_of_not wellFormed.title, defectIf_of_not wellFormed.anchors,
    defectIf_of_not wellFormed.evidence, List.append_nil]
  refine ⟨_, rfl, ?_, rfl⟩
  constructor
  · intro id hid
    apply idAt_of_explicitId hid
  · rfl
  · exact hseverity
  all_goals rfl

theorem next_of_seen {input : FindingInput} {position : ℕ} (seen : input.idAt position ∈ s.seen) :
  (s.next debug input position).defects ≠ []
  := by
  rw [Ingested.next, if_pos seen]
  simp

/-- What is wrong stays wrong. -/
theorem defects_prefix_run (s : Ingested) (position : ℕ) (inputs : List FindingInput) :
  s.defects <+: (s.run debug position inputs).defects
  := by
  induction inputs generalizing s position with
  | nil => apply List.prefix_rfl
  | cons input inputs ih =>
    apply List.IsPrefix.trans _ (ih _ _)
    rw [Ingested.next]
    split_ifs
    · apply List.prefix_append
    · split <;> simp only [List.append_assoc] <;> apply List.prefix_append

theorem idsFrom_cons (position : ℕ) (input : FindingInput) (inputs : List FindingInput) :
  idsFrom position (input :: inputs) = input.idAt position :: idsFrom (position + 1) inputs
  := rfl

/-- Well-formed findings with ids of their own are all recorded. -/
theorem run_of_nodup
    {position : ℕ} {inputs : List FindingInput} (wellFormed : ∀ input ∈ inputs, input.WellFormed)
    (nodup : (s.seen ++ idsFrom position inputs).Nodup) :
  ∃ findings, (s.run debug position inputs).defects = s.defects
    ∧ (s.run debug position inputs).findings = s.findings ++ findings
    ∧ List.Forall₂ Records inputs findings
    ∧ findings.map Finding.id = idsFrom position inputs
  := by
  induction inputs generalizing s position with
  | nil =>
    use []
    exact ⟨rfl, (List.append_nil _).symm, .nil, rfl⟩
  | cons input inputs ih =>
    rw [List.forall_mem_cons] at wellFormed
    rw [idsFrom_cons] at nodup
    have fresh : input.idAt position ∉ s.seen := by
      intro hseen
      apply (List.nodup_append.mp nodup).2.2 _ hseen _ List.mem_cons_self rfl
    obtain ⟨finding, hnext, hrecords, hid⟩ := @next_of_fresh debug _ _ wellFormed.1 _ fresh
    have hrest : ((s.seen ++ [input.idAt position]) ++ idsFrom (position + 1) inputs).Nodup := by
      rwa [List.append_assoc, List.singleton_append]
    rw [Ingested.run, hnext]
    obtain ⟨findings, hdefects, hfindings, hall, hids⟩ :=
      @ih ⟨s.defects, s.findings ++ [finding], _⟩ _ wellFormed.2 hrest
    use finding :: findings, hdefects
    constructor
    · rw [hfindings, List.append_assoc, List.singleton_append]
    · constructor
      · exact .cons hrecords hall
      · rw [List.map_cons, hid, hids, idsFrom_cons]

/-- Where nothing is wrong no finding had the id of an earlier one. -/
theorem nodup_of_run
    {position : ℕ} {inputs : List FindingInput} (wellFormed : ∀ input ∈ inputs, input.WellFormed)
    (seen : s.seen.Nodup) (h : (s.run debug position inputs).defects = []) :
  (s.seen ++ idsFrom position inputs).Nodup
  := by
  induction inputs generalizing s position with
  | nil => simpa [idsFrom] using seen
  | cons input inputs ih =>
    rw [List.forall_mem_cons] at wellFormed
    rw [Ingested.run] at h
    by_cases fresh : input.idAt position ∈ s.seen
    · have hwrong := @defects_prefix_run debug (s.next debug input position)
        (position + 1) inputs
      rw [h, List.prefix_nil] at hwrong
      exact absurd hwrong (next_of_seen fresh)
    · obtain ⟨finding, hnext, -⟩ := @next_of_fresh debug _ _ wellFormed.1 _ fresh
      rw [hnext] at h
      have hseen : (s.seen ++ [input.idAt position]).Nodup := by
        rw [← List.concat_eq_append]
        apply seen.concat fresh
      have hnodup := ih wellFormed.2 hseen h
      rwa [List.append_assoc, List.singleton_append] at hnodup

/-- The loop over a well-formed submission starts with nothing wrong. -/
theorem intoArtifact_eq {submission : ReviewSubmission} (wellFormed : submission.WellFormed)
    (ingest : ReviewIngest) :
  ((submission.intoArtifact debug ingest).status = .completed
      ↔ (Ingested.run debug ⟨[], [], []⟩ 1 submission.findings).defects = [])
    ∧ (submission.intoArtifact debug ingest).findings
      = (Ingested.run debug ⟨[], [], []⟩ 1 submission.findings).findings
  := by
  have hhead : ¬(ingest.origin = .submitted ∧ submission.scope.headSha = none) := fun h =>
    wellFormed.headSha h.2
  rw [ReviewSubmission.intoArtifact, defectIf_of_not wellFormed.report, defectIf_of_not hhead]
  simp

/-- Nothing of a well-formed review is lost exactly when no finding asks for the id of another. -/
theorem intoArtifact_keeps_iff
    {submission : ReviewSubmission} (wellFormed : submission.WellFormed) (ingest : ReviewIngest) :
  KeepsFindings submission (submission.intoArtifact debug ingest)
    ↔ NoClash submission.findings
  := by
  obtain ⟨hstatus, hfindings⟩ := @intoArtifact_eq debug _ wellFormed ingest
  rw [← nodup_idsFrom_iff]
  constructor
  · intro keeps
    have hnodup := nodup_of_run wellFormed.findings List.nodup_nil (hstatus.mp keeps.completed)
    rwa [List.nil_append] at hnodup
  · intro hnodup
    obtain ⟨findings, hdefects, hmade, hall, hids⟩ :=
      @run_of_nodup debug ⟨[], [], []⟩ 1 _ wellFormed.findings (by rwa [List.nil_append])
    rw [List.nil_append] at hmade
    constructor
    · rw [hstatus, hdefects]
    · rw [hfindings, hmade]
      exact hall
    · rw [hfindings, hmade, hids]
      exact hnodup

end Loops

/-! ### Results -/

/-- The outcome is that of the finding of an id. -/
def OutcomeInput.Names (input : OutcomeInput) (id : Text) : Prop :=
  trim input.findingId ≠ [] ∧ trim input.findingId = id

instance (input : OutcomeInput) (id : Text) : Decidable (input.Names id) :=
  inferInstanceAs (Decidable (_ ∧ _))

/-- The outcomes name each finding of the report once and nothing else, each with a disposition and
evidence. -/
structure Answers (report : ReviewArtifact) (outcomes : List OutcomeInput) : Prop where
  once : ∀ finding ∈ report.findings, outcomes.countP (·.Names finding.id) = 1
  named : ∀ outcome ∈ outcomes, ∃ finding ∈ report.findings, outcome.Names finding.id
  disposition : ∀ outcome ∈ outcomes, Disposition.parse outcome.disposition ≠ none
  evidence : ∀ outcome ∈ outcomes, trim outcome.evidence ≠ []

/-- Taken alone nothing is wrong with the outcome. -/
structure Admits (report : ReviewArtifact) (outcome : OutcomeInput) : Prop where
  named : ∃ finding ∈ report.findings, outcome.Names finding.id
  disposition : Disposition.parse outcome.disposition ≠ none
  evidence : trim outcome.evidence ≠ []

section Results

variable {debug : Text → Text} {report : ReviewArtifact}

variable {s : Answered}

theorem answered_of_admits {input : OutcomeInput} (admits : Admits report input)
    (fresh : trim input.findingId ∉ s.covered) (position : ℕ) :
  (s.next debug report input position).defects = s.defects
    ∧ (s.next debug report input position).covered = s.covered ++ [trim input.findingId]
  := by
  obtain ⟨finding, hfinding, hne, hid⟩ := admits.named
  obtain ⟨disposition, hdisposition⟩ := Option.ne_none_iff_exists'.mp admits.disposition
  have hany : report.findings.any (·.id = trim input.findingId) = true := by
    rw [List.any_eq_true]
    use finding, hfinding
    rw [decide_eq_true_eq, hid]
  rw [Answered.next]
  simp [hne, hany, fresh, hdisposition, defectIf_of_not admits.evidence]

theorem admits_of_answered
    {input : OutcomeInput} {position : ℕ} (h : (s.next debug report input position).defects = []) :
  Admits report input ∧ trim input.findingId ∉ s.covered
  := by
  rw [Answered.next] at h
  split_ifs at h with hblank hany hseen
  · simp at h
  · simp at h
  · rw [List.any_eq_true] at hany
    obtain ⟨finding, hfinding, hid⟩ := hany
    cases hdisposition : Disposition.parse input.disposition with
    | none => simp [hdisposition] at h
    | some disposition =>
      simp only [hdisposition, List.append_eq_nil_iff, defectIf_eq_nil] at h
      constructor
      · constructor
        · use finding, hfinding, hblank
          exact (of_decide_eq_true hid).symm
        · simp [hdisposition]
        · exact h.2
      · exact hseen
  · simp at h

theorem defects_prefix_answered (s : Answered) (position : ℕ) (inputs : List OutcomeInput) :
  s.defects <+: (s.run debug report position inputs).defects
  := by
  induction inputs generalizing s position with
  | nil => apply List.prefix_rfl
  | cons input inputs ih =>
    apply List.IsPrefix.trans _ (ih _ _)
    rw [Answered.next]
    split_ifs
    · apply List.prefix_append
    · apply List.prefix_append
    · split <;> apply List.prefix_append
    · apply List.prefix_append

/-- Nothing is wrong with the outcomes when each of them is admitted and no two name a finding. -/
theorem answered_run_iff (covered : s.covered.Nodup) (position : ℕ) (inputs : List OutcomeInput) :
  (s.run debug report position inputs).defects = []
    ↔ s.defects = [] ∧ (∀ input ∈ inputs, Admits report input)
      ∧ (s.covered ++ inputs.map fun input => trim input.findingId).Nodup
  := by
  induction inputs generalizing s position with
  | nil => simp [Answered.run, covered]
  | cons input inputs ih =>
    rw [Answered.run]
    constructor
    · intro h
      have hnext : (s.next debug report input position).defects = [] := by
        rw [← List.prefix_nil, ← h]
        apply defects_prefix_answered
      obtain ⟨admits, fresh⟩ := admits_of_answered hnext
      obtain ⟨hdefects, hcovered⟩ := @answered_of_admits debug _ _ _ admits fresh position
      have hnodup : (s.next debug report input position).covered.Nodup := by
        rw [hcovered, ← List.concat_eq_append]
        apply covered.concat fresh
      obtain ⟨-, hall, hrest⟩ := (ih hnodup _).mp h
      rw [hcovered, List.append_assoc] at hrest
      rw [List.forall_mem_cons, ← hdefects]
      exact ⟨hnext, ⟨admits, hall⟩, hrest⟩
    · rintro ⟨hs, hall, hnodup⟩
      rw [List.forall_mem_cons] at hall
      rw [List.map_cons, ← List.singleton_append, ← List.append_assoc] at hnodup
      have hcons := (List.nodup_append.mp hnodup).1
      have fresh : trim input.findingId ∉ s.covered := by
        intro hseen
        apply (List.nodup_append.mp hcons).2.2 _ hseen _ (List.mem_singleton_self _) rfl
      obtain ⟨hdefects, hcovered⟩ := @answered_of_admits debug _ _ _ hall.1 fresh position
      rw [ih (by rwa [hcovered]), hdefects, hcovered]
      exact ⟨hs, hall.2, hnodup⟩

/-- What is covered are the findings with an outcome. -/
theorem covered_next (h : s.covered = s.outcomes.map FindingOutcome.findingId)
    (input : OutcomeInput) (position : ℕ) :
  (s.next debug report input position).covered
    = (s.next debug report input position).outcomes.map FindingOutcome.findingId
  := by
  rw [Answered.next]
  split_ifs
  · exact h
  · exact h
  · split
    · exact h
    · simp [h]
  · exact h

theorem covered_run (h : s.covered = s.outcomes.map FindingOutcome.findingId) (position : ℕ)
    (inputs : List OutcomeInput) :
  (s.run debug report position inputs).covered
    = (s.run debug report position inputs).outcomes.map FindingOutcome.findingId
  := by
  induction inputs generalizing s position with
  | nil => exact h
  | cons input inputs ih => apply ih (covered_next h input position)

theorem covered_run_of_nil {position : ℕ} {inputs : List OutcomeInput} (covered : s.covered.Nodup)
    (h : (s.run debug report position inputs).defects = []) :
  (s.run debug report position inputs).covered
    = s.covered ++ inputs.map fun input => trim input.findingId
  := by
  induction inputs generalizing s position with
  | nil => simp [Answered.run]
  | cons input inputs ih =>
    rw [Answered.run] at h ⊢
    have hnext : (s.next debug report input position).defects = [] := by
      rw [← List.prefix_nil, ← h]
      apply defects_prefix_answered
    obtain ⟨admits, fresh⟩ := admits_of_answered hnext
    obtain ⟨-, hcovered⟩ := @answered_of_admits debug _ _ _ admits fresh position
    rw [ih _ h, hcovered, List.append_assoc]
    · rfl
    · rw [hcovered, ← List.concat_eq_append]
      apply covered.concat fresh

/-- Each finding is named once when no two outcomes name one, and each is named. -/
theorem answers_iff (outcomes : List OutcomeInput) :
  Answers report outcomes
    ↔ (∀ outcome ∈ outcomes, Admits report outcome)
      ∧ (outcomes.map fun outcome => trim outcome.findingId).Nodup
      ∧ ∀ finding ∈ report.findings,
        finding.id ∈ outcomes.map fun outcome => trim outcome.findingId
  := by
  have hcount (id : Text) (named : ∀ outcome ∈ outcomes, trim outcome.findingId ≠ []) :
      outcomes.countP (·.Names id)
        = (outcomes.map fun outcome => trim outcome.findingId).count id := by
    rw [List.count, List.countP_map]
    apply List.countP_congr
    intro outcome houtcome
    simp [OutcomeInput.Names, named outcome houtcome]
  constructor
  · intro answers
    have named (outcome) (houtcome : outcome ∈ outcomes) : trim outcome.findingId ≠ [] := by
      obtain ⟨-, -, hne, -⟩ := answers.named outcome houtcome
      exact hne
    have hone (finding) (hfinding : finding ∈ report.findings) :
        (outcomes.map fun outcome => trim outcome.findingId).count finding.id = 1 := by
      rw [← hcount _ named, answers.once finding hfinding]
    constructor
    · intro outcome houtcome
      constructor
      · apply answers.named outcome houtcome
      · apply answers.disposition outcome houtcome
      · apply answers.evidence outcome houtcome
    · constructor
      · rw [List.nodup_iff_count_le_one]
        intro id
        by_cases hid : id ∈ outcomes.map fun outcome => trim outcome.findingId
        · obtain ⟨outcome, houtcome, rfl⟩ := List.mem_map.mp hid
          obtain ⟨finding, hfinding, -, hname⟩ := answers.named outcome houtcome
          rw [hname, hone finding hfinding]
        · rw [List.count_eq_zero.mpr hid]
          apply Nat.zero_le
      · intro finding hfinding
        rw [← List.count_pos_iff, hone finding hfinding]
        apply Nat.one_pos
  · rintro ⟨admits, nodup, every⟩
    constructor
    · intro finding hfinding
      rw [hcount]
      · apply List.count_eq_one_of_mem nodup (every finding hfinding)
      · intro outcome houtcome
        obtain ⟨-, -, hne, -⟩ := (admits outcome houtcome).named
        exact hne
    · intro outcome houtcome
      apply (admits outcome houtcome).named
    · intro outcome houtcome
      apply (admits outcome houtcome).disposition
    · intro outcome houtcome
      apply (admits outcome houtcome).evidence

/-- The loop over the outcomes starts with nothing wrong. -/
theorem result_eq (bindable : report.isBindable = true) (submission : ReviewResultSubmission)
    (ingest : ResultIngest) :
  ((submission.intoArtifact debug report ingest).status = .completed
      ↔ (Answered.run debug report ⟨[], [], []⟩ 1 submission.outcomes).defects = []
        ∧ (submission.intoArtifact debug report ingest).uncovered = [])
    ∧ (submission.intoArtifact debug report ingest).outcomes
      = (Answered.run debug report ⟨[], [], []⟩ 1 submission.outcomes).outcomes
    ∧ (submission.intoArtifact debug report ingest).uncovered
      = (report.findings.filter fun f =>
          f.id ∉ (Answered.run debug report ⟨[], [], []⟩ 1 submission.outcomes).covered).map
        Finding.id
  := by
  rw [ReviewResultSubmission.intoArtifact, defectIf_of_not (not_not.mpr bindable)]
  simp [defectIf_eq_nil]

/-- A result is complete when it answers its report. -/
theorem result_completed_iff (bindable : report.isBindable = true)
    (submission : ReviewResultSubmission) (ingest : ResultIngest) :
  (submission.intoArtifact debug report ingest).status = .completed
    ↔ Answers report submission.outcomes
  := by
  obtain ⟨hstatus, -, huncovered⟩ := @result_eq debug _ bindable submission ingest
  have hrun := @answered_run_iff debug report ⟨[], [], []⟩ List.nodup_nil 1 submission.outcomes
  rw [hstatus, huncovered, answers_iff, List.map_eq_nil_iff, List.filter_eq_nil_iff]
  simp only [decide_eq_true_eq, not_not]
  constructor
  · rintro ⟨hdefects, hcovered⟩
    rw [covered_run_of_nil List.nodup_nil hdefects] at hcovered
    obtain ⟨-, admits, nodup⟩ := hrun.mp hdefects
    exact ⟨admits, nodup, hcovered⟩
  · rintro ⟨admits, nodup, every⟩
    have hdefects := hrun.mpr ⟨rfl, admits, nodup⟩
    rw [covered_run_of_nil List.nodup_nil hdefects]
    exact ⟨hdefects, every⟩

/-- The findings a result does not cover are those it has no outcome for. -/
theorem uncovered_eq (bindable : report.isBindable = true)
    (submission : ReviewResultSubmission) (ingest : ResultIngest) :
  (submission.intoArtifact debug report ingest).uncovered
    = (report.findings.map Finding.id).filter fun id =>
      ∀ outcome ∈ (submission.intoArtifact debug report ingest).outcomes, outcome.findingId ≠ id
  := by
  obtain ⟨-, houtcomes, huncovered⟩ := @result_eq debug _ bindable submission ingest
  rw [huncovered, houtcomes, List.filter_map]
  congr 1
  apply List.filter_congr
  intro finding _
  rw [covered_run rfl, Function.comp_apply, decide_eq_decide, List.mem_map]
  simp

end Results

/-- Ingestion keeps every finding of a well-formed review exactly when none asks for the id of
another, and completes a result exactly when it answers its report. -/
theorem ingestion_keeps_iff (debug : Text → Text) :
  (∀ (submission : ReviewSubmission) (ingest : ReviewIngest), submission.WellFormed →
      (KeepsFindings submission (submission.intoArtifact debug ingest)
        ↔ NoClash submission.findings))
    ∧ ∀ (submission : ReviewResultSubmission) (report : ReviewArtifact) (ingest : ResultIngest),
      report.isBindable = true →
      ((submission.intoArtifact debug report ingest).status = .completed
          ↔ Answers report submission.outcomes)
        ∧ (submission.intoArtifact debug report ingest).uncovered
          = (report.findings.map Finding.id).filter fun id =>
            ∀ outcome ∈ (submission.intoArtifact debug report ingest).outcomes,
              outcome.findingId ≠ id
  := by
  constructor
  · intro submission ingest wellFormed
    apply intoArtifact_keeps_iff wellFormed
  · intro submission report ingest bindable
    constructor
    · apply result_completed_iff bindable
    · apply uncovered_eq bindable

theorem noClash_singleton (input : FindingInput) :
  NoClash [input]
  := by
  intro i j _ _ hi hj hne
  have hi := (List.getElem?_eq_some_iff.mp hi).1
  have hj := (List.getElem?_eq_some_iff.mp hj).1
  rw [List.length_singleton] at hi hj
  omega

/-- A finding that asks for an id, or for none. -/
def exampleInput (id : Option Text) : FindingInput where
  id := id
  title := "the lock is not released".toList
  severity := "major".toList
  anchors := ["src/lock.rs:12".toList]
  evidence := "an early return".toList
  remediation := []
  checks := []

def exampleSubmission (findings : List FindingInput) : ReviewSubmission where
  report := "one finding".toList
  findings := findings
  scope := ⟨[], none, some "c0ffee".toList, none⟩
  checks := []
  openQuestions := []

def exampleIngest : ReviewIngest := ⟨"r1".toList, "w".toList, none, [], none, .submitted, 0⟩

theorem exampleInput_wellFormed (id : Option Text) :
  (exampleInput id).WellFormed
  := by
  constructor
  · change trim "the lock is not released".toList ≠ []
    decide +kernel
  · change Severity.parse "major".toList ≠ none
    decide +kernel
  · change ["src/lock.rs:12".toList].filterMap FileAnchor.parse ≠ []
    decide +kernel
  · change trim "an early return".toList ≠ []
    decide +kernel

theorem exampleSubmission_wellFormed {findings : List FindingInput}
    (h : ∀ input ∈ findings, input.WellFormed) :
  (exampleSubmission findings).WellFormed
  := by
  constructor
  · change trim "one finding".toList ≠ []
    decide +kernel
  · exact Option.some_ne_none _
  · exact h

/-- A report of one finding. -/
def exampleReport : ReviewArtifact :=
  (exampleSubmission [exampleInput none]).intoArtifact id exampleIngest

def exampleAnswer : ReviewResultSubmission :=
  ⟨"r1".toList, [⟨"f1".toList, "fixed".toList, "released".toList, [], []⟩], [], []⟩

theorem exampleReport_ids :
  exampleReport.findings.map Finding.id = ["f1".toList]
  := by decide +kernel

theorem exampleAnswer_answers :
  Answers exampleReport exampleAnswer.outcomes
  := by
  have hid : "f1".toList ∈ exampleReport.findings.map Finding.id := by
    rw [exampleReport_ids]
    apply List.mem_singleton_self
  have hname : trim "f1".toList = "f1".toList := by decide +kernel
  obtain ⟨finding, hfinding, hfirst⟩ := List.mem_map.mp hid
  rw [answers_iff, exampleAnswer]
  simp only [List.forall_mem_singleton, List.map_singleton, hname]
  constructor
  · constructor
    · use finding, hfinding
      rw [OutcomeInput.Names, hname, hfirst]
      exact ⟨by decide +kernel, rfl⟩
    · change Disposition.parse "fixed".toList ≠ none
      decide +kernel
    · change trim "released".toList ≠ []
      decide +kernel
  · use List.nodup_singleton _
    intro finding' hfinding'
    have hone := List.mem_map_of_mem (f := Finding.id) hfinding'
    rwa [exampleReport_ids] at hone

theorem ingestion_keeps_oneFinding :
  KeepsFindings (exampleSubmission [exampleInput none]) exampleReport
    ∧ (exampleAnswer.intoArtifact id exampleReport ⟨"x1".toList, [], none, 0⟩).status = .completed
  := by
  have wellFormed : (exampleSubmission [exampleInput none]).WellFormed :=
    exampleSubmission_wellFormed (List.forall_mem_singleton.mpr (exampleInput_wellFormed none))
  have bindable : exampleReport.isBindable = true := by decide +kernel
  obtain ⟨hreviews, hresults⟩ := ingestion_keeps_iff id
  have hkeeps := hreviews _ exampleIngest wellFormed
  have hcompleted := (hresults exampleAnswer exampleReport ⟨"x1".toList, [], none, 0⟩ bindable).1
  rw [← exampleReport] at hkeeps
  rw [hkeeps, hcompleted]
  exact ⟨noClash_singleton _, exampleAnswer_answers⟩

/-- The first finding asks for the id that the second is given. -/
theorem clashing_finding_dropped :
  ¬∀ (debug : Text → Text) (submission : ReviewSubmission) (ingest : ReviewIngest),
    submission.WellFormed → (submission.findings.filterMap FindingInput.explicitId).Nodup →
      KeepsFindings submission (submission.intoArtifact debug ingest)
  := by
  intro h
  have wellFormed : (exampleSubmission [exampleInput (some "f2".toList),
      exampleInput none]).WellFormed := by
    apply exampleSubmission_wellFormed
    simp [exampleInput_wellFormed]
  have distinct : ((exampleSubmission [exampleInput (some "f2".toList),
      exampleInput none]).findings.filterMap FindingInput.explicitId).Nodup := by decide +kernel
  have noClash := (intoArtifact_keeps_iff wellFormed exampleIngest).mp
    (h id _ exampleIngest wellFormed distinct)
  have hclash : (exampleInput (some "f2".toList)).explicitId
      = some ((exampleInput none).idAt (1 + 1)) := by decide +kernel
  apply noClash 0 1 _ _ rfl rfl Nat.zero_ne_one hclash

end Lazybox.Review
