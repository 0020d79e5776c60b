import Lazybox.Core.ProviderBoard

/-!
# Writes that were never sent

An operation in phase `accepted` or `retryScheduled` never reached the provider, so nothing the
provider says can be about it.  It may leave the ledger because the user's intent over one of
its fields was replaced or withdrawn, because it failed and the failure is reported, or because
it waited too long.

The ledger drops such an operation in two more cases.  An observation settles it once the
revision reaches the instant it was requested at, though that revision cannot contain a write
that was never sent.  And a failure of an operation which is no longer current is dropped in
silence; for an operation that never reached the provider that happens when a request for
another task moved the generation of one of its fields.
-/

namespace Lazybox

namespace Board

open ProviderOps

/-- The ways an operation that was never sent may leave the ledger. -/
inductive MayLeave (b : Board) (op : PendingMutation) : Act → Prop
  /-- A newer request claims one of its fields. -/
  | replaced (task : TaskId) (desired : DesiredFields) (now : Instant)
      (meets : ¬ Disjoint op.desired.claimed desired.claimed) :
      MayLeave b op (.event task (.requested op.task desired now))
  /-- A cancellation claims one of its fields. -/
  | withdrawn (task : TaskId) (fields : Finset MutationField) (now : Instant)
      (meets : ¬ Disjoint op.desired.claimed fields) :
      MayLeave b op (.event task (.cancelled op.task fields now))
  /-- It failed, and the failure is reported. -/
  | reported (task : TaskId) (failure : FailureClass) (detail : String) (now : Instant)
      (report : .report op.id detail
        ∈ (b.step (.event task (.failed op.id failure detail now))).2) :
      MayLeave b op (.event task (.failed op.id failure detail now))
  /-- It waited past the deadline. -/
  | expired (task : Task) (now : Instant) (late : SETTLE_DEADLINE ≤ now - op.issuedAt) :
      MayLeave b op (.observed task now)

/-- An operation that was never sent leaves in a step only in one of these ways. -/
def KeepsUnsent (b : Board) (a : Act) : Prop :=
  ∀ op ∈ b.ops.pending, op.phase.reachedProvider = false →
    (∀ op' ∈ (machine.next b a).ops.pending, op'.id ≠ op.id) → MayLeave b op a

/-- An observation finds each operation of its task that was never sent issued after the
revision, or past the deadline; a failure that is not uncertain finds the operation it names,
when that was never sent, owning all its fields. -/
def Timely (b : Board) : Act → Prop
  | .observed task now =>
      ∀ op ∈ b.ops.pending, op.task = task.id → op.phase.reachedProvider = false →
        task.updatedAt < op.issuedAt ∨ SETTLE_DEADLINE ≤ now - op.issuedAt
  | .event _ (.failed id failure _ _) =>
      failure ≠ .uncertain → ∀ op ∈ b.ops.pending, op.id = id →
        op.phase.reachedProvider = false → b.ops.isCurrent op = true
  | .event _ (.requested _ _ _) | .event _ (.sent _) | .event _ (.acked _ _)
  | .event _ (.cancelled _ _ _) | .recovered _ => True

instance (b : Board) : ∀ a : Act, Decidable (b.Timely a)
  | .observed task now => inferInstanceAs (Decidable
      (∀ op ∈ b.ops.pending, op.task = task.id → op.phase.reachedProvider = false →
        task.updatedAt < op.issuedAt ∨ SETTLE_DEADLINE ≤ now - op.issuedAt))
  | .event _ (.failed id failure _ _) => inferInstanceAs (Decidable
      (failure ≠ .uncertain → ∀ op ∈ b.ops.pending, op.id = id →
        op.phase.reachedProvider = false → b.ops.isCurrent op = true))
  | .event _ (.requested _ _ _) | .event _ (.sent _) | .event _ (.acked _ _)
  | .event _ (.cancelled _ _ _) | .recovered _ => isTrue trivial

variable {op : PendingMutation}

theorem settledBy_unsent (unsent : op.phase.reachedProvider = false) (revision now : Instant) :
  op.settledBy revision now = true
    ↔ op.issuedAt ≤ revision ∨ SETTLE_DEADLINE ≤ now - op.issuedAt
  := by
  cases hphase : op.phase with
  | accepted => simp [PendingMutation.settledBy, hphase, OpPhase.isUncertain, OpPhase.settlesFrom]
  | retryScheduled notBefore =>
    simp [PendingMutation.settledBy, hphase, OpPhase.isUncertain, OpPhase.settlesFrom]
  | sent => simp [hphase, OpPhase.reachedProvider] at unsent
  | acked at_ => simp [hphase, OpPhase.reachedProvider] at unsent
  | uncertain since => simp [hphase, OpPhase.reachedProvider] at unsent

/-- A failure reports the operation it names when that is current and is not tried again. -/
theorem fate_failed_none {ops : ProviderOps} {id : OperationId} {failure : FailureClass}
    {detail : String} {now : Instant} (h : ops.fate (.failed id failure detail now) op = none) :
  op.id = id ∧ failure ≠ .uncertain
    ∧ (ops.isCurrent op = true →
        .report id detail ∈ ops.traces (.failed id failure detail now) op)
  := by
  simp only [ProviderOps.fate] at h
  split_ifs at h with hid huncertain hcurrent htransient
  · refine ⟨not_not.mp hid, huncertain, ?_⟩
    intro hc
    simp [hc] at hcurrent
  · refine ⟨not_not.mp hid, huncertain, ?_⟩
    intro hc
    simp [traces, not_not.mp hid, huncertain, hc, htransient]

variable {b : Board}

/-- The work of a failure of an operation which is not current does not report it. -/
theorem not_report_of_not_current
    (wf : b.ops.Wf) {task : TaskId} {failure : FailureClass} {detail : String} {now : Instant}
    (hop : op ∈ b.ops.pending) (hcurrent : b.ops.isCurrent op ≠ true) :
  .report op.id detail ∉ (b.step (.event task (.failed op.id failure detail now))).2
  := by
  rw [step_effects wf]
  intro h
  rcases List.mem_append.mp h with hpending | hadmitted
  · obtain ⟨op', hop', htrace⟩ := List.mem_flatMap.mp hpending
    simp only [traces] at htrace
    split_ifs at htrace with hid huncertain hcurrent'
    · simp at htrace
    · simp at htrace
    · simp at htrace
    · rw [List.inj_on_of_nodup_map wf.distinct hop' hop hid] at hcurrent'
      simp [hcurrent] at hcurrent'
    · simp at htrace
  · simp [ProviderOps.admitted] at hadmitted

/-- A step that keeps the operations that were never sent is timely: an operation it drops
otherwise would leave without being reported, or before the deadline. -/
theorem timely_of_keeps (wf : b.ops.Wf) {a : Act} (keeps : b.KeepsUnsent a) :
  b.Timely a
  := by
  cases a with
  | event task event =>
    cases event with
    | failed id failure detail now =>
      rintro huncertain op hop rfl unsent
      by_contra hcurrent
      have hgone : b.fate (.event task (.failed op.id failure detail now)) op = none := by
        simp [Board.fate, ProviderOps.fate, huncertain, hcurrent]
      have hleave := keeps op hop unsent ((gone_iff wf _ hop).mpr hgone)
      cases hleave with
      | reported _ _ _ _ report => apply not_report_of_not_current wf hop hcurrent report
    | requested | sent | acked | cancelled => trivial
  | observed task now =>
    intro op hop htask unsent
    by_contra! hnot
    have hgone : b.fate (.observed task now) op = none := by
      simp [Board.fate, htask, (settledBy_unsent unsent task.updatedAt now).mpr (.inl hnot.1)]
    have hleave := keeps op hop unsent ((gone_iff wf _ hop).mpr hgone)
    cases hleave with
    | expired _ _ late => apply absurd late (not_le.mpr hnot.2)
  | recovered now => trivial

theorem keeps_of_timely (wf : b.ops.Wf) {a : Act} (timely : b.Timely a) :
  b.KeepsUnsent a
  := by
  intro op hop unsent hgone
  rw [gone_iff wf _ hop] at hgone
  cases a with
  | event task event =>
    cases event with
    | requested task' desired now =>
      simp only [Board.fate, ProviderOps.fate] at hgone
      split_ifs at hgone with hsuperseded
      obtain ⟨rfl, -, hmeets⟩ := supersedes_iff.mp hsuperseded
      apply MayLeave.replaced _ _ _ hmeets
    | sent id => cases hgone
    | acked id now => cases hgone
    | failed id failure detail now =>
      obtain ⟨rfl, huncertain, hreport⟩ := fate_failed_none hgone
      apply MayLeave.reported
      rw [step_effects wf]
      apply List.mem_append_left
      apply List.mem_flatMap.mpr ⟨op, hop, hreport _⟩
      apply timely huncertain op hop rfl unsent
    | cancelled task' fields now =>
      simp only [Board.fate, ProviderOps.fate] at hgone
      split_ifs at hgone with hwithdrawn
      obtain ⟨rfl, hmeets⟩ := affected_iff.mp (Bool.and_eq_true_iff.mp hwithdrawn).1
      apply MayLeave.withdrawn _ _ _ hmeets
  | observed task now =>
    simp only [Board.fate] at hgone
    split_ifs at hgone with htask hsettled
    apply MayLeave.expired
    rcases timely op hop htask unsent with hnewer | hlate
    · rcases (settledBy_unsent unsent _ _).mp hsettled with hold | hlate
      · exact absurd hold (not_le.mpr hnewer)
      · apply hlate
    · apply hlate
  | recovered now => cases hgone

/-- A step keeps the operations that were never sent exactly when it is timely. -/
theorem keepsUnsent_iff (wf : b.ops.Wf) (a : Act) :
  b.KeepsUnsent a ↔ b.Timely a
  := by
  constructor
  · apply timely_of_keeps wf
  · apply keeps_of_timely wf

/-- Along a run operations that were never sent leave the ledger only by a newer request or a
cancellation, by a reported failure or past the deadline, exactly when every step is timely. -/
theorem keeps_unsent_iff_timely
    (entities : { e : TaskId → Task // ∀ t, (e t).id = t }) (acts : List Act) :
  machine.Along KeepsUnsent (new entities) acts ↔ machine.Along Timely (new entities) acts
  := by
  constructor
  · apply machine.along_of_invariant (I := fun b => b.ops.Wf) (wf_new entities)
    · intro b a _ wf
      apply step_wf wf
    · intro b a keeps wf
      apply (keepsUnsent_iff wf a).mp keeps
  · apply machine.along_of_invariant (I := fun b => b.ops.Wf) (wf_new entities)
    · intro b a _ wf
      apply step_wf wf
    · intro b a timely wf
      apply (keepsUnsent_iff wf a).mpr timely

/-- A request made at 0 is dropped by a poll whose revision is 5, before it was ever sent. -/
theorem accepted_request_dropped_by_poll :
  ¬ machine.Along KeepsUnsent (new blankTasks)
    [.event ⟨"linear", "ENG-1"⟩ (.requested ⟨"linear", "ENG-1"⟩ { assignees := some ["ana"] } 0),
      .observed { blankTask ⟨"linear", "ENG-1"⟩ with updatedAt := 5 } 6]
  := by
  rintro ⟨-, keeps, -⟩
  rw [keepsUnsent_iff (step_wf (wf_new _) _)] at keeps
  revert keeps
  decide

end Board

end Lazybox
