import Lazybox.Core.ProviderRow

/-!
# Stale polls and blind replays

Whatever order events, polls and restarts come in, a poll whose revision is older than the
acknowledgement of an operation does not undo it, a failure is reported only for an operation
that owns its fields, identities are never given out twice, and a restart re-issues only what
provably never left.

The instant of an acknowledgement is kept in the phase of the operation.  When the clock does
not run backwards that is the latest of its acknowledgements, so a poll older than any of them
is older than it.
-/

namespace Lazybox

namespace Board

open ProviderOps

/-- The instant an action happens at. -/
def Act.now? : Act → Option Instant
  | .event _ (.requested _ _ now) | .event _ (.acked _ now) | .event _ (.failed _ _ _ now)
  | .event _ (.cancelled _ _ now) | .observed _ now | .recovered now => some now
  | .event _ (.sent _) => none

/-- The clock does not run backwards along the actions. -/
def Clocked (acts : List Act) : Prop := (acts.filterMap Act.now?).Pairwise (· ≤ ·)

instance (acts : List Act) : Decidable (Clocked acts) :=
  inferInstanceAs (Decidable ((acts.filterMap Act.now?).Pairwise (· ≤ ·)))

/-! ### Acknowledgements -/

variable (entities : { e : TaskId → Task // ∀ t, (e t).id = t })

/-- The instant in the phase of an acknowledged operation is the latest of its
acknowledgements. -/
theorem acked_latest {acts : List Act} (clock : Clocked acts) :
  ∀ op ∈ (machine.final (new entities) acts).ops.pending, ∀ at_, op.phase = .acked at_ →
    ∀ t at₀, .event t (.acked op.id at₀) ∈ acts → at₀ ≤ at_
  := by
  -- from the last action: it is the only one that can have changed the phase
  induction acts using List.reverseRecOn with
  | nil => simp
  | append_singleton acts a ih =>
    rw [Clocked, List.filterMap_append, List.pairwise_append] at clock
    obtain ⟨clock, -, hlast⟩ := clock
    have wf := wf_final (wf_new entities) acts
    intro op' hop' at_ hphase t at₀ hacked
    rw [machine.final_append] at hop'
    rcases (mem_pending_step wf).mp hop' with ⟨op, hop, hfate⟩ | hnew
    · have hmoves := moves_fate hfate
      rw [hphase] at hmoves
      rw [(sameClaim_fate hfate).id, List.mem_append, List.mem_singleton] at hacked
      generalize hafter : OpPhase.acked at_ = phase at hmoves
      cases hmoves with
      | kept hkept =>
        rcases hacked with hbefore | rfl
        · apply ih clock op hop at_ hafter.symm t at₀ hbefore
        · exact absurd rfl (hkept t _ rfl)
      | acked t' now =>
        cases hafter
        rcases hacked with hbefore | hnow
        · apply hlast at₀ (List.mem_filterMap.mpr ⟨_, hbefore, rfl⟩) at_
          simp [Act.now?]
        · cases hnow
          rfl
      | sent t' => cases hafter
      | uncertain t' detail now => cases hafter
      | retried t' detail now notBefore => cases hafter
      | recovered now => cases hafter
    · cases a with
      | event task event =>
        obtain ⟨_, _, _, _, _, rfl⟩ := mem_admitted.mp hnew
        cases hphase
      | observed task now => simp [Board.admitted] at hnew
      | recovered now => simp [Board.admitted] at hnew

/-- A poll older than the acknowledgement in the phase of a current operation, before its
deadline, leaves the row showing what the operation asks for. -/
theorem stale_poll {b : Board} (wf : b.ops.Wf) {op : PendingMutation} (hop : op ∈ b.ops.pending)
    {at_ : Instant} (hphase : op.phase = .acked at_) (current : b.ops.isCurrent op = true)
    {task : Task} (htask : task.id = op.task) {now : Instant}
    (deadline : now - op.issuedAt < SETTLE_DEADLINE) (stale : task.updatedAt < at_)
    {f : MutationField} {v : FieldValue f} (hv : op.desired.get f = some v) :
  FieldValue.Same f (((machine.next b (.observed task now)).entities task.id).value f) v
  := by
  have hunsettled : op.settledBy task.updatedAt now = false := by
    simp [PendingMutation.settledBy, hphase, OpPhase.isUncertain, OpPhase.settlesFrom,
      stale, deadline]
  have hfate : b.fate (.observed task now) op
      = some { op with previous := op.desired.observedCounterpart task } := by
    simp [Board.fate, htask, hunsettled]
  rw [entities_observed]
  apply overlay_shows (step_wf wf _) ((mem_pending_step wf).mpr (.inl ⟨op, hop, hfate⟩))
    htask.symm _ hv
  apply (isCurrent_step_iff wf hop hfate).mpr ⟨current, Finset.disjoint_empty_right _⟩

/-! ### Reports -/

variable {id : OperationId}

/-- A failure is reported only of a pending operation that owns the fields it claims. -/
theorem report_of_owner {b : Board} (wf : b.ops.Wf) {a : Act} {message : String}
    (h : .report id message ∈ (b.step a).2) :
  ∃ op ∈ b.ops.pending, op.id = id ∧ ∀ f ∈ op.desired.claimed, b.ops.Owns op f
  := by
  cases a with
  | event task event =>
    rw [step_effects wf, List.mem_append] at h
    rcases h with hpending | hadmitted
    · obtain ⟨op, hop, htrace⟩ := List.mem_flatMap.mp hpending
      cases event with
      | failed id' failure detail now =>
        simp only [traces] at htrace
        split_ifs at htrace with hid huncertain hstale htransient
        · simp at htrace
        · simp at htrace
        · simp at htrace
        · simp only [List.mem_cons, OpEffect.report.injEq, reduceCtorEq, List.not_mem_nil,
            or_false] at htrace
          use op, hop, hid.trans htrace.1.symm
          intro f hf
          apply owns_of_isCurrent wf hop (by simpa using hstale) hf
        · simp at htrace
      | requested task' desired now =>
        simp only [traces] at htrace
        split_ifs at htrace <;> simp at htrace
      | sent id' => simp [traces] at htrace
      | acked id' now => simp [traces] at htrace
      | cancelled task' fields now =>
        simp only [traces] at htrace
        split_ifs at htrace <;> simp at htrace
    · simp at hadmitted
  | observed task now => simp [step] at h
  | recovered now =>
    obtain ⟨op, -, heffect⟩ := List.mem_flatMap.mp h
    cases hphase : op.phase <;> simp [recoverEffects, hphase] at heffect

/-! ### Identities -/

/-- The identities given out by a step: those its request is sent under. -/
def Obs.accepted (o : Obs) : List OperationId :=
  match o.act with
  | .event _ (.requested _ _ _) =>
      o.effects.filterMap fun
        | .send id => some id
        | .reconcile _ | .retry _ _ | .report _ _ | .settled _ => none
  | .event _ (.sent _) | .event _ (.acked _ _) | .event _ (.failed _ _ _ _)
  | .event _ (.cancelled _ _ _) | .observed _ _ | .recovered _ => []

/-- A step gives out the next identity, or none. -/
theorem accepted_step {b : Board} (wf : b.ops.Wf) (a : Act) :
  Obs.accepted ⟨a, (b.step a).2⟩ = (b.admitted a).map PendingMutation.id
  := by
  cases a with
  | event task event =>
    cases event with
    | requested task' desired now =>
      simp only [Obs.accepted, step_effects wf, List.filterMap_append]
      have hnone :
          (b.ops.pending.flatMap (b.ops.traces (.requested task' desired now))).filterMap
          (fun
            | .send id => some id
            | .reconcile _ | .retry _ _ | .report _ _ | .settled _ => none)
          = ([] : List OperationId) := by
        rw [List.filterMap_eq_nil_iff]
        intro effect heffect
        obtain ⟨op, -, htrace⟩ := List.mem_flatMap.mp heffect
        simp only [traces] at htrace
        split_ifs at htrace <;> simp at htrace
        rw [htrace]
      rw [hnone, List.nil_append, List.filterMap_map, ← List.filterMap_eq_map]
      rfl
    | sent id => rfl
    | acked id now => rfl
    | failed id failure detail now => rfl
    | cancelled task' fields now => rfl
  | observed task now => rfl
  | recovered now => rfl

/-- Along every run identities are given out once. -/
theorem accepted_nodup (acts : List Act) :
  ((machine.trace (new entities) acts).flatMap Obs.accepted).Nodup
  := by
  suffices h : (machine.final (new entities) acts).ops.Wf
      ∧ ((machine.trace (new entities) acts).flatMap Obs.accepted).Nodup
      ∧ ∀ id ∈ (machine.trace (new entities) acts).flatMap Obs.accepted,
          id < (machine.final (new entities) acts).ops.nextId from h.2.1
  apply machine.invariant (P := fun _ _ => True)
    (I := fun b os => b.ops.Wf ∧ (os.flatMap Obs.accepted).Nodup
      ∧ ∀ id ∈ os.flatMap Obs.accepted, id < b.ops.nextId)
  · exact ⟨wf_new entities, List.nodup_nil, by simp⟩
  · rintro b os a - ⟨wf, hnodup, hlt⟩
    have hnew : [Obs.mk a (b.step a).2].flatMap Obs.accepted
        = (b.admitted a).map PendingMutation.id := by
      rw [List.flatMap_singleton, accepted_step wf]
    refine ⟨step_wf wf a, ?_⟩
    change ((os ++ [Obs.mk a (b.step a).2]).flatMap Obs.accepted).Nodup
      ∧ ∀ id ∈ (os ++ [Obs.mk a (b.step a).2]).flatMap Obs.accepted, _
    rw [List.flatMap_append, hnew, step_ops wf]
    rcases b.admitted_cases a with hnone | ⟨op, hop, hid⟩
    · simp only [hnone, List.map_nil, List.append_nil, List.length_nil, Nat.add_zero]
      exact ⟨hnodup, hlt⟩
    · simp only [hop, List.map_cons, List.map_nil, hid, List.length_singleton]
      constructor
      · rw [List.nodup_append]
        refine ⟨hnodup, by simp, ?_⟩
        intro id hmem id' hlast
        rw [List.mem_singleton.mp hlast]
        apply (hlt id hmem).ne
      · simp only [List.forall_mem_append, List.forall_mem_singleton]
        constructor
        · intro id hmem
          apply Nat.lt_succ_of_lt (hlt id hmem)
        · apply Nat.lt_succ_self
  · apply machine.along_of_forall
    simp

/-! ### What a restart re-issues -/

/-- The action is about an operation that reached the provider, or may have. -/
def Reaches (id : OperationId) : Act → Prop
  | .event _ (.sent id') | .event _ (.acked id' _) => id' = id
  | .event _ (.failed id' failure _ _) => id' = id ∧ failure = .uncertain
  | .event _ (.requested _ _ _) | .event _ (.cancelled _ _ _) | .observed _ _
  | .recovered _ => False

/-- An event asked for an attempt of the operation. -/
def Obs.Asks (id : OperationId) (o : Obs) : Prop :=
  (∃ t event, o.act = .event t event)
    ∧ (.send id ∈ o.effects ∨ ∃ notBefore, .retry id notBefore ∈ o.effects)

/-- No event reached the operation since an attempt of it was last asked for. -/
def Untried (id : OperationId) (os : List Obs) : Prop :=
  ∃ before o since, os = before ++ o :: since ∧ o.Asks id ∧ ∀ o' ∈ since, ¬ Reaches id o'.act

theorem event_of_reaches {a : Act} (h : Reaches id a) :
  ∃ t event, a = .event t event ∧ event.id? = some id
  := by
  cases a with
  | event t event =>
    refine ⟨t, event, rfl, ?_⟩
    cases event with
    | sent id' => exact congrArg some h
    | acked id' now => exact congrArg some h
    | failed id' failure detail now => exact congrArg some h.1
    | requested task desired now => cases h
    | cancelled task fields now => cases h
  | observed task now => cases h
  | recovered now => cases h

/-- An operation that never reached the provider was not tried since it was last asked for. -/
theorem untried_of_unsent (acts : List Act) :
  ∀ op ∈ (machine.final (new entities) acts).ops.pending, op.phase.reachedProvider = false →
    Untried op.id (machine.trace (new entities) acts)
  := by
  suffices h : (machine.final (new entities) acts).ops.Wf
      ∧ ∀ op ∈ (machine.final (new entities) acts).ops.pending,
          op.phase.reachedProvider = false →
            Untried op.id (machine.trace (new entities) acts) from h.2
  apply machine.invariant (P := fun _ _ => True)
    (I := fun b os => b.ops.Wf ∧ ∀ op ∈ b.ops.pending, op.phase.reachedProvider = false →
      Untried op.id os)
  · exact ⟨wf_new entities, by simp [new, ProviderOps.default]⟩
  · rintro b os a - ⟨wf, huntried⟩
    refine ⟨step_wf wf a, ?_⟩
    intro op' hop' hunsent
    change Untried op'.id (os ++ [Obs.mk a (b.step a).2])
    rcases (mem_pending_step wf).mp hop' with ⟨op, hop, hfate⟩ | hnew
    · rw [(sameClaim_fate hfate).id]
      have hmoves := moves_fate hfate
      generalize op'.phase = phase at hmoves hunsent
      cases hmoves with
      | kept hkept =>
        obtain ⟨before, o, since, rfl, hasks, hsince⟩ := huntried op hop hunsent
        refine ⟨before, o, since ++ [⟨a, (b.step a).2⟩], by simp, hasks, ?_⟩
        simp only [List.forall_mem_append, List.forall_mem_singleton]
        refine ⟨hsince, ?_⟩
        intro hreaches
        obtain ⟨t, event, rfl, hid⟩ := event_of_reaches hreaches
        apply hkept t event rfl hid
      | retried t detail now notBefore hcurrent hasked =>
        refine ⟨os, _, [], rfl, ⟨⟨t, _, rfl⟩, .inr ⟨notBefore, ?_⟩⟩, by simp⟩
        dsimp only
        rw [step_effects wf]
        apply List.mem_append_left
        apply List.mem_flatMap.mpr ⟨op, hop, hasked⟩
      | sent t => cases hunsent
      | acked t now => cases hunsent
      | uncertain t detail now => cases hunsent
      | recovered now => cases hunsent
    · cases a with
      | event task event =>
        refine ⟨os, _, [], rfl, ⟨⟨task, event, rfl⟩, .inl ?_⟩, by simp⟩
        dsimp only
        rw [step_effects wf]
        apply List.mem_append_right
        apply List.mem_map_of_mem hnew
      | observed task now => simp [Board.admitted] at hnew
      | recovered now => simp [Board.admitted] at hnew
  · apply machine.along_of_forall
    simp

/-- A restart sends or retries only operations that never reached the provider. -/
theorem recover_unsent {ops : ProviderOps} {now : Instant}
    (h : .send id ∈ (ops.recover now).2 ∨ ∃ notBefore, .retry id notBefore ∈ (ops.recover now).2) :
  ∃ op ∈ ops.pending, op.id = id ∧ op.phase.reachedProvider = false
  := by
  have hfrom : ∃ op ∈ ops.pending, .send id ∈ recoverEffects now op
      ∨ ∃ notBefore, .retry id notBefore ∈ recoverEffects now op := by
    rcases h with hsend | ⟨notBefore, hretry⟩
    · obtain ⟨op, hop, heffect⟩ := List.mem_flatMap.mp hsend
      exact ⟨op, hop, .inl heffect⟩
    · obtain ⟨op, hop, heffect⟩ := List.mem_flatMap.mp hretry
      exact ⟨op, hop, .inr ⟨notBefore, heffect⟩⟩
  obtain ⟨op, hop, heffect⟩ := hfrom
  use op, hop
  cases hphase : op.phase <;> simp_all [recoverEffects, OpPhase.reachedProvider]

/-- What holds at the end of a run: polls older than an acknowledgement leave what it
acknowledged, reports are of owners, identities are given out once, and a restart re-issues
only what was not tried. -/
structure Faithful (b : Board) (acts : List Act) (os : List Obs) : Prop where
  acknowledged : ∀ op ∈ b.ops.pending, ∀ t at₀, .event t (.acked op.id at₀) ∈ acts →
    (∃ at_, op.phase = .acked at_) → (∀ f ∈ op.desired.claimed, b.ops.Owns op f) →
    ∀ task now, task.id = op.task → now - op.issuedAt < SETTLE_DEADLINE →
      task.updatedAt < at₀ → ∀ f, ∀ v ∈ op.desired.get f,
        FieldValue.Same f (((machine.next b (.observed task now)).entities task.id).value f) v
  reports : ∀ a id message, .report id message ∈ (b.step a).2 →
    ∃ op ∈ b.ops.pending, op.id = id ∧ ∀ f ∈ op.desired.claimed, b.ops.Owns op f
  identities : (os.flatMap Obs.accepted).Nodup
  restarts : ∀ now id,
    (.send id ∈ (b.ops.recover now).2 ∨ ∃ notBefore, .retry id notBefore ∈ (b.ops.recover now).2) →
      Untried id os

/-- An operation that owns every field it claims is current. -/
theorem isCurrent_of_owns {ops : ProviderOps} (wf : ops.Wf) {op : PendingMutation}
    (hop : op ∈ ops.pending) (owns : ∀ f ∈ op.desired.claimed, ops.Owns op f) :
  ops.isCurrent op = true
  := by
  rw [isCurrent_iff]
  intro f g hg
  have hf : f ∈ op.desired.claimed := by
    rw [← wf.claims op hop, hg]
    rfl
  have howns := owns f hf
  rw [Owns, hg] at howns
  cases howns
  rfl

/-- In every run along which the clock does not run backwards no stale poll undoes an
acknowledged write, and no write is replayed blind. -/
theorem writes_stand
    (entities : { e : TaskId → Task // ∀ t, (e t).id = t }) (acts : List Act)
    (clock : Clocked acts) :
  Faithful (machine.final (new entities) acts) acts (machine.trace (new entities) acts)
  where
  acknowledged := by
    rintro op hop t at₀ hacked ⟨at_, hphase⟩ howns task now htask hdeadline hstale f v hv
    have wf := wf_final (wf_new entities) acts
    apply stale_poll wf hop hphase (isCurrent_of_owns wf hop howns) htask hdeadline _ hv
    apply lt_of_lt_of_le hstale
    apply acked_latest entities clock op hop at_ hphase t at₀ hacked
  reports := by
    intro a id message h
    apply report_of_owner (wf_final (wf_new entities) acts) h
  identities := accepted_nodup entities acts
  restarts := by
    intro now id h
    obtain ⟨op, hop, rfl, hunsent⟩ := recover_unsent h
    apply untried_of_unsent entities acts op hop hunsent

/-- An assignment acknowledged twice. -/
theorem writes_stand_acked_twice :
  Faithful
    (machine.final (new blankTasks)
      [.event ⟨"linear", "ENG-1"⟩ (.requested ⟨"linear", "ENG-1"⟩ { assignees := some ["ana"] } 0),
        .event ⟨"linear", "ENG-1"⟩ (.sent 0), .event ⟨"linear", "ENG-1"⟩ (.acked 0 10),
        .event ⟨"linear", "ENG-1"⟩ (.acked 0 12)])
    [.event ⟨"linear", "ENG-1"⟩ (.requested ⟨"linear", "ENG-1"⟩ { assignees := some ["ana"] } 0),
      .event ⟨"linear", "ENG-1"⟩ (.sent 0), .event ⟨"linear", "ENG-1"⟩ (.acked 0 10),
      .event ⟨"linear", "ENG-1"⟩ (.acked 0 12)]
    (machine.trace (new blankTasks)
      [.event ⟨"linear", "ENG-1"⟩ (.requested ⟨"linear", "ENG-1"⟩ { assignees := some ["ana"] } 0),
        .event ⟨"linear", "ENG-1"⟩ (.sent 0), .event ⟨"linear", "ENG-1"⟩ (.acked 0 10),
        .event ⟨"linear", "ENG-1"⟩ (.acked 0 12)])
  := by
  apply writes_stand
  decide

end Board

end Lazybox
