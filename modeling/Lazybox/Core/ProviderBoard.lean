import Lazybox.Core.ProviderLedger

/-!
# A ledger and its entities

A workspace holds one ledger and several entities.  Events are applied to the ledger together
with the entity they concern, observations replace an entity by what the provider reports of
it with the pending intent laid over it, and a restart re-adopts the ledger.

Beside the ledger and the entities a board keeps what the provider last reported of each
entity and, for each operation ever accepted, the entity it is about.  The code has neither;
they are there to state properties.
-/

namespace Lazybox

/-- The task an event names. -/
def OpEvent.task? : OpEvent → Option TaskId
  | .requested task _ _ | .cancelled task _ _ => some task
  | .sent _ | .acked _ _ | .failed _ _ _ _ => none

/-- The operation an event names. -/
def OpEvent.id? : OpEvent → Option OperationId
  | .sent id | .acked id _ | .failed id _ _ _ => some id
  | .requested _ _ _ | .cancelled _ _ _ => none

namespace ProviderOps

theorem foldl_restore_id (l : List PendingMutation) (entity : Task) :
  (l.foldl (fun e op => restore op e) entity).id = entity.id
  := by
  induction l generalizing entity with
  | nil => rfl
  | cons op rest ih => rw [List.foldl_cons, ih, restore_id]

theorem cancelEach_id (l : List PendingMutation) (ops : ProviderOps) (entity : Task) :
  (cancelEach l ops entity).2.1.id = entity.id
  := by
  rw [cancelEach_eq]
  apply foldl_restore_id

theorem react_id (ops : ProviderOps) (entity : Task) (event : OpEvent) :
  (ops.react entity event).2.1.id = entity.id
  := by
  cases event with
  | requested task desired now => rfl
  | sent id => rfl
  | acked id now => rfl
  | failed id failure detail now =>
    simp only [react, onFailed]
    cases ops.get id with
    | none => rfl
    | some op =>
      dsimp only
      split_ifs
      · rfl
      · apply restore_id
      · rfl
      · apply restore_id
  | cancelled task fields now =>
    simp only [react, onCancelled]
    split_ifs
    · rfl
    · apply cancelEach_id

theorem apply_id (ops : ProviderOps) (event : OpEvent) (entity : Task) :
  (ops.apply event entity).2.1.id = entity.id
  := by
  simp only [apply, overlay_id]
  apply react_id

theorem reconcileObservation_id (ops : ProviderOps) (task : Task) (now : Instant) :
  (ops.reconcileObservation task now).2.id = task.id
  := by
  simp only [reconcileObservation, overlay_id]

end ProviderOps

/-- A ledger and the entities its operations are about. -/
structure Board where
  ops : ProviderOps
  entities : TaskId → Task
  entities_id : ∀ t, (entities t).id = t
  reported : TaskId → Task
  owners : List TaskId

namespace Board

/-- What happens to a board. -/
inductive Act where
  /-- An event applied together with the entity of a task. -/
  | event (task : TaskId) (event : OpEvent)
  | observed (task : Task) (now : Instant)
  | recovered (now : Instant)
deriving DecidableEq

/-- The task an action concerns; a restart concerns every one. -/
def Act.task? : Act → Option TaskId
  | .event task _ => some task
  | .observed task _ => some task.id
  | .recovered _ => none

/-- What is seen of a step: the action, and the work it asks for. -/
structure Obs where
  act : Act
  effects : List OpEffect
deriving DecidableEq

/-- The entities with one of them replaced. -/
def withEntity (b : Board) (task : Task) : TaskId → Task :=
  Function.update b.entities task.id task

theorem withEntity_id (b : Board) (task : Task) (t : TaskId) :
  (b.withEntity task t).id = t
  := by
  rw [withEntity, Function.update_apply]
  split
  · next h => rw [h]
  · apply b.entities_id

def step (b : Board) : Act → Board × List OpEffect
  | .event task event =>
      let result := b.ops.apply event (b.entities task)
      ({ b with
          ops := result.1
          entities := b.withEntity result.2.1
          entities_id := b.withEntity_id _
          owners := b.owners
            ++ (b.ops.admitted (b.entities task) event).map PendingMutation.task },
        result.2.2)
  | .observed task now =>
      let result := b.ops.reconcileObservation task now
      ({ b with
          ops := result.1
          entities := b.withEntity result.2
          entities_id := b.withEntity_id _
          reported := Function.update b.reported task.id task },
        [])
  | .recovered now => ({ b with ops := (b.ops.recover now).1 }, (b.ops.recover now).2)

def machine : Machine Board Act Obs where
  step b a := ((b.step a).1, [⟨a, (b.step a).2⟩])

/-- A board with an empty ledger: every entity shows what the provider reported of it. -/
def new (entities : { e : TaskId → Task // ∀ t, (e t).id = t }) : Board :=
  ⟨.default, entities.1, entities.2, entities.1, []⟩

/-- An issue nothing is known of. -/
def blankTask (t : TaskId) : Task := ⟨t, [], [], [], .opened, none, 0⟩

def blankTasks : { e : TaskId → Task // ∀ t, (e t).id = t } := ⟨blankTask, fun _ => rfl⟩

/-- The event is applied to the entity it concerns: the one it names, or the one the operation
it names is about. -/
def Addressed (b : Board) : Act → Prop
  | .event task event =>
      (∀ t ∈ event.task?, t = task)
        ∧ ∀ id ∈ event.id?, ∀ t ∈ b.owners[id]?, t = task
  | .observed _ _ | .recovered _ => True

instance (b : Board) : ∀ a : Act, Decidable (b.Addressed a)
  | .event task event => inferInstanceAs (Decidable
      ((∀ t ∈ event.task?, t = task) ∧ ∀ id ∈ event.id?, ∀ t ∈ b.owners[id]?, t = task))
  | .observed _ _ | .recovered _ => isTrue trivial

/-! ### What becomes of an operation in a step -/

/-- What becomes of a pending operation in a step. -/
def fate (b : Board) : Act → PendingMutation → Option PendingMutation
  | .event _ event, op => b.ops.fate event op
  | .observed task now, op =>
      if op.task = task.id then
        if op.settledBy task.updatedAt now then none
        else some { op with previous := op.desired.observedCounterpart task }
      else some op
  | .recovered now, op => some (ProviderOps.recoverOp now op)

/-- The operation a step admits. -/
def admitted (b : Board) : Act → List PendingMutation
  | .event task event => b.ops.admitted (b.entities task) event
  | .observed _ _ | .recovered _ => []

/-- The fields whose generation a step moves on. -/
def touched : Act → Finset MutationField
  | .event _ event => ProviderOps.touched event
  | .observed _ _ | .recovered _ => ∅

end Board

/-- Two operations with the same claim: they differ in their lifecycle and baseline only. -/
structure SameClaim (op op' : PendingMutation) : Prop where
  id : op'.id = op.id
  task : op'.task = op.task
  desired : op'.desired = op.desired
  claimed : op'.claimed = op.claimed
  issuedAt : op'.issuedAt = op.issuedAt

theorem SameClaim.refl (op : PendingMutation) : SameClaim op op := ⟨rfl, rfl, rfl, rfl, rfl⟩

variable {op op' : PendingMutation}

variable {event : OpEvent}

theorem ProviderOps.sameClaim_fate {ops : ProviderOps} (h : ops.fate event op = some op') :
  SameClaim op op' ∧ op'.previous = op.previous
  := by
  cases event with
  | requested task desired now =>
    simp only [fate] at h
    split at h <;> cases h
    exact ⟨.refl op, rfl⟩
  | sent id =>
    simp only [fate] at h
    split at h <;> cases h <;> exact ⟨⟨rfl, rfl, rfl, rfl, rfl⟩, rfl⟩
  | acked id now =>
    simp only [fate] at h
    split at h <;> cases h <;> exact ⟨⟨rfl, rfl, rfl, rfl, rfl⟩, rfl⟩
  | failed id failure detail now =>
    simp only [fate] at h
    split_ifs at h <;> cases h <;> exact ⟨⟨rfl, rfl, rfl, rfl, rfl⟩, rfl⟩
  | cancelled task fields now =>
    simp only [fate] at h
    split at h <;> cases h
    exact ⟨.refl op, rfl⟩

theorem ProviderOps.sameClaim_recoverOp (now : Instant) (op : PendingMutation) :
  SameClaim op (recoverOp now op)
  := by
  unfold recoverOp
  split <;> exact ⟨rfl, rfl, rfl, rfl, rfl⟩

variable {b : Board}

theorem Board.sameClaim_fate {a : Act} (h : b.fate a op = some op') :
  SameClaim op op'
  := by
  cases a with
  | event task event => apply (ProviderOps.sameClaim_fate h).1
  | observed task now =>
    simp only [fate] at h
    split_ifs at h <;> cases h <;> exact ⟨rfl, rfl, rfl, rfl, rfl⟩
  | recovered now =>
    cases h
    apply ProviderOps.sameClaim_recoverOp

/-- The phase an operation which survives a step is in after it. -/
inductive Board.Moves (b : Board) (op : PendingMutation) : Act → OpPhase → Prop
  /-- The step does not name the operation. -/
  | kept {a : Act} (h : ∀ t event, a = .event t event → event.id? ≠ some op.id) :
      Moves b op a op.phase
  | sent (t : TaskId) : Moves b op (.event t (.sent op.id)) .sent
  | acked (t : TaskId) (now : Instant) : Moves b op (.event t (.acked op.id now)) (.acked now)
  | uncertain (t : TaskId) (detail : String) (now : Instant) :
      Moves b op (.event t (.failed op.id .uncertain detail now)) (.uncertain now)
  | retried (t : TaskId) (detail : String) (now notBefore : Instant)
      (current : b.ops.isCurrent op = true)
      (asked : .retry op.id notBefore
        ∈ b.ops.traces (.failed op.id .transient detail now) op) :
      Moves b op (.event t (.failed op.id .transient detail now)) (.retryScheduled notBefore)
  | recovered (now : Instant) (reached : op.phase.reachedProvider = true) :
      Moves b op (.recovered now) (.uncertain now)

/-- An event that does not name an operation leaves its phase. -/
theorem Board.Moves.of_id (t : TaskId) (h : event.id? ≠ some op.id) :
  Moves b op (.event t event) op.phase
  := by
  apply Moves.kept
  rintro _ _ ⟨rfl, rfl⟩
  exact h

theorem Board.moves_event {t : TaskId} (h : b.ops.fate event op = some op') :
  Moves b op (.event t event) op'.phase
  := by
  cases event with
  | requested task' desired now =>
    simp only [ProviderOps.fate] at h
    split_ifs at h
    cases h
    apply Moves.of_id
    simp [OpEvent.id?]
  | sent id =>
    simp only [ProviderOps.fate] at h
    split_ifs at h with hid
    · cases h
      rw [← hid]
      apply Moves.sent
    · cases h
      apply Moves.of_id
      simpa [OpEvent.id?, eq_comm] using hid
  | acked id now =>
    simp only [ProviderOps.fate] at h
    split_ifs at h with hid
    · cases h
      rw [← hid]
      apply Moves.acked
    · cases h
      apply Moves.of_id
      simpa [OpEvent.id?, eq_comm] using hid
  | failed id failure detail now =>
    simp only [ProviderOps.fate] at h
    split_ifs at h with hid huncertain hstale htransient
    · cases h
      apply Moves.of_id
      simpa [OpEvent.id?, eq_comm] using hid
    · cases h
      rw [huncertain, ← not_not.mp hid]
      apply Moves.uncertain
    · cases h
      have hcurrent : b.ops.isCurrent op = true := by simpa using hstale
      obtain ⟨rfl, hattempts⟩ := htransient
      rw [← not_not.mp hid]
      apply Moves.retried _ _ _ _ hcurrent
      simp [ProviderOps.traces, hcurrent, hattempts]
  | cancelled task' fields now =>
    simp only [ProviderOps.fate] at h
    split_ifs at h
    cases h
    apply Moves.of_id
    simp [OpEvent.id?]

/-- A restart leaves the outcome of what reached the provider open, and nothing else. -/
theorem Board.moves_recoverOp (b : Board) (now : Instant) (op : PendingMutation) :
  Moves b op (.recovered now) (ProviderOps.recoverOp now op).phase
  := by
  cases hphase : op.phase with
  | sent | uncertain =>
    simp only [ProviderOps.recoverOp, hphase]
    apply Moves.recovered
    rw [hphase]
    rfl
  | accepted | acked | retryScheduled =>
    simp only [ProviderOps.recoverOp, hphase]
    rw [← hphase]
    exact Moves.kept (by simp)

theorem Board.moves_fate {a : Act} (h : b.fate a op = some op') :
  Moves b op a op'.phase
  := by
  cases a with
  | event task event => exact moves_event h
  | observed task now =>
    simp only [fate] at h
    split_ifs at h <;> cases h <;> exact Moves.kept (by simp)
  | recovered now =>
    cases h
    exact moves_recoverOp b now op

/-! ### Well-formed ledgers -/

namespace ProviderOps

/-- What holds of every ledger the code can build. -/
structure Wf (ops : ProviderOps) : Prop where
  distinct : (ops.pending.map PendingMutation.id).Nodup
  known : ∀ op ∈ ops.pending, op.id < ops.nextId
  claims : ∀ op ∈ ops.pending, ∀ f, (op.claimed f).isSome ↔ f ∈ op.desired.claimed
  recorded : ∀ op ∈ ops.pending, ∀ f, ∀ g ∈ op.claimed f, g ≤ ops.generations f
  owner : ∀ op ∈ ops.pending, ∀ op' ∈ ops.pending, ∀ f, ∀ g ∈ op.claimed f,
    g ∈ op'.claimed f → op = op'

theorem wf_default : Wf default where
  distinct := List.nodup_nil
  known := by simp [default]
  claims := by simp [default]
  recorded := by simp [default]
  owner := by simp [default]

variable {ops : ProviderOps}

/-- A pointwise step which keeps the claims of the operations, while the generations only grow,
keeps a ledger well formed. -/
theorem Wf.filterMap (h : Wf ops) {g : PendingMutation → Option PendingMutation}
    (same : ∀ op ∈ ops.pending, ∀ op' ∈ g op, SameClaim op op') {generations : MutationField → ℕ}
    (grow : ∀ f, ops.generations f ≤ generations f) :
  Wf ⟨ops.nextId, generations, ops.pending.filterMap g⟩ where
  distinct := by
    apply List.Nodup.sublist _ h.distinct
    apply Keyed.sublist_map_filterMap
    intro op hop op' hop'
    apply (same op hop op' hop').id
  known := by
    intro op' hop'
    obtain ⟨op, hop, hg⟩ := List.mem_filterMap.mp hop'
    rw [(same op hop op' hg).id]
    apply h.known op hop
  claims := by
    intro op' hop' f
    obtain ⟨op, hop, hg⟩ := List.mem_filterMap.mp hop'
    rw [(same op hop op' hg).claimed, (same op hop op' hg).desired]
    apply h.claims op hop
  recorded := by
    intro op' hop' f n hn
    obtain ⟨op, hop, hg⟩ := List.mem_filterMap.mp hop'
    rw [(same op hop op' hg).claimed] at hn
    apply (h.recorded op hop f n hn).trans (grow f)
  owner := by
    intro op₁' h₁' op₂' h₂' f n hn₁ hn₂
    obtain ⟨op₁, hop₁, hg₁⟩ := List.mem_filterMap.mp h₁'
    obtain ⟨op₂, hop₂, hg₂⟩ := List.mem_filterMap.mp h₂'
    rw [(same op₁ hop₁ op₁' hg₁).claimed] at hn₁
    rw [(same op₂ hop₂ op₂' hg₂).claimed] at hn₂
    obtain rfl := h.owner op₁ hop₁ op₂ hop₂ f n hn₁ hn₂
    rw [hg₁] at hg₂
    cases hg₂
    rfl

/-- Admitting an operation under the next identity, at generations none of the others
recorded, keeps a ledger well formed. -/
theorem Wf.admit (h : Wf ops) {op : PendingMutation} (hid : op.id = ops.nextId)
    (hclaims : ∀ f, (op.claimed f).isSome ↔ f ∈ op.desired.claimed)
    (hrecorded : ∀ f, ∀ g ∈ op.claimed f, g ≤ ops.generations f)
    (hnew : ∀ f, ∀ g ∈ op.claimed f, ∀ op' ∈ ops.pending, g ∉ op'.claimed f) :
  Wf ⟨ops.nextId + 1, ops.generations, ops.pending ++ [op]⟩ where
  distinct := by
    rw [List.map_append, List.nodup_append]
    refine ⟨h.distinct, by simp, ?_⟩
    intro id hid' id' hlast
    obtain ⟨op', hop', rfl⟩ := List.mem_map.mp hid'
    simp only [List.map_cons, List.map_nil, List.mem_singleton] at hlast
    rw [hlast, hid]
    apply (h.known op' hop').ne
  known := by
    simp only [List.forall_mem_append, List.forall_mem_singleton]
    constructor
    · intro op' hop'
      apply Nat.lt_succ_of_lt (h.known op' hop')
    · rw [hid]
      apply Nat.lt_succ_self
  claims := by
    simp only [List.forall_mem_append, List.forall_mem_singleton]
    exact ⟨h.claims, hclaims⟩
  recorded := by
    simp only [List.forall_mem_append, List.forall_mem_singleton]
    exact ⟨h.recorded, hrecorded⟩
  owner := by
    simp only [List.forall_mem_append, List.forall_mem_singleton]
    refine ⟨fun op' hop' => ⟨h.owner op' hop', ?_⟩, ?_, ?_⟩
    · intro f g hg hg'
      exact absurd hg (hnew f g hg' op' hop')
    · intro op' hop' f g hg hg'
      exact absurd hg' (hnew f g hg op' hop')
    · simp

theorem isCurrent_iff {op : PendingMutation} :
  ops.isCurrent op = true ↔ ∀ f, ∀ g ∈ op.claimed f, ops.generations f = g
  := by
  simp only [isCurrent, List.all_eq_true, Option.all_eq_true, decide_eq_true_eq]
  constructor
  · intro h f
    apply h f (MutationField.mem_all f)
  · intro h f _
    apply h f

theorem le_bump (ops : ProviderOps) (fields : Finset MutationField) (f : MutationField) :
  ops.generations f ≤ (ops.bump fields).generations f
  := by
  simp only [bump]
  split <;> omega

variable {fields : Finset MutationField}

variable {f : MutationField}

theorem bump_of_mem (h : f ∈ fields) :
  (ops.bump fields).generations f = ops.generations f + 1
  := by
  simp only [bump, if_pos h]

theorem bump_of_notMem (h : f ∉ fields) :
  (ops.bump fields).generations f = ops.generations f
  := by
  simp only [bump, if_neg h]

theorem mem_bumped {g : ℕ} :
  g ∈ ops.bumped fields f ↔ f ∈ fields ∧ g = ops.generations f + 1
  := by
  simp only [bumped]
  split
  · next h => simp [h, eq_comm]
  · next h => simp [h]

/-- What an event admits, when it admits something. -/
theorem mem_admitted {entity : Task} {event : OpEvent} {op : PendingMutation} :
  op ∈ ops.admitted entity event ↔
    ∃ task desired now, event = .requested task desired now ∧ desired.claimed ≠ ∅
      ∧ op = ⟨ops.nextId, task, desired, ops.baseline task desired entity,
          ops.bumped desired.claimed, now, .accepted, 0⟩
  := by
  cases event with
  | requested task desired now =>
    simp only [admitted]
    split
    · next h => simp [h]
    · next h => simp [h]
  | sent id => simp [admitted]
  | acked id now => simp [admitted]
  | failed id failure detail now => simp [admitted]
  | cancelled task fields now => simp [admitted]

theorem Wf.after (h : Wf ops) (entity : Task) (event : OpEvent) :
  Wf (ops.after entity event)
  := by
  have hkept : Wf ⟨ops.nextId, (ops.bump (touched event)).generations,
      ops.pending.filterMap (ops.fate event)⟩ := by
    apply h.filterMap
    · intro op _ op' hop'
      apply (sameClaim_fate hop').1
    · apply le_bump
  rw [ProviderOps.after]
  cases hadmitted : ops.admitted entity event with
  | nil => simpa using hkept
  | cons op rest =>
    obtain ⟨task, desired, now, rfl, hne, rfl⟩ :=
      mem_admitted.mp (hadmitted ▸ List.mem_cons_self : op ∈ ops.admitted entity event)
    simp only [admitted, if_neg hne, List.cons.injEq, true_and] at hadmitted
    subst hadmitted
    apply hkept.admit rfl
    · intro f
      simp only [bumped]
      split
      · next hf => simp [hf]
      · next hf => simp [hf]
    · intro f g hg
      obtain ⟨hf, rfl⟩ := mem_bumped.mp hg
      simp only [touched, bump_of_mem hf, le_refl]
    · intro f g hg op' hop' hg'
      obtain ⟨hf, rfl⟩ := mem_bumped.mp hg
      obtain ⟨op, hop, hfate⟩ := List.mem_filterMap.mp hop'
      rw [(sameClaim_fate hfate).1.claimed] at hg'
      have := h.recorded op hop f _ hg'
      omega

end ProviderOps

namespace Board

variable {b : Board}

/-- The ledger after a step, operation by operation. -/
theorem step_ops (wf : b.ops.Wf) (a : Act) :
  (machine.next b a).ops
    = ⟨b.ops.nextId + (b.admitted a).length, (b.ops.bump (touched a)).generations,
        b.ops.pending.filterMap (b.fate a) ++ b.admitted a⟩
  := by
  cases a with
  | event task event =>
    change (b.ops.apply event (b.entities task)).1 = _
    simp only [ProviderOps.apply, ProviderOps.react_eq wf.distinct]
    rfl
  | observed task now =>
    change (b.ops.reconcileObservation task now).1 = _
    simp only [ProviderOps.reconcileObservation, admitted, touched, ProviderOps.bump_empty,
      List.append_nil, List.length_nil, Nat.add_zero]
    congr 1
    rw [← List.filterMap_eq_map, ← List.filterMap_eq_filter, List.filterMap_filterMap]
    apply List.filterMap_congr
    intro op _
    simp only [fate, Option.guard]
    by_cases htask : op.task = task.id
    · by_cases hsettled : op.settledBy task.updatedAt now = true
      · simp [htask, hsettled]
      · simp [htask, hsettled]
    · simp [htask]
  | recovered now =>
    change (b.ops.recover now).1 = _
    simp only [ProviderOps.recover, admitted, touched, ProviderOps.bump_empty,
      List.append_nil, List.length_nil, Nat.add_zero, ← List.filterMap_eq_map]
    rfl

theorem step_wf (wf : b.ops.Wf) (a : Act) :
  (machine.next b a).ops.Wf
  := by
  cases a with
  | event task event =>
    rw [step_ops wf]
    apply wf.after (b.entities task) event
  | observed task now =>
    rw [step_ops wf]
    simp only [admitted, List.append_nil, List.length_nil, Nat.add_zero]
    apply wf.filterMap
    · intro op _ op' hop'
      apply sameClaim_fate hop'
    · apply ProviderOps.le_bump
  | recovered now =>
    rw [step_ops wf]
    simp only [admitted, List.append_nil, List.length_nil, Nat.add_zero]
    apply wf.filterMap
    · intro op _ op' hop'
      apply sameClaim_fate hop'
    · apply ProviderOps.le_bump

/-- An operation after a step is what a pending one became, or the one the step admitted. -/
theorem mem_pending_step (wf : b.ops.Wf) {a : Act} {op' : PendingMutation} :
  op' ∈ (machine.next b a).ops.pending
    ↔ (∃ op ∈ b.ops.pending, b.fate a op = some op') ∨ op' ∈ b.admitted a
  := by
  rw [step_ops wf, List.mem_append, List.mem_filterMap]

/-- An operation which survives a step is current after it when it was before and the step
touches none of its fields. -/
theorem isCurrent_step_iff (wf : b.ops.Wf) {a : Act} {op op' : PendingMutation}
    (hop : op ∈ b.ops.pending) (hfate : b.fate a op = some op') :
  (machine.next b a).ops.isCurrent op' = true
    ↔ b.ops.isCurrent op = true ∧ Disjoint op.desired.claimed (touched a)
  := by
  rw [ProviderOps.isCurrent_iff, ProviderOps.isCurrent_iff, (sameClaim_fate hfate).claimed,
    step_ops wf, Finset.disjoint_left]
  dsimp only
  constructor
  · intro h
    constructor
    · intro f g hg
      have hle := wf.recorded op hop f g hg
      have hgrow := b.ops.le_bump (touched a) f
      have := h f g hg
      omega
    · intro f hf htouched
      obtain ⟨g, hg⟩ := Option.isSome_iff_exists.mp ((wf.claims op hop f).mpr hf)
      have hle := wf.recorded op hop f g hg
      have := h f g hg
      rw [ProviderOps.bump_of_mem htouched] at this
      omega
  · rintro ⟨hcurrent, hdisjoint⟩ f g hg
    have hf : f ∈ op.desired.claimed := by
      rw [← wf.claims op hop, hg]
      rfl
    rw [ProviderOps.bump_of_notMem (hdisjoint hf)]
    apply hcurrent f g hg

/-- A request's own operation is current after it, and owns the fields it touches. -/
theorem isCurrent_admitted
    (wf : b.ops.Wf) {a : Act} {op : PendingMutation} (hop : op ∈ b.admitted a) :
  (machine.next b a).ops.isCurrent op = true ∧ op.desired.claimed = touched a
  := by
  cases a with
  | event task event =>
    obtain ⟨task', desired, now, rfl, -, rfl⟩ := ProviderOps.mem_admitted.mp hop
    constructor
    · rw [ProviderOps.isCurrent_iff, step_ops wf]
      intro f g hg
      obtain ⟨hf, rfl⟩ := ProviderOps.mem_bumped.mp hg
      apply ProviderOps.bump_of_mem hf
    · rfl
  | observed task now => simp [admitted] at hop
  | recovered now => simp [admitted] at hop

/-- A step admits nothing, or one operation under the next identity. -/
theorem admitted_cases (b : Board) (a : Act) :
  b.admitted a = [] ∨ ∃ op, b.admitted a = [op] ∧ op.id = b.ops.nextId
  := by
  cases a with
  | event task event =>
    cases event with
    | requested task' desired now =>
      simp only [admitted, ProviderOps.admitted]
      split
      · left
        rfl
      · right
        exact ⟨_, rfl, rfl⟩
    | sent id => exact .inl rfl
    | acked id now => exact .inl rfl
    | failed id failure detail now => exact .inl rfl
    | cancelled task' fields now => exact .inl rfl
  | observed task now => exact .inl rfl
  | recovered now => exact .inl rfl

/-- The work a step asks for, operation by operation. -/
theorem step_effects (wf : b.ops.Wf) (task : TaskId) (event : OpEvent) :
  (b.step (.event task event)).2
    = b.ops.pending.flatMap (b.ops.traces event)
        ++ (b.ops.admitted (b.entities task) event).map fun op => .send op.id
  := by
  simp only [step, ProviderOps.apply, ProviderOps.react_eq wf.distinct]

/-- An operation left in a step when the step has no fate for it. -/
theorem gone_iff (wf : b.ops.Wf) (a : Act) {op : PendingMutation} (hop : op ∈ b.ops.pending) :
  (∀ op' ∈ (machine.next b a).ops.pending, op'.id ≠ op.id) ↔ b.fate a op = none
  := by
  constructor
  · intro h
    cases hfate : b.fate a op with
    | none => rfl
    | some op' =>
      exfalso
      apply h op'
      · apply (mem_pending_step wf).mpr (.inl ⟨op, hop, hfate⟩)
      · apply (sameClaim_fate hfate).id
  · intro hnone op' hop' hid
    rcases (mem_pending_step wf).mp hop' with ⟨op₀, hop₀, hfate⟩ | hadmitted
    · have : op₀ = op := by
        apply List.inj_on_of_nodup_map wf.distinct hop₀ hop
        rw [← hid, (sameClaim_fate hfate).id]
      rw [this, hnone] at hfate
      cases hfate
    · cases a with
      | event task event =>
        obtain ⟨_, _, _, _, _, rfl⟩ := ProviderOps.mem_admitted.mp hadmitted
        apply (wf.known op hop).ne hid.symm
      | observed task now => simp [admitted] at hadmitted
      | recovered now => simp [admitted] at hadmitted

theorem wf_final (wf : b.ops.Wf) (acts : List Act) :
  (machine.final b acts).ops.Wf
  := by
  induction acts generalizing b with
  | nil => apply wf
  | cons a acts ih => apply ih (step_wf wf a)

theorem wf_new (entities : { e : TaskId → Task // ∀ t, (e t).id = t }) :
  (new entities).ops.Wf
  := ProviderOps.wf_default

/-- The entity of a task after an event applied to it: what is put back is put back, and the
ledger is laid over it. -/
theorem entities_event (wf : b.ops.Wf) (task : TaskId) (event : OpEvent) :
  (machine.next b (.event task event)).entities task
    = (machine.next b (.event task event)).ops.overlay
        ((b.ops.pending.filter (b.ops.putsBack event)).foldl
          (fun e op => ProviderOps.restore op e) (b.entities task))
  := by
  change b.withEntity (b.ops.apply event (b.entities task)).2.1 task
    = (b.ops.apply event (b.entities task)).1.overlay _
  rw [withEntity, ProviderOps.apply_id, b.entities_id, Function.update_self]
  simp only [ProviderOps.apply, ProviderOps.react_eq wf.distinct]

/-- An entity an event is not applied to stays as it is. -/
theorem entities_event_of_ne (b : Board) {task t : TaskId} (h : t ≠ task) (event : OpEvent) :
  (machine.next b (.event task event)).entities t = b.entities t
  := by
  change b.withEntity (b.ops.apply event (b.entities task)).2.1 t = _
  rw [withEntity, ProviderOps.apply_id, b.entities_id, Function.update_of_ne h]

theorem entities_observed (b : Board) (task : Task) (now : Instant) :
  (machine.next b (.observed task now)).entities task.id
    = (machine.next b (.observed task now)).ops.overlay task
  := by
  change b.withEntity (b.ops.reconcileObservation task now).2 task.id = _
  rw [withEntity, ProviderOps.reconcileObservation_id, Function.update_self]
  rfl

theorem entities_observed_of_ne
    (b : Board) {task : Task} {t : TaskId} (h : t ≠ task.id) (now : Instant) :
  (machine.next b (.observed task now)).entities t = b.entities t
  := by
  change b.withEntity (b.ops.reconcileObservation task now).2 t = _
  rw [withEntity, ProviderOps.reconcileObservation_id, Function.update_of_ne h]

end Board

end Lazybox
