import Lazybox.Core.ProviderFields

/-!
# What a step does to the ledger

The reducer changes its list of operations in place, by identity.  Since the identities of
pending operations are distinct, every reaction is pointwise: an event has a `fate` for each
pending operation, the operation it becomes or none when it leaves, and `traces`, the work it
asks for because of that operation; a request also admits one operation.

`Wf` is what holds of every ledger the code can build: the identities are distinct and were
given out by the ledger, an operation recorded a generation for exactly the fields it claims,
and no two operations recorded the same generation of a field.
-/

namespace Lazybox

namespace ProviderOps

/-! ### The reaction to an event, operation by operation -/

/-- What becomes of a pending operation in the reaction to an event. -/
def fate (ops : ProviderOps) (event : OpEvent) (op : PendingMutation) : Option PendingMutation :=
  match event with
  | .requested task desired _ => if supersedes task desired.claimed op then none else some op
  | .sent id => some (if op.id = id then { op with phase := .sent } else op)
  | .acked id now => some (if op.id = id then { op with phase := .acked now } else op)
  | .failed id failure _ now =>
      if op.id ≠ id then some op
      else if failure = .uncertain then some { op with phase := .uncertain now }
      else if !ops.isCurrent op then none
      else if failure = .transient ∧ op.attempts + 1 < MAX_ATTEMPTS then
        some { op with
          attempts := op.attempts + 1
          phase := .retryScheduled (now + seconds (backoffSecs (op.attempts + 1))) }
      else none
  | .cancelled task fields _ =>
      if affected task fields op && !op.phase.reachedProvider then none else some op

/-- The work an event asks for because of a pending operation. -/
def traces (ops : ProviderOps) (event : OpEvent) (op : PendingMutation) : List OpEffect :=
  match event with
  | .requested task desired _ =>
      if supersedes task desired.claimed op then [.settled op.id] else []
  | .sent _ | .acked _ _ => []
  | .failed id failure detail now =>
      if op.id = id then
        if failure = .uncertain then [.reconcile id]
        else if !ops.isCurrent op then [.settled id]
        else if failure = .transient ∧ op.attempts + 1 < MAX_ATTEMPTS then
          [.retry id (now + seconds (backoffSecs (op.attempts + 1)))]
        else [.report id detail, .settled id]
      else []
  | .cancelled task fields _ =>
      if affected task fields op then
        if op.phase.reachedProvider then [.reconcile op.id] else [.settled op.id]
      else []

/-- The operation an event admits. -/
def admitted (ops : ProviderOps) (entity : Task) : OpEvent → List PendingMutation
  | .requested task desired now =>
      if desired.claimed = ∅ then [] else
        [⟨ops.nextId, task, desired, ops.baseline task desired entity,
          ops.bumped desired.claimed, now, .accepted, 0⟩]
  | .sent _ | .acked _ _ | .failed _ _ _ _ | .cancelled _ _ _ => []

/-- The fields whose generation an event moves on. -/
def touched : OpEvent → Finset MutationField
  | .requested _ desired _ => desired.claimed
  | .cancelled _ fields _ => fields
  | .sent _ | .acked _ _ | .failed _ _ _ _ => ∅

/-- An operation which leaves on an event is put back to what the provider last said, unless a
request takes its place. -/
def putsBack (ops : ProviderOps) (event : OpEvent) (op : PendingMutation) : Bool :=
  match event with
  | .failed _ _ _ _ | .cancelled _ _ _ => (ops.fate event op).isNone
  | .requested _ _ _ | .sent _ | .acked _ _ => false

/-- The ledger after an event, operation by operation. -/
def after (ops : ProviderOps) (entity : Task) (event : OpEvent) : ProviderOps where
  nextId := ops.nextId + (ops.admitted entity event).length
  generations := (ops.bump (touched event)).generations
  pending := ops.pending.filterMap (ops.fate event) ++ ops.admitted entity event

variable (ops : ProviderOps)

@[simp]
theorem bump_nextId (fields : Finset MutationField) :
  (ops.bump fields).nextId = ops.nextId
  := rfl

@[simp]
theorem bump_pending (fields : Finset MutationField) :
  (ops.bump fields).pending = ops.pending
  := rfl

theorem bump_empty : ops.bump ∅ = ops := by
  simp [bump]

theorem affected_iff {task : TaskId} {fields : Finset MutationField} {op : PendingMutation} :
  affected task fields op = true ↔ op.task = task ∧ ¬ Disjoint op.desired.claimed fields
  := by
  simp [affected]

theorem supersedes_iff {task : TaskId} {fields : Finset MutationField} {op : PendingMutation} :
  supersedes task fields op = true
    ↔ op.task = task ∧ op.phase.reachedProvider = false
      ∧ ¬ Disjoint op.desired.claimed fields
  := by
  simp [supersedes, and_assoc]

theorem not_affected_empty (task : TaskId) (op : PendingMutation) :
  affected task ∅ op = false
  := by
  simp [affected]

theorem not_supersedes_empty (task : TaskId) (op : PendingMutation) :
  supersedes task ∅ op = false
  := by
  simp [supersedes]

theorem foldl_remove (ids : List OperationId) :
  ids.foldl remove ops
    = ⟨ops.nextId, ops.generations,
        ids.foldl (fun l id => Keyed.erase PendingMutation.id id l) ops.pending⟩
  := by
  induction ids generalizing ops with
  | nil => rfl
  | cons id ids ih => rw [List.foldl_cons, ih, remove, List.foldl_cons]

/-- What is collected at the elements chosen by `p`, in the order of the list. -/
theorem map_filter_eq_flatMap {α β : Type} (p : α → Bool) (g : α → β) (l : List α) :
  (l.filter p).map g = l.flatMap fun a => if p a then [g a] else []
  := by
  induction l with
  | nil => rfl
  | cons a rest ih =>
    cases hp : p a <;> simp [hp, ih]

/-- What a cancellation does with the operations it is about: those that reached the provider
stay, the others are restored and removed. -/
theorem cancelEach_eq (entity : Task) (l : List PendingMutation) :
  cancelEach l ops entity
    = (((l.filter fun op => !op.phase.reachedProvider).map PendingMutation.id).foldl remove ops,
        (l.filter fun op => !op.phase.reachedProvider).foldl (fun e op => restore op e) entity,
        l.map fun op => if op.phase.reachedProvider then .reconcile op.id else .settled op.id)
  := by
  induction l generalizing ops entity with
  | nil => rfl
  | cons op rest ih =>
    rw [cancelEach]
    cases hreached : op.phase.reachedProvider <;> simp [hreached, ih]

section Pointwise

variable {ops : ProviderOps} (distinct : (ops.pending.map PendingMutation.id).Nodup)
include distinct

theorem phaseMut_eq (id : OperationId) (change : PendingMutation → PendingMutation) :
  ops.phaseMut id change
    = ⟨ops.nextId, ops.generations,
        ops.pending.filterMap fun op => some (if op.id = id then change op else op)⟩
  := by
  rw [phaseMut, Keyed.modifyFirst_eq_map distinct, ← List.filterMap_eq_map]
  rfl

theorem onRequested_eq (task : TaskId) (desired : DesiredFields) (now : Instant) (entity : Task) :
  ops.onRequested task desired now entity
    = (ops.after entity (.requested task desired now),
        ops.pending.flatMap (ops.traces (.requested task desired now))
          ++ (ops.admitted entity (.requested task desired now)).map fun op => .send op.id)
  := by
  have hkept : ops.pending.filterMap (ops.fate (.requested task desired now))
      = ops.pending.filter fun op => !supersedes task desired.claimed op := by
    apply List.filterMap_ite_none
  have htraces : ops.pending.flatMap (ops.traces (.requested task desired now))
      = (ops.pending.filter (supersedes task desired.claimed)).map
          fun op => OpEffect.settled op.id := by
    rw [map_filter_eq_flatMap]
    rfl
  rw [onRequested, after, hkept, htraces]
  by_cases hempty : desired.claimed = ∅
  · simp [hempty, admitted, touched, not_supersedes_empty, bump_empty]
  · simp [hempty, admitted, touched, foldl_remove, ← Keyed.foldl_erase_filter distinct]

theorem onCancelled_eq (task : TaskId) (fields : Finset MutationField) (now : Instant)
    (entity : Task) :
  ops.onCancelled task fields entity
    = (ops.after entity (.cancelled task fields now),
        (ops.pending.filter (ops.putsBack (.cancelled task fields now))).foldl
          (fun e op => restore op e) entity,
        ops.pending.flatMap (ops.traces (.cancelled task fields now)))
  := by
  have hkept : ops.pending.filterMap (ops.fate (.cancelled task fields now))
      = ops.pending.filter
          fun op => !(affected task fields op && !op.phase.reachedProvider) := by
    apply List.filterMap_ite_none
  have hback : ops.putsBack (.cancelled task fields now)
      = fun op => affected task fields op && !op.phase.reachedProvider := by
    funext op
    simp only [putsBack, fate]
    split <;> simp_all
  have htraces : ops.pending.flatMap (ops.traces (.cancelled task fields now))
      = (ops.pending.filter (affected task fields)).map fun op =>
          if op.phase.reachedProvider then OpEffect.reconcile op.id else .settled op.id := by
    rw [map_filter_eq_flatMap]
    apply List.flatMap_congr
    intro op _
    simp only [traces]
    split_ifs <;> rfl
  rw [onCancelled, after, hkept, hback, htraces]
  by_cases hempty : fields = ∅
  · simp [hempty, admitted, touched, not_affected_empty, bump_empty]
  · rw [← Keyed.foldl_erase_filter distinct]
    simp [hempty, cancelEach_eq, foldl_remove, admitted, touched, Bool.and_comm]

theorem onFailed_eq (id : OperationId) (failure : FailureClass) (detail : String)
    (now : Instant) (entity : Task) :
  ops.onFailed id failure detail now entity
    = (ops.after entity (.failed id failure detail now),
        (ops.pending.filter (ops.putsBack (.failed id failure detail now))).foldl
          (fun e op => restore op e) entity,
        ops.pending.flatMap (ops.traces (.failed id failure detail now)))
  := by
  set e := OpEvent.failed id failure detail now with he
  have hfate : ∀ op ∈ ops.pending, op.id ≠ id → ops.fate e op = some op := by
    intro op _ hne
    rw [he, fate, if_pos hne]
  have hback : ∀ op ∈ ops.pending, op.id ≠ id → ops.putsBack e op = false := by
    intro op hop hne
    change (ops.fate e op).isNone = false
    rw [hfate op hop hne]
    rfl
  have htraces : ∀ op ∈ ops.pending, op.id ≠ id → ops.traces e op = [] := by
    intro op _ hne
    rw [he, traces, if_neg hne]
  cases hget : ops.get id with
  | none =>
    have hne := Keyed.lookup_eq_none.mp hget
    have hkept : ops.pending.filterMap (ops.fate e) = ops.pending := by
      rw [List.filterMap_congr fun op hop => hfate op hop (hne op hop), List.filterMap_some]
    have hnone : ops.pending.filter (ops.putsBack e) = [] := by
      rw [List.filter_eq_nil_iff]
      intro op hop
      simp [hback op hop (hne op hop)]
    have hquiet : ops.pending.flatMap (ops.traces e) = [] := by
      rw [List.flatMap_eq_nil_iff]
      intro op hop
      apply htraces op hop (hne op hop)
    rw [onFailed, hget, after, hkept, hnone, hquiet]
    simp [he, admitted, touched, bump_empty]
  | some op =>
    have hid := (Keyed.lookup_eq_some hget).2
    have hfilter : ops.pending.filter (ops.putsBack e)
        = if (ops.fate e op).isNone then [op] else [] := by
      rw [← List.map_id (ops.pending.filter _), map_filter_eq_flatMap,
        Keyed.flatMap_eq_of_key distinct hget]
      · rfl
      · intro op' hop' hne
        rw [if_neg]
        simp [hback op' hop' hne]
    rw [onFailed, hget, Keyed.flatMap_eq_of_key distinct hget _ htraces, hfilter, after]
    by_cases hu : failure = .uncertain
    · have hop : ops.fate e op = some { op with phase := .uncertain now } := by
        simp [he, fate, hid, hu]
      rw [Keyed.filterMap_eq_modifyFirst distinct hget
        (fun op => { op with phase := .uncertain now }) hop hfate, hop]
      simp [he, hu, traces, hid, admitted, touched, bump_empty, phaseMut]
    · by_cases hc : ops.isCurrent op = true
      · by_cases ht : failure = .transient ∧ op.attempts + 1 < MAX_ATTEMPTS
        · have hop : ops.fate e op = some { op with
              attempts := op.attempts + 1
              phase := .retryScheduled (now + seconds (backoffSecs (op.attempts + 1))) } := by
            simp [he, fate, hid, hc, ht]
          rw [Keyed.filterMap_eq_modifyFirst distinct hget
            (fun op' => { op' with
              attempts := op.attempts + 1
              phase := .retryScheduled (now + seconds (backoffSecs (op.attempts + 1))) })
            hop hfate, hop]
          simp [he, ht, hc, traces, hid, admitted, touched, bump_empty, phaseMut]
        · have hop : ops.fate e op = none := by
            simp [he, fate, hid, hu, hc, ht]
          rw [Keyed.filterMap_eq_erase distinct hget hop hfate, hop]
          simp [he, hu, hc, ht, traces, hid, admitted, touched, bump_empty, remove]
      · have hop : ops.fate e op = none := by
          simp [he, fate, hid, hu, hc]
        rw [Keyed.filterMap_eq_erase distinct hget hop hfate, hop]
        simp [he, hu, hc, traces, hid, admitted, touched, bump_empty, remove]

/-- The reaction to an event, operation by operation. -/
theorem react_eq (entity : Task) (event : OpEvent) :
  ops.react entity event
    = (ops.after entity event,
        (ops.pending.filter (ops.putsBack event)).foldl (fun e op => restore op e) entity,
        ops.pending.flatMap (ops.traces event)
          ++ (ops.admitted entity event).map fun op => .send op.id)
  := by
  cases event with
  | requested task desired now =>
    have hback : ops.pending.filter (ops.putsBack (.requested task desired now)) = [] :=
      List.filter_eq_nil_iff.mpr fun op _ => by simp [putsBack]
    rw [react, onRequested_eq distinct, hback]
    rfl
  | sent id =>
    have hback : ops.pending.filter (ops.putsBack (.sent id)) = [] :=
      List.filter_eq_nil_iff.mpr fun op _ => by simp [putsBack]
    have hquiet : ops.pending.flatMap (ops.traces (.sent id)) = [] :=
      List.flatMap_eq_nil_iff.mpr fun _ _ => rfl
    rw [react, phaseMut_eq distinct, hback, hquiet, after, touched, bump_empty, admitted,
      List.append_nil]
    rfl
  | acked id now =>
    have hback : ops.pending.filter (ops.putsBack (.acked id now)) = [] :=
      List.filter_eq_nil_iff.mpr fun op _ => by simp [putsBack]
    have hquiet : ops.pending.flatMap (ops.traces (.acked id now)) = [] :=
      List.flatMap_eq_nil_iff.mpr fun _ _ => rfl
    rw [react, phaseMut_eq distinct, hback, hquiet, after, touched, bump_empty, admitted,
      List.append_nil]
    rfl
  | failed id failure detail now =>
    rw [react, onFailed_eq distinct]
    simp [admitted]
  | cancelled task fields now =>
    rw [react, onCancelled_eq distinct task fields now]
    simp [admitted]

end Pointwise

end ProviderOps

end Lazybox
