import Lazybox.Library.Keyed
import Lazybox.Library.Run
import Mathlib.Data.Finset.Basic
import Mathlib.Data.List.Nodup

/-!
# The provider operation ledger

A workspace keeps a ledger of the writes it asked a provider for and has not yet seen
confirmed.  An operation claims the fields it writes.  The ledger keeps one generation for each
field, which every request and every cancellation moves on; an operation is current while no
generation moved past the ones it recorded.

The ledger reacts to events about its operations and to observations of its entities, and lays
the desired values of its current operations over the entity concerned.

Instants are integers, in nanoseconds.  Operation identities and generations are counters that
never wrap in practice, so they are natural numbers.  Only the fields of a task that the ledger
reads or writes are kept.
-/

namespace Lazybox

abbrev Instant := ℤ

/-- A duration of so many seconds. -/
def seconds (n : ℤ) : ℤ := n * 1000000000

def MAX_ATTEMPTS : ℕ := 5

def SETTLE_DEADLINE : ℤ := seconds 600

/-- A fact on a provider entity that a write claims while it is in flight. -/
inductive MutationField where
  | assignees | labels | reviewers | state
deriving DecidableEq, Repr

namespace MutationField

def all : List MutationField := [.assignees, .labels, .reviewers, .state]

theorem mem_all (f : MutationField) : f ∈ all := by cases f <;> decide

end MutationField

inductive TaskState where
  | opened | inProgress | inReview | closed | merged | draft
deriving DecidableEq, Repr

structure TaskId where
  source : String
  key : String
deriving DecidableEq, Repr

structure Label where
  name : String
  color : String
deriving DecidableEq, Repr

def Label.new (name : String) : Label := ⟨name, ""⟩

structure StateWrite where
  state : TaskState
  label : Option String
deriving DecidableEq, Repr

structure Task where
  id : TaskId
  assignees : List String
  labels : List Label
  reviewers : List String
  state : TaskState
  stateLabel : Option String
  updatedAt : Instant
deriving DecidableEq, Repr

/-- Comparison of strings up to the case of ASCII letters. -/
def eqIgnoreAsciiCase (a b : String) : Bool :=
  a.toList.map Char.toLower == b.toList.map Char.toLower

/-! ### The values a write asks for -/

/-- The values a single write asks the provider to hold. -/
structure DesiredFields where
  assignees : Option (List String) := none
  labels : Option (List String) := none
  reviewers : Option (List String) := none
  state : Option StateWrite := none
deriving DecidableEq, Repr

namespace DesiredFields

/-- The fields a write claims. -/
def claimed (d : DesiredFields) : Finset MutationField :=
  (if d.assignees.isSome then {.assignees} else ∅)
    ∪ (if d.labels.isSome then {.labels} else ∅)
    ∪ (if d.reviewers.isSome then {.reviewers} else ∅)
    ∪ (if d.state.isSome then {.state} else ∅)

/-- The current values of a task for exactly the fields a write claims. -/
def observedCounterpart (d : DesiredFields) (task : Task) : DesiredFields where
  assignees := d.assignees.map fun _ => task.assignees
  labels := d.labels.map fun _ => task.labels.map Label.name
  reviewers := d.reviewers.map fun _ => task.reviewers
  state := d.state.map fun _ => ⟨task.state, task.stateLabel⟩

/-- Take each field not carried from another write. -/
def fillFrom (d other : DesiredFields) : DesiredFields where
  assignees := if d.assignees.isNone then other.assignees else d.assignees
  labels := if d.labels.isNone then other.labels else d.labels
  reviewers := if d.reviewers.isNone then other.reviewers else d.reviewers
  state := if d.state.isNone then other.state else d.state

/-- Keep only the fields named. -/
def restrictedTo (d : DesiredFields) (claimed : Finset MutationField) : DesiredFields where
  assignees := if .assignees ∈ claimed then d.assignees else none
  labels := if .labels ∈ claimed then d.labels else none
  reviewers := if .reviewers ∈ claimed then d.reviewers else none
  state := if .state ∈ claimed then d.state else none

end DesiredFields

/-! ### Operations -/

abbrev OperationId := ℕ

/-- Where an operation sits between acceptance and settlement. -/
inductive OpPhase where
  | accepted
  | sent
  | acked (at_ : Instant)
  | uncertain (since : Instant)
  | retryScheduled (notBefore : Instant)
deriving DecidableEq, Repr

namespace OpPhase

/-- The request may already have mutated remote state. -/
def reachedProvider : OpPhase → Bool
  | .sent | .acked _ | .uncertain _ => true
  | .accepted | .retryScheduled _ => false

/-- The instant from which an observation is new enough to settle the operation. -/
def settlesFrom (issuedAt : Instant) : OpPhase → Instant
  | .acked at_ => at_
  | .accepted | .sent | .uncertain _ | .retryScheduled _ => issuedAt

def isUncertain : OpPhase → Bool
  | .uncertain _ => true
  | .accepted | .sent | .acked _ | .retryScheduled _ => false

end OpPhase

/-- One accepted write which is not yet settled. -/
structure PendingMutation where
  id : OperationId
  task : TaskId
  desired : DesiredFields
  previous : DesiredFields
  claimed : MutationField → Option ℕ
  issuedAt : Instant
  phase : OpPhase
  attempts : ℕ

namespace PendingMutation

/-- An observation of the entity at some revision, read at `now`, ends the claim. -/
def settledBy (op : PendingMutation) (revision now : Instant) : Bool :=
  op.phase.isUncertain
    || decide (op.phase.settlesFrom op.issuedAt ≤ revision)
    || decide (SETTLE_DEADLINE ≤ now - op.issuedAt)

end PendingMutation

inductive FailureClass where
  | transient | rejected | uncertain
deriving DecidableEq, Repr

/-- Something that happened to an operation, or to the entity it targets. -/
inductive OpEvent where
  | requested (task : TaskId) (desired : DesiredFields) (now : Instant)
  | sent (id : OperationId)
  | acked (id : OperationId) (now : Instant)
  | failed (id : OperationId) (failure : FailureClass) (detail : String) (now : Instant)
  | cancelled (task : TaskId) (fields : Finset MutationField) (now : Instant)
deriving DecidableEq

/-- Work to be done after a transition is persisted. -/
inductive OpEffect where
  | send (id : OperationId)
  | reconcile (id : OperationId)
  | retry (id : OperationId) (notBefore : Instant)
  | report (id : OperationId) (message : String)
  | settled (id : OperationId)
deriving DecidableEq, Repr

/-- Seconds to wait before a transient failure is replayed. -/
def backoffSecs (attempt : ℕ) : ℤ := attempt * 15

/-- The ledger of in-flight provider intent. -/
structure ProviderOps where
  nextId : ℕ
  generations : MutationField → ℕ
  pending : List PendingMutation

namespace ProviderOps

def default : ProviderOps := ⟨0, fun _ => 0, []⟩

def get (ops : ProviderOps) (id : OperationId) : Option PendingMutation :=
  Keyed.lookup PendingMutation.id id ops.pending

/-- The operation still owns every field it claimed. -/
def isCurrent (ops : ProviderOps) (op : PendingMutation) : Bool :=
  MutationField.all.all fun f => (op.claimed f).all fun at_ => ops.generations f = at_

def remove (ops : ProviderOps) (id : OperationId) : ProviderOps :=
  { ops with pending := Keyed.erase PendingMutation.id id ops.pending }

/-- Change the operation of an identity in place, when the ledger has it. -/
def phaseMut (ops : ProviderOps) (id : OperationId)
    (change : PendingMutation → PendingMutation) : ProviderOps :=
  { ops with pending := Keyed.modifyFirst PendingMutation.id id change ops.pending }

/-- Put back what the provider last said about the fields of an operation. -/
def restore (op : PendingMutation) (entity : Task) : Task :=
  if op.task ≠ entity.id then entity else
    { entity with
      assignees := op.previous.assignees.getD entity.assignees
      labels := (op.previous.labels.map (List.map Label.new)).getD entity.labels
      reviewers := op.previous.reviewers.getD entity.reviewers
      state := (op.previous.state.map StateWrite.state).getD entity.state
      stateLabel := (op.previous.state.map StateWrite.label).getD entity.stateLabel }

/-- Move each field to its next generation. -/
def bump (ops : ProviderOps) (fields : Finset MutationField) : ProviderOps :=
  { ops with generations := fun f =>
      if f ∈ fields then ops.generations f + 1 else ops.generations f }

/-- The snapshot of the generations `bump` moves the fields to. -/
def bumped (ops : ProviderOps) (fields : Finset MutationField) : MutationField → Option ℕ :=
  fun f => if f ∈ fields then some (ops.generations f + 1) else none

/-- The baseline of a write: that of the pending writes for the fields they claim, and the
values the entity shows for the rest. -/
def baseline (ops : ProviderOps) (task : TaskId) (desired : DesiredFields) (entity : Task) :
    DesiredFields :=
  let inherited : DesiredFields := (ops.pending.filter fun op => op.task = task).foldl
    (fun previous op => previous.fillFrom (op.previous.restrictedTo desired.claimed)) {}
  inherited.fillFrom (desired.observedCounterpart entity)

/-- A pending operation a new request drops: it never reached the provider and speaks for a
field the request takes over. -/
def supersedes (task : TaskId) (fields : Finset MutationField) (op : PendingMutation) : Bool :=
  op.task = task && !op.phase.reachedProvider && !decide (Disjoint op.desired.claimed fields)

def onRequested (ops : ProviderOps) (task : TaskId) (desired : DesiredFields) (now : Instant)
    (entity : Task) : ProviderOps × List OpEffect :=
  let fields := desired.claimed
  if fields = ∅ then (ops, []) else
    let previous := ops.baseline task desired entity
    let claimed := ops.bumped fields
    let bumped := ops.bump fields
    let superseded := (bumped.pending.filter (supersedes task fields)).map PendingMutation.id
    let kept := superseded.foldl remove bumped
    let id := kept.nextId
    ({ kept with
        nextId := kept.nextId + 1
        pending := kept.pending ++ [⟨id, task, desired, previous, claimed, now, .accepted, 0⟩] },
      superseded.map .settled ++ [.send id])

def onFailed (ops : ProviderOps) (id : OperationId) (failure : FailureClass) (detail : String)
    (now : Instant) (entity : Task) : ProviderOps × Task × List OpEffect :=
  match ops.get id with
  | none => (ops, entity, [])
  | some op =>
      if failure = .uncertain then
        (ops.phaseMut id fun op => { op with phase := .uncertain now }, entity, [.reconcile id])
      else if !ops.isCurrent op then
        (ops.remove id, restore op entity, [.settled id])
      else if failure = .transient ∧ op.attempts + 1 < MAX_ATTEMPTS then
        let attempts := op.attempts + 1
        let notBefore := now + seconds (backoffSecs attempts)
        (ops.phaseMut id fun op =>
            { op with attempts := attempts, phase := .retryScheduled notBefore },
          entity, [.retry id notBefore])
      else
        (ops.remove id, restore op entity, [.report id detail, .settled id])

/-- A pending operation a cancellation is about. -/
def affected (task : TaskId) (fields : Finset MutationField) (op : PendingMutation) : Bool :=
  op.task = task && !decide (Disjoint op.desired.claimed fields)

/-- What a cancellation does with the operations it is about, one after another. -/
def cancelEach : List PendingMutation → ProviderOps → Task → ProviderOps × Task × List OpEffect
  | [], ops, entity => (ops, entity, [])
  | op :: rest, ops, entity =>
      if op.phase.reachedProvider then
        let (ops, entity, effects) := cancelEach rest ops entity
        (ops, entity, .reconcile op.id :: effects)
      else
        let (ops, entity, effects) := cancelEach rest (ops.remove op.id) (restore op entity)
        (ops, entity, .settled op.id :: effects)

def onCancelled (ops : ProviderOps) (task : TaskId) (fields : Finset MutationField)
    (entity : Task) : ProviderOps × Task × List OpEffect :=
  if fields = ∅ then (ops, entity, []) else
    let bumped := ops.bump fields
    cancelEach (bumped.pending.filter (affected task fields)) bumped entity

/-- Lay the desired values of one write over a task. -/
def paint (task : Task) (desired : DesiredFields) : Task :=
  { task with
    assignees := desired.assignees.getD task.assignees
    labels := (desired.labels.map (List.map fun name =>
        (task.labels.find? fun existing => eqIgnoreAsciiCase existing.name name).getD
          (Label.new name))).getD task.labels
    reviewers := desired.reviewers.getD task.reviewers
    state := (desired.state.map StateWrite.state).getD task.state
    stateLabel := (desired.state.map StateWrite.label).getD task.stateLabel }

/-- Lay the desired values of the current operations over a task. -/
def overlay (ops : ProviderOps) (task : Task) : Task :=
  ((ops.pending.filter fun op => op.task = task.id).filter fun op => ops.isCurrent op).foldl
    (fun task op => paint task op.desired) task

def react (ops : ProviderOps) (entity : Task) : OpEvent → ProviderOps × Task × List OpEffect
  | .requested task desired now =>
      let (ops, effects) := ops.onRequested task desired now entity
      (ops, entity, effects)
  | .sent id => (ops.phaseMut id fun op => { op with phase := .sent }, entity, [])
  | .acked id now => (ops.phaseMut id fun op => { op with phase := .acked now }, entity, [])
  | .failed id failure detail now => ops.onFailed id failure detail now entity
  | .cancelled task fields _ => ops.onCancelled task fields entity

/-- The reaction to an event about the entity: the ledger and the entity after it, and the work
it asks for. -/
def apply (ops : ProviderOps) (event : OpEvent) (entity : Task) :
    ProviderOps × Task × List OpEffect :=
  let (ops, entity, effects) := ops.react entity event
  (ops, ops.overlay entity, effects)

/-- An operation re-adopted after a restart. -/
def recoverOp (now : Instant) (op : PendingMutation) : PendingMutation :=
  match op.phase with
  | .sent | .uncertain _ => { op with phase := .uncertain now }
  | .accepted | .acked _ | .retryScheduled _ => op

/-- What a restart re-issues of an operation. -/
def recoverEffects (now : Instant) (op : PendingMutation) : List OpEffect :=
  match op.phase with
  | .accepted => [.send op.id]
  | .sent | .uncertain _ => [.reconcile op.id]
  | .acked _ => []
  | .retryScheduled notBefore => [.retry op.id (max notBefore now)]

/-- Re-adopt a persisted ledger after a restart. -/
def recover (ops : ProviderOps) (now : Instant) : ProviderOps × List OpEffect :=
  ({ ops with pending := ops.pending.map (recoverOp now) },
    ops.pending.flatMap (recoverEffects now))

/-- Fold a fresh observation of a task into the ledger, and lay over it the intent it has not
caught up with. -/
def reconcileObservation (ops : ProviderOps) (task : Task) (now : Instant) :
    ProviderOps × Task :=
  let unsettled :=
    ops.pending.filter fun op => op.task ≠ task.id || !op.settledBy task.updatedAt now
  let refreshed := unsettled.map fun op =>
    if op.task = task.id then { op with previous := op.desired.observedCounterpart task } else op
  let ops := { ops with pending := refreshed }
  (ops, ops.overlay task)

end ProviderOps

end Lazybox
