import Lazybox.Core.ProviderBoard

/-!
# The coordinator of provider operations

Every request, cancellation and restart feeds an event to the ledger of its workspace, stores
the result and then drives the work the ledger asked for.  Issuing a write is four separate
steps: look the operation up, build the provider's client, record that the write is sent, and
dispatch it; its outcome is fed back as the next event.  Drives of one workspace run
concurrently, polls come in between, storing can fail at each transition, and a crash ends
every drive.  A write of several fields is several calls of the provider, one after another.

A step of the daemon is one of these steps.  What the environment decides is part of the
action: whether a read finds the workspace, whether a transition is stored, whether a client
can be built and what the provider answers.
-/

namespace Lazybox

/-- Where a drive stands in the effect it took from its queue. -/
inductive Stage where
  | idle
  /-- The operation was looked up; its client is being built. -/
  | loaded (op : PendingMutation)
  /-- The client is built. -/
  | built (op : PendingMutation)
  /-- The operation was recorded as sent, as far as that was stored; the writes of these fields
  are still to be dispatched. -/
  | marked (op : PendingMutation) (left : List MutationField)
  /-- A write was dispatched and its outcome is awaited, before those of these fields. -/
  | inFlight (op : PendingMutation) (left : List MutationField)
  /-- The entity of an operation is being read again. -/
  | refetching (task : TaskId)

/-- The operation a drive is issuing. -/
def Stage.op? : Stage → Option PendingMutation
  | .loaded op | .built op | .marked op _ | .inFlight op _ => some op
  | .idle | .refetching _ => none

/-- The operation a drive recorded as sent and still has writes of to dispatch. -/
def Stage.sending? : Stage → Option PendingMutation
  | .marked op _ | .inFlight op (_ :: _) => some op
  | .idle | .loaded _ | .built _ | .inFlight _ [] | .refetching _ => none

/-- The fields of a write, in the order they are written in. -/
def DesiredFields.writes (d : DesiredFields) : List MutationField :=
  (if d.assignees.isSome then [.assignees] else [])
    ++ (if d.labels.isSome then [.labels] else [])
    ++ (if d.reviewers.isSome then [.reviewers] else [])
    ++ (if d.state.isSome then [.state] else [])

/-- One run of the effects of a transition. -/
structure Drive where
  queue : List OpEffect
  stage : Stage

/-- A workspace as it is stored, and the drives under way. -/
structure Daemon where
  board : Board
  /-- The tasks the workspace holds. -/
  held : TaskId → Bool
  drives : List Drive

namespace Daemon

inductive Act where
  | request (task : TaskId) (desired : DesiredFields) (now : Instant) (stored : Bool)
  | cancel (task : TaskId) (fields : Finset MutationField) (now : Instant) (stored : Bool)
  | recover (now : Instant) (found stored : Bool)
  | observe (task : Task) (now : Instant) (stored : Bool)
  /-- Another pull request takes the slot of a task. -/
  | detach (task : TaskId)
  /-- A drive takes the next effect of its queue. -/
  | take (drive : ℕ) (found : Bool)
  | build (drive : ℕ) (failure : Option String) (now : Instant) (stored : Bool)
  | mark (drive : ℕ) (stored : Bool)
  | dispatch (drive : ℕ)
  /-- The provider's answer to a write: an error is retryable or not, and has a text. -/
  | answer (drive : ℕ) (error : Option (Bool × String)) (now : Instant) (stored : Bool)
  | refetched (drive : ℕ) (task : Option Task) (now : Instant) (stored : Bool)
  | crash

/-- What is seen of a step: the effects of a transition, and the write of a field dispatched
while the stored ledger is as given. -/
inductive Obs where
  | transition (effects : List OpEffect)
  | dispatched (op : PendingMutation) (field : MutationField) (ledger : ProviderOps)

/-- How a failed write is treated. -/
def classify (retryable : Bool) : FailureClass := if retryable then .transient else .rejected

/-- Feed one event to the ledger and store the result.  A transition that is not stored is not
acted on; without its entity an event is not applied. -/
def transition (d : Daemon) (task : TaskId) (event : OpEvent) (stored : Bool) :
    Board × List OpEffect :=
  if stored && d.held task then d.board.step (.event task event) else (d.board, [])

/-- A drive put in the place of another. -/
def withDrive (d : Daemon) (i : ℕ) (drive : Drive) : Daemon :=
  { d with drives := d.drives.set i drive }

/-- A poll of a task is folded into the workspace. -/
def observed (d : Daemon) (task : Task) (now : Instant) (stored : Bool) : Daemon :=
  if stored then
    { d with
      board := (d.board.step (.observed task now)).1
      held := Function.update d.held task.id true }
  else d

/-- A drive takes an effect. -/
def takeEffect (d : Daemon) (i : ℕ) (effect : OpEffect) (rest : List OpEffect) (found : Bool) :
    Daemon :=
  match effect, found with
  | .send id, true | .retry id _, true =>
      match d.board.ops.get id with
      | some op => d.withDrive i ⟨rest, .loaded op⟩
      | none => d.withDrive i ⟨rest, .idle⟩
  | .reconcile id, true =>
      match d.board.ops.get id with
      | some op => d.withDrive i ⟨rest, .refetching op.task⟩
      | none => d.withDrive i ⟨rest, .idle⟩
  | .send _, false | .retry _ _, false | .reconcile _, false | .report _ _, _ | .settled _, _ =>
      d.withDrive i ⟨rest, .idle⟩

/-- The event an answer of the provider is fed back as. -/
def answerEvent (op : PendingMutation) (error : Option (Bool × String)) (now : Instant) :
    OpEvent :=
  match error with
  | none => .acked op.id now
  | some (retryable, detail) => .failed op.id (classify retryable) detail now

/-- One step of the drive at a place, when it stands where the step starts from. -/
def driveStep (d : Daemon) (i : ℕ) (drive : Drive) : Act → Daemon × List Obs
  | .take _ found =>
      match drive.stage, drive.queue with
      | .idle, effect :: rest => (d.takeEffect i effect rest found, [])
      | _, _ => (d, [])
  | .build _ failure now stored =>
      match drive.stage, failure with
      | .loaded op, none => (d.withDrive i ⟨drive.queue, .built op⟩, [])
      | .loaded op, some detail =>
          let (board, effects) := d.transition op.task (.failed op.id .rejected detail now) stored
          ({ d with board := board }.withDrive i ⟨drive.queue ++ effects, .idle⟩,
            [.transition effects])
      | _, _ => (d, [])
  | .mark _ stored =>
      match drive.stage with
      | .built op =>
          let (board, effects) := d.transition op.task (.sent op.id) stored
          ({ d with board := board }.withDrive i ⟨drive.queue, .marked op op.desired.writes⟩,
            [.transition effects])
      | _ => (d, [])
  | .dispatch _ =>
      match drive.stage with
      | .marked op [] => (d.withDrive i ⟨drive.queue, .inFlight op []⟩, [])
      | .marked op (field :: left) =>
          (d.withDrive i ⟨drive.queue, .inFlight op left⟩, [.dispatched op field d.board.ops])
      | _ => (d, [])
  | .answer _ error now stored =>
      match drive.stage, error with
      | .inFlight op (field :: left), none =>
          (d.withDrive i ⟨drive.queue, .marked op (field :: left)⟩, [])
      | .inFlight op _, error =>
          let (board, effects) := d.transition op.task (answerEvent op error now) stored
          ({ d with board := board }.withDrive i ⟨drive.queue ++ effects, .idle⟩,
            [.transition effects])
      | _, _ => (d, [])
  | .refetched _ task now stored =>
      match drive.stage, task with
      | .refetching _, some task =>
          ((d.observed task now stored).withDrive i ⟨drive.queue, .idle⟩, [])
      | .refetching _, none => (d.withDrive i ⟨drive.queue, .idle⟩, [])
      | _, _ => (d, [])
  | .request _ _ _ _ | .cancel _ _ _ _ | .recover _ _ _ | .observe _ _ _ | .detach _ | .crash =>
      (d, [])

/-- A transition whose effects a new drive runs. -/
def startDrive (d : Daemon) (task : TaskId) (event : OpEvent) (stored : Bool) :
    Daemon × List Obs :=
  let (board, effects) := d.transition task event stored
  ({ d with board := board, drives := d.drives ++ [⟨effects, .idle⟩] }, [.transition effects])

def step (d : Daemon) (a : Act) : Daemon × List Obs :=
  match a with
  | .request task desired now stored =>
      if desired.claimed = ∅ then (d, [])
      else d.startDrive task (.requested task desired now) stored
  | .cancel task fields now stored => d.startDrive task (.cancelled task fields now) stored
  | .recover now found stored =>
      -- the effects are driven whether or not the commit succeeds
      if found then
        ({ d with
            board := if stored then (d.board.step (.recovered now)).1 else d.board
            drives := d.drives ++ [⟨(d.board.ops.recover now).2, .idle⟩] }, [])
      else (d, [])
  | .observe task now stored => (d.observed task now stored, [])
  | .detach task => ({ d with held := Function.update d.held task false }, [])
  | .crash => ({ d with drives := [] }, [])
  | .take i _ | .build i _ _ _ | .mark i _ | .dispatch i | .answer i _ _ _
  | .refetched i _ _ _ =>
      match d.drives[i]? with
      | some drive => d.driveStep i drive a
      | none => (d, [])

def machine : Machine Daemon Act Obs := ⟨step⟩

/-- A workspace with an empty ledger, and no drives. -/
def new (entities : { e : TaskId → Task // ∀ t, (e t).id = t }) (held : TaskId → Bool) : Daemon :=
  ⟨Board.new entities, held, []⟩

end Daemon

end Lazybox
