import Lazybox.Core.MergePolicy

/-!
# Merging on green

The daemon merges the pull request of an armed workspace once it is ready.  Every committed row
is a signal: fire, hold or release.  A latch for each workspace decides whether a signal to fire
dispatches an attempt.  An attempt runs on its own: it reads the workspace again, fetches the
pull request anew, checks all gates on what it fetched, merges, and at each of its exits settles
the latch.

What the environment decides is part of an action: what the epics say about a workspace that
would fire, and what an attempt is answered.  The head of the pull request is not on a row; it
stands on the commit of a row so that it can be spoken of.
-/

namespace Lazybox

inductive Latch where
  | inFlight
  | done (head : Option String)
  | blocked (head : Option String)
  | rejected (head : Option String)
deriving DecidableEq, Repr

/-- The head an attempt settled on. -/
def Latch.settledOn : Latch → Option (Option String)
  | .inFlight => none
  | .done head | .blocked head | .rejected head => some head

structure AutoMergeMemory where
  latches : WorkspaceKey → Option Latch
  attemptsStarted : ℕ

namespace AutoMergeMemory

def new : AutoMergeMemory where
  latches := fun _ => none
  attemptsStarted := 0

def latch (memory : AutoMergeMemory) (key : WorkspaceKey) : Option Latch :=
  memory.latches key

def settle (memory : AutoMergeMemory) (key : WorkspaceKey) (latch : Option Latch) :
    AutoMergeMemory :=
  { memory with latches := Function.update memory.latches key latch }

end AutoMergeMemory

inductive Signal where
  | fire | hold | release
deriving DecidableEq, Repr

def signalFor (ws : Workspace) : Signal :=
  let terminal := ws.pr.any fun pr => pr.state = .merged || pr.state = .closed
  if !ws.autoMergeOnGreen || ws.pr.isNone || terminal then .release
  else if shouldAutoMerge ws .allowAll then .fire
  else .hold

structure AttemptPlan where
  workspaceKey : WorkspaceKey
  /-- A head a merge of which was rejected. -/
  skipIfHead : Option String
  /-- The latch to put back when the attempt finds nothing out. -/
  restore : Option Latch
deriving DecidableEq, Repr

/-- The attempt a key is marked in flight for. -/
def AutoMergeMemory.dispatch
    (memory : AutoMergeMemory) (key : WorkspaceKey) (skipIfHead : Option String)
    (restore : Option Latch) : AutoMergeMemory × Option AttemptPlan :=
  let memory := memory.settle key (some .inFlight)
  ({ memory with attemptsStarted := memory.attemptsStarted + 1 },
    some ⟨key, skipIfHead, restore⟩)

def plan (memory : AutoMergeMemory) (key : WorkspaceKey) (signal : Signal) (changed : Bool) :
    AutoMergeMemory × Option AttemptPlan :=
  match signal with
  | .release => (memory.settle key none, none)
  | .hold => (memory, none)
  | .fire =>
      match memory.latch key with
      | none => memory.dispatch key none none
      | some .inFlight | some (.done _) => (memory, none)
      | some (.blocked head) =>
          if changed then memory.dispatch key none (some (.blocked head)) else (memory, none)
      | some (.rejected head) =>
          if changed then memory.dispatch key head (some (.rejected head)) else (memory, none)

/-- What the epics say about a workspace that would fire. -/
structure EpicHolds where
  reviewBlocksMerge : Bool
  heldBy : Except String (List WorkspaceKey)

/-- The signal of a row, under the holds of its epics.  An epic graph that cannot be read
holds. -/
def EpicHolds.signal (holds : EpicHolds) (signal : Signal) : Signal :=
  if signal ≠ .fire then signal
  else if holds.reviewBlocksMerge then .hold
  else match holds.heldBy with
  | .ok [] => .fire
  | .ok (_ :: _) => .hold
  | .error _ => .hold

/-! ### An attempt -/

inductive TrailerOutcome where
  | recorded
  | dropped (reason : String)

inductive MergeOutcome where
  | merged (trailers : TrailerOutcome)
  | queued

/-- A refused merge: whether it can be retried, its full text, and the text shown to the
user. -/
structure MergeError where
  isRetryable : Bool
  diagnostic : String
  humanized : String

inductive AutoMergeEvent where
  | providerErrorRetryable (source message : String)
  | prQueued (key : WorkspaceKey) (prLabel : String)
  | prMerged (key : WorkspaceKey) (prLabel : String)
  | prMergeFailed (key : WorkspaceKey) (prLabel reason : String) (conflict : Bool)

/-- What an attempt is answered, in the order it asks. -/
structure Answers where
  /-- The workspace as it is stored when the attempt starts. -/
  stored : Option Workspace
  client : Bool
  /-- The workspace as it is stored once a client is found. -/
  ws : Option Workspace
  pausedUntil : Option Instant
  fetched : Except String (Option (PullRequest × Option String))
  approval : Except String ApprovalPolicy
  policy : MergeOnGreenPolicy
  stacked : Bool
  merge : Except MergeError MergeOutcome

/-- How an attempt ends: the latch it leaves, what it tells the clients, and the pull request
it stores. -/
structure AttemptOutcome where
  latch : Option Latch
  events : List AutoMergeEvent
  fresh : Option PullRequest

/-- An attempt which has nothing to tell. -/
def AttemptOutcome.quiet (latch : Option Latch) : AttemptOutcome := ⟨latch, [], none⟩

def isAlreadyInMergeQueue (lower : List Char) : Bool :=
  decide ("is in the merge queue".toList <:+: lower)
    || decide ("already in the merge queue".toList <:+: lower)

/-- A merge was refused for a reason that can clear without a new commit. -/
def transientMergeRejection (message : String) : Bool :=
  let lower := toAsciiLowercase message.toList
  ["status check", "branch was modified", "changes requested", "approving review",
      "review is required", "merge already in progress"].any
        (fun marker => decide (marker.toList <:+: lower))
    || isAlreadyInMergeQueue lower

/-- The end of an attempt whose merge was answered. -/
def mergeAnswered (key : WorkspaceKey) (prLabel : String) (fresh : PullRequest)
    (head : Option String) : Except MergeError MergeOutcome → AttemptOutcome
  | .ok .queued =>
      ⟨some (.done head), [.prQueued key prLabel], some { fresh with isInMergeQueue := true }⟩
  | .ok (.merged trailers) =>
      let dropped := match trailers with
        | .recorded => []
        | .dropped reason => [.providerErrorRetryable "auto-merge"
            ("auto-merged " ++ prLabel ++ ", but the cost record was not written: " ++ reason)]
      ⟨some (.done head), dropped ++ [.prMerged key prLabel], none⟩
  | .error e =>
      if e.isRetryable then ⟨none, [], some fresh⟩
      else
        let latch := if transientMergeRejection e.diagnostic then .blocked head
          else .rejected head
        ⟨some latch, [.prMergeFailed key prLabel e.humanized false], some fresh⟩

/-- An attempt from the fetched pull request on. -/
def verifyAndMerge (ticket : AttemptPlan) (ws : Workspace) (prLabel : String)
    (fetched : PullRequest) (head : Option String) (env : Answers) : AttemptOutcome :=
  match env.approval with
  | .error _ => .quiet ticket.restore
  | .ok approval =>
      let fresh := { fetched with approvalPolicy := approval }
      let alreadyAnnounced := ticket.restore = some (.blocked head)
      let probe := { ws with pr := some fresh }
      let stoodDown (text : String) : AttemptOutcome :=
        ⟨some (.blocked head),
          if alreadyAnnounced then [] else [.providerErrorRetryable "auto-merge" text],
          some fresh⟩
      if ticket.skipIfHead.isSome ∧ head.isSome ∧ ticket.skipIfHead = head then
        ⟨some (.rejected head), [], some fresh⟩
      else if let some reason := autoMergeBlockReason probe env.policy then
        stoodDown ("auto-merge stood down on " ++ prLabel ++ ": " ++ reason)
      else if env.stacked then
        stoodDown ("auto-merge held on " ++ prLabel ++ ": stacked on a still-open parent PR")
      else mergeAnswered ticket.workspaceKey prLabel fresh head env.merge

/-- An attempt for which a client was found. -/
def runAttempt (ticket : AttemptPlan) (env : Answers) : AttemptOutcome :=
  match env.ws with
  | none => .quiet none
  | some ws =>
      if !ws.autoMergeOnGreen then .quiet none
      else if (ws.pr.bind githubTarget).isNone then .quiet (some (.blocked none))
      else if env.pausedUntil.isSome then .quiet ticket.restore
      else match env.fetched with
      | .error _ => .quiet ticket.restore
      | .ok none => .quiet (some (.blocked none))
      | .ok (some (fetched, head)) =>
          let prLabel := (ws.pr.map (·.id.key)).getD ticket.workspaceKey.asStr
          verifyAndMerge ticket ws prLabel fetched head env

/-- An attempt. -/
def runRealAttempt (ticket : AttemptPlan) (env : Answers) : AttemptOutcome :=
  match env.stored with
  | none => .quiet none
  | some ws =>
      if !ws.autoMergeOnGreen then .quiet none
      else if (ws.pr.bind githubTarget).isNone then .quiet (some (.blocked none))
      else if env.client then runAttempt ticket env
      else .quiet (ticket.restore.or (some (.blocked none)))

/-! ### The daemon -/

/-- An attempt under way.  Attempts are counted from the start of the daemon. -/
structure Attempt where
  seq : ℕ
  plan : AttemptPlan
deriving DecidableEq, Repr

def Attempt.key (attempt : Attempt) : WorkspaceKey := attempt.plan.workspaceKey

/-- The memory of the daemon and the attempts under way. -/
structure AutoMerge where
  memory : AutoMergeMemory
  running : List Attempt
  /-- The attempt whose latch the memory holds.  The daemon does not know it. -/
  owner : WorkspaceKey → Option ℕ

namespace AutoMerge

inductive Act where
  /-- A row is committed, while its pull request has the given head. -/
  | committed (key : WorkspaceKey) (ws : Workspace) (holds : EpicHolds) (changed : Bool)
      (head : Option String)
  /-- The attempt at this place among those under way ends. -/
  | settled (place : ℕ) (env : Answers)

inductive Obs where
  | dispatched (attempt : Attempt)
  | told (event : AutoMergeEvent)

def new : AutoMerge where
  memory := .new
  running := []
  owner := fun _ => none

/-- The latch of a key is now that of the given attempt, or gone. -/
def ownedBy (s : AutoMerge) (key : WorkspaceKey) (attempt : Option ℕ) :
    WorkspaceKey → Option ℕ :=
  Function.update s.owner key attempt

def onWorkspaceCommitted (s : AutoMerge) (key : WorkspaceKey) (signal : Signal)
    (holds : EpicHolds) (changed : Bool) : AutoMerge × List Obs :=
  let signal := holds.signal signal
  let owner := if signal = .release then s.ownedBy key none else s.owner
  match plan s.memory key signal changed with
  | (memory, none) => (⟨memory, s.running, owner⟩, [])
  | (memory, some ticket) =>
      let attempt : Attempt := ⟨s.memory.attemptsStarted, ticket⟩
      (⟨memory, attempt :: s.running, s.ownedBy key (some attempt.seq)⟩,
        [.dispatched attempt])

/-- An attempt settles the latch of its key. -/
def settle (s : AutoMerge) (place : ℕ) (attempt : Attempt) (env : Answers) :
    AutoMerge × List Obs :=
  let outcome := runRealAttempt attempt.plan env
  (⟨s.memory.settle attempt.key outcome.latch, s.running.eraseIdx place,
      s.ownedBy attempt.key (outcome.latch.map fun _ => attempt.seq)⟩,
    outcome.events.map .told)

def step (s : AutoMerge) : Act → AutoMerge × List Obs
  | .committed key ws holds changed _ =>
      s.onWorkspaceCommitted key (signalFor ws) holds changed
  | .settled place env =>
      match s.running[place]? with
      | some attempt => s.settle place attempt env
      | none => (s, [])

/-- The runs of the daemon. -/
def machine : Machine AutoMerge Act Obs where
  step := step

end AutoMerge

end Lazybox
