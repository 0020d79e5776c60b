import Lazybox.Core.MergePolicy

/-!
# GitHub's own auto-merge

Arming a workspace also turns on GitHub's auto-merge of its pull request, where GitHub's gate is
as strict as the daemon's, and disarming turns it off again, if it was lazybox that turned it on.
The workspace remembers that.  A row on which lazybox's auto-merge is live has it checked again,
and revoked when it is no longer safe.

Arming, disarming and revoking are runs which take one lock of their workspace.  A run reads the
stored workspace once it has the lock, asks GitHub, and records what came of it.  The arm of the
workspace is stored before its run is queued, and polled rows are committed at any time, long
after GitHub was asked for them if need be.

A row names its pull request by its id and GitHub is asked by the node id that the row carries;
both stand for the same pull request.  What the environment decides is part of an action.
-/

namespace Lazybox

inductive GithubNativeConfig where
  | auto | always | never
deriving DecidableEq, Repr

inductive NativeArmError where
  | throttled (message : String)
  | refused (message : String)

def NativeArmError.message : NativeArmError → String
  | .throttled message | .refused message => message

inductive NoticeLevel where
  | info | warn
deriving DecidableEq, Repr

structure Notice where
  level : NoticeLevel
  message : String
deriving DecidableEq, Repr

structure NativeTarget where
  owner : String
  repo : String
  nodeId : String
  baseBranch : Option String
  label : String
  pr : PullRequest

def NativeTarget.repoPath (target : NativeTarget) : String := target.owner ++ "/" ++ target.repo

/-- The pull request of a workspace, as the runs act on it. -/
def Workspace.nativeTarget (ws : Workspace) : Option NativeTarget := do
  let pr ← ws.pr
  let nodeId ← pr.nodeId
  let (owner, repo, _) ← githubTarget pr
  return ⟨owner, repo, nodeId, pr.baseBranch, pr.id.key, pr⟩

/-- Lazybox's auto-merge is on, as far as the workspace knows. -/
def nativeArmFor (ws : Workspace) : Bool :=
  ws.nativeAutoMergeByLazybox && ws.pr.any (·.autoMergeEnabled)

/-- What only lazybox knows about a pull request. -/
structure NativeHolds where
  epicsRead : Bool
  mergeInOrder : Bool
  heldBy : List WorkspaceKey
  reviewBlocksMerge : Bool
  approval : Except String ApprovalPolicy
  stacked : Bool

def nativeArmBlockReason (holds : NativeHolds) : Option String :=
  if !holds.epicsRead then some "its epic graph could not be read"
  else if holds.mergeInOrder then some "its epic lands members in merge order"
  else if holds.heldBy ≠ [] then some "a merge-after predecessor hasn't landed"
  else if holds.reviewBlocksMerge then some "the review stage reported blocking findings"
  else match holds.approval with
  | .ok .human => some "this repo requires a human approval"
  | .error _ => some "config.yaml could not be read, so its approval policy is unknown"
  | .ok .default =>
      if holds.stacked then some "it is stacked on a still-open parent PR" else none

def nativeRevokeReason (holds : NativeHolds) (mode : GithubNativeConfig) : Option String :=
  if mode = .never then some "GitHub-native auto-merge was turned off in config"
  else nativeArmBlockReason holds

def alreadyMergeableRejection (message : String) : Bool :=
  decide ("clean status".toList <:+: toAsciiLowercase message.toList)

/-- In which way GitHub's gate is weaker than the daemon's. -/
structure Shortfall where
  text : String
  perPr : Bool

/-- What a run is answered after it has read the workspace. -/
structure NativeAnswers where
  client : Bool
  paused : Bool
  shortfall : Option Shortfall
  fromCache : Bool
  mutation : Except NativeArmError Unit
  /-- Whether a mutation that was answered by an error took effect all the same. -/
  landed : Bool
  /-- Whether what came of it is stored. -/
  stored : Bool

/-! ### A run -/

/-- A run that has the lock. -/
inductive NativeRun where
  | arming (target : NativeTarget) (mode : GithubNativeConfig)
  | disarming (target : NativeTarget)
  | revoking (target : NativeTarget) (mode : GithubNativeConfig) (reason : Option String)
  /-- It is about to record whether lazybox's auto-merge is on. -/
  | recording (ours : Bool) (notice : Option Notice)

/-- What a run of an arm or a disarm does once it has the lock. -/
def applyNativeArm (ws : Workspace) (enabled : Bool) (mode : GithubNativeConfig)
    (holds : NativeHolds) : Option NativeRun :=
  match ws.nativeTarget with
  | none => none
  | some target =>
      if enabled then
        if !ws.autoMergeOnGreen || target.pr.autoMergeEnabled then none
        else if mode = .never then none
        else if (nativeArmBlockReason holds).isSome then none
        else some (.arming target mode)
      else if ws.nativeAutoMergeByLazybox then some (.disarming target)
      else none

/-- What a run that checks lazybox's auto-merge does once it has the lock. -/
def revokeNativeIfUnsafe (ws : Workspace) (mode : GithubNativeConfig) (holds : NativeHolds) :
    Option NativeRun :=
  if !ws.nativeAutoMergeByLazybox then none
  else match ws.nativeTarget with
  | none => none
  | some target =>
      if !target.pr.autoMergeEnabled then some (.recording false none)
      else some (.revoking target mode (nativeRevokeReason holds mode))

/-- Why an arm does not ask GitHub, with what it tells. -/
def armStandsDown (target : NativeTarget) (mode : GithubNativeConfig) (env : NativeAnswers) :
    Option (List Notice) :=
  if !env.client || env.paused then some []
  else if mode = .auto then
    match target.baseBranch, env.shortfall with
    | none, _ => some [⟨.warn, target.label ++ ": armed in lazybox only — its base branch is "
        ++ "unknown, so GitHub's merge gate can't be checked."⟩]
    | some base, some shortfall =>
        if !env.fromCache || shortfall.perPr then
          some [⟨.warn, target.label ++ ": armed in lazybox only — " ++ target.repoPath ++ "@"
            ++ base ++ " " ++ shortfall.text ++ ". lazybox merges it within ~15s of green "
            ++ "instead, but only while it is running."⟩]
        else some []
    | some _, none => none
  else none

/-- How an arm goes on once GitHub has answered. -/
def enableAnswered (target : NativeTarget) :
    Except NativeArmError Unit → Option NativeRun × List Notice
  | .ok () => (some (.recording true (some ⟨.info, target.label
      ++ ": GitHub auto-merge armed too — it lands even with lazybox closed"⟩)), [])
  | .error (.refused message) =>
      if alreadyMergeableRejection message then (none, [])
      else (none, [⟨.warn, target.label
        ++ ": armed in lazybox only — GitHub auto-merge was refused (" ++ message ++ ")"⟩])
  | .error (.throttled message) => (none, [⟨.warn, target.label
      ++ ": armed in lazybox only — GitHub auto-merge deferred, rate-limited (" ++ message
      ++ ")"⟩])

/-- Why a disarm cannot ask GitHub. -/
def disarmStandsDown (target : NativeTarget) (env : NativeAnswers) : Option Notice :=
  let still := "disarmed merge-on-green for " ++ target.label
    ++ ", but GitHub auto-merge is still on — "
  if !env.client then some ⟨.warn, still ++ "no GitHub client to turn it off"⟩
  else if env.paused then some ⟨.warn, still ++ "GitHub is rate-limited right now"⟩
  else none

/-- How a disarm goes on once GitHub has answered. -/
def disableAnswered (target : NativeTarget) :
    Except NativeArmError Unit → Option NativeRun × List Notice
  | .ok () => (some (.recording false
      (some ⟨.info, target.label ++ ": GitHub auto-merge turned off too"⟩)), [])
  | .error error => (none, [⟨.warn, "disarmed merge-on-green for " ++ target.label
      ++ ", but GitHub auto-merge is still on (" ++ error.message ++ ")"⟩])

/-- The reason to revoke, once the gate was read where it has to be. -/
def revokeReason (target : NativeTarget) (mode : GithubNativeConfig) (reason : Option String)
    (env : NativeAnswers) : Option String :=
  if !env.client then none
  else match reason with
  | some reason => some reason
  | none =>
      if mode ≠ .auto then none
      else match target.baseBranch, env.shortfall with
      | some base, some shortfall => some (target.repoPath ++ "@" ++ base ++ " " ++ shortfall.text)
      | _, _ => none

/-- How a revocation goes on once GitHub has answered. -/
def revokeAnswered (target : NativeTarget) (reason : String) :
    Except NativeArmError Unit → Option NativeRun × List Notice
  | .ok () => (some (.recording false (some ⟨.warn, target.label
      ++ ": GitHub auto-merge turned back off — " ++ reason
      ++ ". lazybox holds the merge instead."⟩)), [])
  | .error error => (none, [⟨.warn, target.label ++ ": GitHub auto-merge should be off ("
      ++ reason ++ ") but could not be turned off (" ++ error.message
      ++ ") — turn it off on github.com"⟩])

/-! ### Rows -/

/-- A polled row of a pull request on GitHub. -/
structure PrRow where
  pr : PullRequest
  node : pr.nodeId.isSome
  target : (githubTarget pr).isSome

/-- The row with auto-merge on or off. -/
def PrRow.withAutoMerge (row : PrRow) (on : Bool) : PrRow where
  pr := { row.pr with autoMergeEnabled := on }
  node := row.node
  target := row.target

/-- What the row of a pull request keeps of the one it replaces. -/
def preserveLazyPrFields (incoming existing : PullRequest) : PullRequest :=
  { incoming with
    reviews := if incoming.reviews.isEmpty then existing.reviews else incoming.reviews
    mergeable := if incoming.mergeable = .unknown then existing.mergeable else incoming.mergeable }

def Workspace.attachTask (ws : Workspace) (pr : PullRequest) : Workspace :=
  match ws.pr with
  | none => { ws with pr := some pr }
  | some old =>
      { ws with
        pr := some (preserveLazyPrFields pr old)
        nativeAutoMergeByLazybox := ws.nativeAutoMergeByLazybox && old.id = pr.id }

/-! ### The workspace and GitHub -/

/-- Whether GitHub's auto-merge of a pull request is on, and who turned it on. -/
inductive GithubAutoMerge where
  | off | byLazybox | byOthers
deriving DecidableEq, Repr

/-- A run that waits for the lock. -/
inductive NativeJob where
  | apply (enabled : Bool)
  | revoke
deriving DecidableEq, Repr

structure NativeMerge where
  ws : Workspace
  github : TaskId → GithubAutoMerge
  /-- The rows that were read and are not yet committed. -/
  polled : List PrRow
  waiting : List NativeJob
  run : Option NativeRun
  /-- What the user last asked for a pull request. -/
  intent : TaskId → Option Bool
  /-- A mutation failed: it was refused, could not be asked for, or was not stored. -/
  failed : Bool

namespace NativeMerge

inductive Act where
  /-- The user arms or disarms the workspace. -/
  | user (enabled : Bool) (policy : MergeOnGreenPolicy) (stored : Bool)
  /-- Somebody else, or GitHub itself, turns auto-merge on or off. -/
  | others (id : TaskId) (on : Bool)
  /-- A row is read from GitHub. -/
  | poll (row : PrRow)
  /-- The row at this place among those read is committed; the refresh of an attempt does not
  have its commit looked at. -/
  | commit (place : ℕ) (looked stored : Bool)
  /-- The stored row is looked at again. -/
  | look
  /-- The run at this place in the queue takes the lock. -/
  | lock (place : ℕ) (mode : GithubNativeConfig) (holds : NativeHolds)
  /-- The run that has the lock goes on. -/
  | proceed (env : NativeAnswers)

/-- What is told of a step: a notice, or that a workspace is not armed. -/
inductive Obs where
  | notice (notice : Notice)
  | providerErrorRetryable (source message : String)

/-- Why the workspace is not armed. -/
def armRefused (ws : Workspace) (policy : MergeOnGreenPolicy) : Option Obs :=
  match ws.pr with
  | none => none
  | some pr =>
      if authorGateBlocks pr policy then
        some (.providerErrorRetryable "auto-merge" ("won't arm merge-on-green for " ++ pr.id.key
          ++ ": " ++ NON_AUTHOR_BLOCK
          ++ " — add the author to merge_on_green.allow_authors to allow it"))
      else none

/-- The arm of the workspace is stored, and a run to follow it is queued. -/
def armed (s : NativeMerge) (enabled stored : Bool) : NativeMerge :=
  { s with
    ws := if stored then { s.ws with autoMergeOnGreen := enabled } else s.ws
    waiting := s.waiting ++ [.apply enabled]
    intent := match s.ws.pr with
      | some pr => Function.update s.intent pr.id (some enabled)
      | none => s.intent
    failed := s.failed || !stored }

def setAutoMergeOnGreen (s : NativeMerge) (enabled : Bool) (policy : MergeOnGreenPolicy)
    (stored : Bool) : NativeMerge × List Obs :=
  if enabled then
    match armRefused s.ws policy with
    | some refusal => (s, [refusal])
    | none => (s.armed true stored, [])
  else (s.armed false stored, [])

/-- A run to check lazybox's auto-merge is queued if the workspace shows it on. -/
def lookAt (s : NativeMerge) (ws : Workspace) : List NativeJob :=
  if nativeArmFor ws then s.waiting ++ [.revoke] else s.waiting

def commitRow (s : NativeMerge) (place : ℕ) (row : PrRow) (looked stored : Bool) :
    NativeMerge :=
  let ws := s.ws.attachTask row.pr
  { s with
    ws := if stored then ws else s.ws
    polled := s.polled.eraseIdx place
    waiting := if looked then s.lookAt ws else s.waiting }

def takeLock (s : NativeMerge) (place : ℕ) (job : NativeJob) (mode : GithubNativeConfig)
    (holds : NativeHolds) : NativeMerge :=
  { s with
    waiting := s.waiting.eraseIdx place
    run := match job with
      | .apply enabled => applyNativeArm s.ws enabled mode holds
      | .revoke => revokeNativeIfUnsafe s.ws mode holds }

/-- GitHub after a mutation that took effect: an auto-merge that is on already stays whose it
is. -/
def mutated (s : NativeMerge) (id : TaskId) (enable : Bool) : TaskId → GithubAutoMerge :=
  Function.update s.github id
    (if enable then if s.github id = .off then .byLazybox else s.github id else .off)

/-- GitHub is asked, and the run goes on with what it answered. -/
def ask (s : NativeMerge) (id : TaskId) (enable : Bool) (env : NativeAnswers)
    (answered : Option NativeRun × List Notice) : NativeMerge × List Notice :=
  ({ s with
    github := if env.mutation.isOk || env.landed then s.mutated id enable else s.github
    run := answered.1
    failed := s.failed || !env.mutation.isOk }, answered.2)

/-- The lock is released. -/
def release (s : NativeMerge) : NativeMerge := { s with run := none }

def setNativeProvenance (s : NativeMerge) (ours stored : Bool) : NativeMerge :=
  { s with
    ws := if stored then { s.ws with nativeAutoMergeByLazybox := ours } else s.ws
    failed := s.failed || !stored }

def goOn (s : NativeMerge) (env : NativeAnswers) : NativeRun → NativeMerge × List Notice
  | .arming target mode =>
      match armStandsDown target mode env with
      | some notices => (s.release, notices)
      | none => s.ask target.pr.id true env (enableAnswered target env.mutation)
  | .disarming target =>
      match disarmStandsDown target env with
      | some notice => ({ s.release with failed := true }, [notice])
      | none => s.ask target.pr.id false env (disableAnswered target env.mutation)
  | .revoking target mode reason =>
      match revokeReason target mode reason env with
      | none => (s.release, [])
      | some reason => s.ask target.pr.id false env (revokeAnswered target reason env.mutation)
  | .recording ours notice => ((s.setNativeProvenance ours env.stored).release, notice.toList)

def step (s : NativeMerge) : Act → NativeMerge × List Obs
  | .user enabled policy stored => s.setAutoMergeOnGreen enabled policy stored
  | .others id on =>
      ({ s with github := Function.update s.github id (if on then .byOthers else .off) }, [])
  | .poll row =>
      ({ s with polled := row.withAutoMerge (s.github row.pr.id ≠ .off) :: s.polled }, [])
  | .commit place looked stored =>
      match s.polled[place]? with
      | some row => (s.commitRow place row looked stored, [])
      | none => (s, [])
  | .look => ({ s with waiting := s.lookAt s.ws }, [])
  | .lock place mode holds =>
      match s.run, s.waiting[place]? with
      | none, some job => (s.takeLock place job mode holds, [])
      | _, _ => (s, [])
  | .proceed env =>
      match s.run with
      | some run => ((s.goOn env run).1, (s.goOn env run).2.map .notice)
      | none => (s, [])

/-- The runs of a workspace and of GitHub. -/
def machine : Machine NativeMerge Act Obs where
  step := step

/-- A workspace without a pull request, before anything was asked for. -/
def new (key : WorkspaceKey) (github : TaskId → Bool) : NativeMerge where
  ws := ⟨key, none, false, false⟩
  github := fun id => if github id then .byOthers else .off
  polled := []
  waiting := []
  run := none
  intent := fun _ => none
  failed := false

end NativeMerge

end Lazybox
