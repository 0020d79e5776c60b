import Lazybox.Agents.StateMachine
import Lazybox.Core.WorkingClaim
import Lazybox.Epics.Graph

/-!
# The status of an epic

The resolver gives every member of an epic its status and the blockers that keep it from going on.
A blocker is found on the graph, or on a task; when it was first found is remembered from call to
call, under the member, the kind and the reason.  A blocker that a worker declared was persisted
with an age of its own.

Times are milliseconds.
-/

namespace Lazybox.Epics

/-! ### Blockers -/

inductive BlockerKind where
  | dependency | external | decision | credential | review | mergeOrder | contract | cycle | other
deriving DecidableEq, Repr

namespace BlockerKind

def asStr : BlockerKind → String
  | dependency => "dependency"
  | external => "external"
  | decision => "decision"
  | credential => "credential"
  | review => "review"
  | mergeOrder => "mergeorder"
  | contract => "contract"
  | cycle => "cycle"
  | other => "other"

def parse (s : List Char) : BlockerKind :=
  match String.ofList (toAsciiLowercase (trim s)) with
  | "dependency" => dependency
  | "external" => external
  | "decision" => decision
  | "credential" => credential
  | "review" => review
  | "mergeorder" | "merge-order" => mergeOrder
  | "contract" => contract
  | "cycle" => cycle
  | _ => other

end BlockerKind

/-- Who has to clear a blocker. -/
inductive BlockerOwner where
  | operator
  | agent (key : WorkspaceKey)
  | external (task : String)
deriving DecidableEq, Repr

structure Blocker where
  kind : BlockerKind
  reason : String
  owner : BlockerOwner
  since : ℤ
  /-- How many other members wait behind the member. -/
  holds : ℕ
deriving DecidableEq, Repr

/-- A blocker that a worker declared on itself. -/
structure DeclaredBlocker where
  workspace : WorkspaceKey
  reason : String
  kind : BlockerKind
  owner : BlockerOwner
  since : ℤ
deriving DecidableEq, Repr

/-- A blocker, before its age is known. -/
structure FoundBlocker where
  kind : BlockerKind
  reason : String
  owner : BlockerOwner
deriving DecidableEq, Repr

def TaskId.display (id : TaskId) : String := id.source ++ ":" ++ id.key

def declaredKind (task : Task) : Option BlockerKind :=
  task.labels.findSome? fun l =>
    ("blocked:".toList.isPrefixOf? l.name.toList).map BlockerKind.parse

def nameOf (resolved : Resolved) (key : WorkspaceKey) : String :=
  ((resolved.byKey key).map Workspace.name).getD key.asStr

/-- The blockers that are found on the graph and on the tasks of a member, in the order their ages
are asked for. -/
def findBlockers (key : WorkspaceKey) (resolved : Resolved) (inCycle : Bool)
    (publishedContracts : Option (List WorkspaceKey)) : List FoundBlocker :=
  let cycle : List FoundBlocker :=
    if inCycle then [⟨.cycle, "dependency cycle", .operator⟩] else []
  let dependencies :=
    ((resolved.dependsOn key).filter fun dep => !resolved.done dep).map fun dep =>
      ⟨.dependency, "waiting on " ++ nameOf resolved dep, .agent dep⟩
  let contracts :=
    ((resolved.contracts key).filter fun producer =>
      !publishedContracts.any fun published => decide (producer ∈ published)).map fun producer =>
        ⟨.contract, "waiting on contract from " ++ nameOf resolved producer, .agent producer⟩
  let external :=
    (resolved.external key).map fun ext =>
      ⟨.external, "waiting on " ++ TaskId.display ext, .external (TaskId.display ext)⟩
  let onTasks :=
    ((resolved.byKey key).toList.flatMap tasksOf).filterMap fun task =>
      (task.blockedOn.filter fun reason => !(trim reason.toList).isEmpty).map fun reason =>
        ⟨(declaredKind task).getD .decision, reason, .operator⟩
  cycle ++ dependencies ++ contracts ++ external ++ onTasks

/-! ### Ages -/

/-- What the age of a blocker is remembered under. -/
abbrev LatchKey := WorkspaceKey × BlockerKind × String

instance : LawfulBEq LatchKey := inferInstance

abbrev SinceLatch := LatchKey → Option ℤ

/-- What is remembered, and what was asked for so far. -/
structure LatchState where
  since : SinceLatch
  seen : List LatchKey

/-- Read the time a blocker was first found, or remember that it is now. -/
def LatchState.sinceAt (s : LatchState) (now : ℤ) (key : LatchKey) : ℤ × LatchState :=
  let since := (s.since key).getD now
  (since, ⟨Function.update s.since key (some since), key :: s.seen⟩)

/-- Give each blocker its age. -/
def latchBlockers (key : WorkspaceKey) (holds : ℕ) (now : ℤ) :
    List FoundBlocker → LatchState → List Blocker × LatchState
  | [], s => ([], s)
  | found :: rest, s =>
      let (since, s) := s.sinceAt now (key, found.kind, found.reason)
      let (blockers, s) := latchBlockers key holds now rest s
      (⟨found.kind, found.reason, found.owner, since, holds⟩ :: blockers, s)

/-- A declared blocker, when it gives a reason. -/
def declaredBlocker (holds : ℕ) (declared : DeclaredBlocker) : Option Blocker :=
  let reason := String.ofList (trim declared.reason.toList)
  if reason.isEmpty then none
  else some ⟨declared.kind, reason, declared.owner, declared.since, holds⟩

/-- What blockers are ordered by, and told apart by. -/
def Blocker.sortKey (b : Blocker) : String ×ₗ String := toLex (b.kind.asStr, b.reason)

def blockersFor (key : WorkspaceKey) (resolved : Resolved) (inCycle : Bool) (holds : ℕ)
    (declared : Option DeclaredBlocker) (publishedContracts : Option (List WorkspaceKey))
    (now : ℤ) (s : LatchState) : List Blocker × LatchState :=
  let (out, s) :=
    latchBlockers key holds now (findBlockers key resolved inCycle publishedContracts) s
  let out := out ++ (declared.bind (declaredBlocker holds)).toList
  let sorted := out.insertionSort fun a b => a.sortKey ≤ b.sortKey
  (sorted.destutter fun a b => ¬(a.kind = b.kind ∧ a.reason = b.reason), s)

/-! ### Status -/

inductive EpicMemberStatus where
  | blocked | ready | claimed | inProgress | asking
  | prOpen (ciFailing changesRequested : Bool)
  | mergeable (heldBy : List WorkspaceKey)
  | done | failed | reviewBlocked
deriving DecidableEq, Repr

def EpicMemberStatus.isFailing : EpicMemberStatus → Bool
  | .failed => true
  | .prOpen ciFailing _ => ciFailing
  | _ => false

def workingClaimLabelPrefix : String := "lazybox:w:"

/-- A working label is on one of the tasks. -/
def hasWorkingClaim (ws : Workspace) : Bool :=
  (tasksOf ws).any fun task => task.labels.any fun l =>
    l.name = WorkingClaim.workingLabelName
      || workingClaimLabelPrefix.toList.isPrefixOf l.name.toList

/-- The first of the statuses that fits. -/
def memberStatus (ws : Workspace) (agent : Option AgentState) (blockers : List Blocker)
    (heldBy : List WorkspaceKey) (reviewBlocking : Bool) : EpicMemberStatus :=
  let pr := ws.pr.filter fun pr => pr.state ≠ .closed
  let exitedFailing := match agent with
    | some (.exited (some code)) => code != 0
    | _ => false
  let asking := match agent with
    | some .inputNeeded | some .limitReached | some .creditExhausted | some .stalled => true
    | _ => false
  if memberDone ws then .done
  else if pr.isNone && exitedFailing then .failed
  else if asking then .asking
  else if agent = some .working then .inProgress
  else if reviewBlocking && pr.isSome then .reviewBlocked
  else match pr with
    | some pr =>
        let ciFailing := pr.ci = .failure || pr.ci = .mixed
        let changesRequested := pr.review = .changesRequested
        if pr.ci = .success && pr.mergeable = .mergeable && !changesRequested && !pr.mergeBlocked
        then .mergeable heldBy
        else .prOpen ciFailing changesRequested
    | none =>
        if agent.isNone && hasWorkingClaim ws then .claimed
        else if !blockers.isEmpty then .blocked
        else .ready

/-! ### Resolving -/

structure LatchInputs where
  /-- For each epic, the members that published a contract. -/
  publishedContracts : String → Option (List WorkspaceKey)
  reviewBlocking : List WorkspaceKey

/-- What an epic is resolved from, its latch apart. -/
structure Inputs where
  record : EpicRecord
  workspaces : List Workspace
  agentStates : WorkspaceKey → Option AgentState
  declared : WorkspaceKey → Option DeclaredBlocker
  latches : LatchInputs

structure EpicMember where
  key : WorkspaceKey
  wave : ℕ
  status : EpicMemberStatus
  blockedBy : List WorkspaceKey
  externalBlockers : List TaskId
  blockers : List Blocker
  blockedReason : Option String
deriving DecidableEq, Repr

structure EpicSnapshot where
  key : String
  name : String
  members : List EpicMember
  done : ℕ
  total : ℕ
  ready : ℕ
  blocked : ℕ
  asking : ℕ
  failing : ℕ
  blockersNeedingOperator : ℕ
  cycle : Bool
  criticalPath : List WorkspaceKey
  edges : List EpicEdge
  mergeOrder : List MergeOrderEntry
  computedAt : ℤ
deriving DecidableEq, Repr

namespace Inputs

variable (i : Inputs)

def resolved : Resolved := resolvedGraph i.record i.workspaces

/-- The wave of each member, the topological order, and the members caught in a cycle. -/
def leveling : (WorkspaceKey → ℕ) × List WorkspaceKey × List WorkspaceKey :=
  waves i.resolved.members i.resolved.dependsOn

/-- A member with its blockers. -/
def member (key : WorkspaceKey) (ws : Workspace) (blockers : List Blocker) : EpicMember where
  key := key
  wave := i.leveling.1 key
  status := memberStatus ws (i.agentStates key) blockers (heldBy i.resolved key)
    (decide (key ∈ i.latches.reviewBlocking))
  blockedBy := i.resolved.dependsOn key
  externalBlockers := i.resolved.external key
  blockers := blockers
  blockedReason :=
    if blockers.any fun b => b.kind = .contract then some BlockerKind.contract.asStr else none

def resolveMember (now : ℤ) (key : WorkspaceKey) (s : LatchState) :
    Option EpicMember × LatchState :=
  let (blockers, s) :=
    blockersFor key i.resolved (decide (key ∈ i.leveling.2.2))
      (downstreamCount i.resolved.members i.resolved.dependsOn key) (i.declared key)
      (i.latches.publishedContracts i.record.key) now s
  ((i.resolved.byKey key).map (i.member key · blockers), s)

/-- Resolve the members one after another. -/
def resolveMembers (now : ℤ) : List WorkspaceKey → LatchState → List EpicMember × LatchState
  | [], s => ([], s)
  | key :: rest, s =>
      let (member, s) := i.resolveMember now key s
      let (members, s) := resolveMembers now rest s
      (member.toList ++ members, s)

/-- Resolve an epic.  The latch is left with what was asked for. -/
def resolve (latch : SinceLatch) (now : ℤ) : EpicSnapshot × SinceLatch :=
  let (members, s) := i.resolveMembers now i.resolved.members ⟨latch, []⟩
  let members := members.insertionSort fun a b =>
    toLex (a.wave, a.key.asStr) ≤ toLex (b.wave, b.key.asStr)
  let count (p : EpicMemberStatus → Bool) : ℕ := members.countP fun m => p m.status
  ({ key := i.record.key
     name := i.record.name
     members := members
     done := count (· = .done)
     total := members.length
     ready := count (· = .ready)
     blocked := count fun status => status = .blocked || status = .reviewBlocked
     asking := count (· = .asking)
     failing := count EpicMemberStatus.isFailing
     blockersNeedingOperator := (members.flatMap EpicMember.blockers).countP (·.owner = .operator)
     cycle := !i.leveling.2.2.isEmpty
     criticalPath := criticalPath i.leveling.2.1 i.resolved.dependsOn
     edges := graphEdges i.resolved
     mergeOrder := mergeOrder i.resolved
     computedAt := now },
    fun key => if key ∈ s.seen then s.since key else none)

end Inputs

end Lazybox.Epics
