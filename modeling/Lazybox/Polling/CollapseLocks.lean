import Mathlib.Logic.Function.Basic
import Lazybox.Library.Run
import Lazybox.Library.Keyed
import Lazybox.Polling.Collapse

/-!
# The locks of a collapse

Every row of the store has a lock, and whoever changes a row holds its lock from the load to the
commit.  A collapse changes several rows.  It plans which before it has their locks: from a scan
of the store for the pull request it was given, and, once it has the locks, from a scan for the
pull request that is stored.  When the second scan finds more rows, the locks are dropped and
taken again with the others.  The merge then scans the store a third time, and absorbs what it
finds.

Workspaces are also created by hand.  A creation holds no lock: it looks for a free key and saves
a workspace under it.
-/

universe u

namespace Lazybox.Collapse

/-! ### The store -/

abbrev Rows (V : Type u) := List (WorkspaceRecord V)

inductive StoredWorkspace (V : Type u) where
  | present (ws : Workspace V)
  | absent
  | unreadable

namespace Rows

variable {V : Type u} (rows : Rows V)

def record (key : String) : Option (WorkspaceRecord V) :=
  Keyed.lookup WorkspaceRecord.key key rows

/-- The workspace stored under a key. -/
def workspace (key : String) : Option (Workspace V) :=
  (rows.record key).bind WorkspaceRecord.workspace

/-- What a store lists when it answers. -/
def listWorkspaces (answers : Bool) : Listing V := if answers then some rows else none

def loadStoredWorkspace (answers : Bool) (key : String) : StoredWorkspace V :=
  if answers then
    match rows.record key with
    | none => .absent
    | some (.decoded ws) => .present ws
    | some (.undecodable _) => .unreadable
  else .unreadable

def loadWorkspace (answers : Bool) (key : String) : Option (Workspace V) :=
  if answers then rows.workspace key else none

def saveWorkspace (ws : Workspace V) : Rows V :=
  .decoded ws :: Keyed.erase WorkspaceRecord.key ws.key rows

def deleteWorkspaces (keys : List String) : Rows V := rows.filter fun record => record.key ∉ keys

end Rows

/-! ### Operations -/

/-- A workspace key, and the task that is merged into its workspace.  A collapse that follows no
poll has no task. -/
structure Job where
  key : String
  task : Option PolledTask
deriving DecidableEq, Repr

/-- The keys whose locks an operation takes.  `scans` is what they come from: each listing of the
store, and the pull request it was searched for. -/
structure Plan (V : Type u) where
  job : Job
  keys : List String
  scans : List (Listing V × PolledTask)

namespace Plan

variable {V : Type u}

/-- The plan of an operation before it has any lock. -/
def first (job : Job) (listing : Listing V) : Plan V :=
  match job.task.filter fun task => task.isPr with
  | some pr => ⟨job, ordered (job.key :: collapseCandidateKeys listing pr), [(listing, pr)]⟩
  | none => ⟨job, ordered [job.key], []⟩

/-- The plan with the candidates of the workspace that is stored. -/
def required (plan : Plan V) (stored : Option (Workspace V)) (listing : Listing V) : Plan V :=
  match stored.bind Workspace.pr with
  | some pr =>
      { plan with
        keys := ordered (plan.keys ++ collapseCandidateKeys listing pr)
        scans := (listing, pr) :: plan.scans }
  | none => plan

/-- A row the operation planned for: its own, and the candidates of the scans. -/
def Covers (plan : Plan V) (key : String) : Prop :=
  key = plan.job.key ∨ ∃ scan ∈ plan.scans, key ∈ collapseCandidateKeys scan.1 scan.2

instance (plan : Plan V) (key : String) : Decidable (plan.Covers key) :=
  inferInstanceAs (Decidable (_ ∨ _))

end Plan

/-- How far a task is that changes rows.  An operation takes locks, has them all, has loaded its
workspace, and then visits the candidates that are `left`; `absorbed` are the rows it has loaded
and folded into its workspace.  Another change has the lock of its row, and then has loaded it.  A
creation has found a free key. -/
inductive Stage (V : Type u) where
  | idle
  | acquiring (plan : Plan V) (left : List String)
  | guarded (plan : Plan V)
  | loaded (plan : Plan V) (ws : Workspace V)
  | merging (plan : Plan V) (ws : Workspace V) (left : List String)
      (absorbed : List (String × Workspace V))
  | holding (key : String)
  | editing (key : String) (ws : Workspace V)
  | allocated (key : String)

namespace Stage

variable {V : Type u}

/-- The plan of an operation. -/
def plan : Stage V → Option (Plan V)
  | .acquiring plan _ | .guarded plan | .loaded plan _ | .merging plan _ _ _ => some plan
  | .idle | .holding _ | .editing _ _ | .allocated _ => none

/-- The rows an operation has absorbed and not yet deleted. -/
def absorbed : Stage V → List (String × Workspace V)
  | .merging _ _ _ absorbed => absorbed
  | .idle | .acquiring _ _ | .guarded _ | .loaded _ _ | .holding _ | .editing _ _
  | .allocated _ => []

/-- The keys whose locks a task has. -/
def held : Stage V → List String
  | .acquiring plan left => plan.keys.filter (· ∉ left)
  | .guarded plan | .loaded plan _ | .merging plan _ _ _ => plan.keys
  | .holding key | .editing key _ => [key]
  | .idle | .allocated _ => []

end Stage

/-- What a change makes of the row it has loaded. -/
inductive Change (V : Type u) where
  | keep
  | save (ws : Workspace V)
  | delete

/-- The store, who has the lock of each row, and the tasks. -/
structure State (V : Type u) where
  rows : Rows V
  owner : String → Option ℕ
  stage : ℕ → Stage V

/-- A step of a task.  `answers` says that the store answers a read, or carries out a commit;
`admitted` that the workspace is neither archived nor deleted; `folds` that the merge of a row was
not rejected, and that it has no live terminal.  An operation gives up when it is out of time. -/
inductive Act (V : Type u) where
  | start (t : ℕ) (job : Job) (answers : Bool)
  | acquire (t : ℕ)
  | giveUp (t : ℕ)
  | recheck (t : ℕ) (answers lists : Bool)
  | load (t : ℕ) (admitted answers : Bool)
  | scan (t : ℕ) (answers : Bool)
  | visit (t : ℕ) (answers folds : Bool)
  | commit (t : ℕ) (answers : Bool)
  | lock (t : ℕ) (key : String)
  | read (t : ℕ) (answers : Bool)
  | write (t : ℕ) (change : Change V)
  | allocate (t : ℕ) (key : String)
  | create (t : ℕ) (ws : Workspace V)

namespace State

variable {V : Type u} (carry : Carry V) (s : State V) (t : ℕ)

/-- Nobody is at work. -/
def quiet (rows : Rows V) : State V := ⟨rows, fun _ => none, fun _ => .idle⟩

def goto (stage : Stage V) : State V := { s with stage := Function.update s.stage t stage }

/-- Drop the locks a task has. -/
def unlock : State V :=
  { s with owner := fun key => if s.owner key = some t then none else s.owner key }

/-- Take the lock of a row. -/
def take (key : String) : State V := { s with owner := Function.update s.owner key (some t) }

/-- A task drops its locks and is done. -/
def release : State V := (s.unlock t).goto t .idle

def recheck (plan : Plan V) (answers lists : Bool) : State V :=
  let required :=
    plan.required (s.rows.loadWorkspace answers plan.job.key) (s.rows.listWorkspaces lists)
  if required.keys = plan.keys then s.goto t (.guarded required)
  else (s.unlock t).goto t (.acquiring required required.keys)

/-- The workspace an upsert prepares, unless it has none to change. -/
def prepareUpsert (key : String) (task : PolledTask) (admitted answers : Bool) :
    Option (Workspace V) :=
  if !admitted || (task.isPr && task.merged && (s.rows.workspace key).isNone) then none
  else
    match s.rows.loadStoredWorkspace answers key with
    | .unreadable => none
    | .absent => some (Workspace.fromTask carry task)
    | .present ws =>
        let ws :=
          if ws.primaryTask.isNone then { ws with projectKey := projectKeyForTask task } else ws
        some (ws.attachTask carry task)

def load (plan : Plan V) (admitted answers : Bool) : State V :=
  let ws := match plan.job.task with
    | some task => s.prepareUpsert carry plan.job.key task admitted answers
    | none => s.rows.loadWorkspace answers plan.job.key
  match ws with
  | some ws => s.goto t (.loaded plan ws)
  | none => s.release t

/-- The rows a merge goes through. -/
def candidates (ws : Workspace V) (answers : Bool) : List String :=
  match ws.pr with
  | some pr => collapseCandidateKeys (s.rows.listWorkspaces answers) pr
  | none => []

/-- The row a merge absorbs at a candidate. -/
def issueAt (ws : Workspace V) (key : String) (answers folds : Bool) : Option (Workspace V) :=
  if key = ws.key then none
  else (s.rows.loadWorkspace answers key).filter fun issue => issue.pr.isNone && folds

/-- Save the workspace and delete what it has absorbed.  A collapse that has absorbed nothing
saves nothing. -/
def commitMerge (plan : Plan V) (ws : Workspace V) (absorbed : List (String × Workspace V))
    (answers : Bool) : Rows V :=
  if (plan.job.task.isNone && absorbed.isEmpty) || !answers then s.rows
  else (s.rows.saveWorkspace ws).deleteWorkspaces (absorbed.map Prod.fst)

def write (key : String) : Change V → Rows V
  | .keep => s.rows
  | .save ws => if ws.key = key then s.rows.saveWorkspace ws else s.rows
  | .delete => s.rows.deleteWorkspaces [key]

/-- The state after a step of a task. -/
def next : Act V → State V
  | .start t job answers =>
      match s.stage t with
      | .idle =>
          let plan := Plan.first job (s.rows.listWorkspaces answers)
          s.goto t (.acquiring plan plan.keys)
      | _ => s
  | .acquire t =>
      match s.stage t with
      | .acquiring plan (key :: left) =>
          if s.owner key = none then (s.take t key).goto t (.acquiring plan left) else s
      | _ => s
  | .giveUp t => if (s.stage t).plan.isSome then s.release t else s
  | .recheck t answers lists =>
      match s.stage t with
      | .acquiring plan [] => s.recheck t plan answers lists
      | _ => s
  | .load t admitted answers =>
      match s.stage t with
      | .guarded plan => s.load carry t plan admitted answers
      | _ => s
  | .scan t answers =>
      match s.stage t with
      | .loaded plan ws => s.goto t (.merging plan ws (s.candidates ws answers) [])
      | _ => s
  | .visit t answers folds =>
      match s.stage t with
      | .merging plan ws (key :: left) absorbed =>
          match s.issueAt ws key answers folds with
          | some issue =>
              s.goto t (.merging plan (ws.absorbIssueWorkspace carry issue) left
                (absorbed ++ [(key, issue)]))
          | none => s.goto t (.merging plan ws left absorbed)
      | _ => s
  | .commit t answers =>
      match s.stage t with
      | .merging plan ws [] absorbed =>
          { s with rows := s.commitMerge plan ws absorbed answers }.release t
      | _ => s
  | .lock t key =>
      match s.stage t with
      | .idle => if s.owner key = none then (s.take t key).goto t (.holding key) else s
      | _ => s
  | .read t answers =>
      match s.stage t with
      | .holding key =>
          match s.rows.loadWorkspace answers key with
          | some ws => s.goto t (.editing key ws)
          | none => s.release t
      | _ => s
  | .write t change =>
      match s.stage t with
      | .editing key _ => { s with rows := s.write key change }.release t
      | _ => s
  | .allocate t key =>
      match s.stage t with
      | .idle => if s.rows.record key = none then s.goto t (.allocated key) else s
      | _ => s
  | .create t ws =>
      match s.stage t with
      | .allocated key =>
          if ws.key = key then { s with rows := s.rows.saveWorkspace ws }.goto t .idle else s
      | _ => s

end State

/-- The tasks of a daemon that change its rows, taking their steps in any order. -/
def collapses {V : Type u} (carry : Carry V) : Machine (State V) (Act V) Empty where
  step s a := (s.next carry a, [])

end Lazybox.Collapse
