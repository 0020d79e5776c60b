import Mathlib.Data.List.Sort
import Mathlib.Data.Prod.Lex
import Mathlib.Data.String.Basic
import Lazybox.Core.MergePolicy

/-!
# The graph of an epic

The members of an epic are the workspaces its record lists, those whose tasks descend from its
anchor, and those that carry its label.  The tasks of a member name the tasks they are blocked by,
are to be merged after, and take a contract from.  A task that belongs to another member makes an
edge of the graph; a task nobody in the epic owns is external.

Of tasks and workspaces only what the resolver reads is kept.  A map keyed by members is a function
with a default for every other key.
-/

namespace Lazybox.Epics

structure Task where
  id : TaskId
  parent : Option TaskId
  labels : List Label
  state : TaskState
  blockedOn : Option String
  blockedBy : List TaskId
  mergeAfter : List TaskId
  contracts : List TaskId
  ci : CiStatus
  review : ReviewStatus
  mergeable : Mergeable
  mergeBlocked : Bool
deriving DecidableEq, Repr

structure Workspace where
  key : WorkspaceKey
  name : String
  pr : Option Task
  ghIssues : List Task
  linearIssues : List Task
deriving DecidableEq, Repr

structure EpicRecord where
  key : String
  name : String
  anchor : Option TaskId
  members : List WorkspaceKey
  impliedMergeAfter : Bool
deriving DecidableEq, Repr

def EpicRecord.projectLabel (record : EpicRecord) : String := "epic:" ++ record.key

/-! ### Ordered sets -/

/-- The keys in order, each of them once. -/
def sortedKeys (keys : List WorkspaceKey) : List WorkspaceKey :=
  keys.dedup.insertionSort fun a b => a.asStr ≤ b.asStr

/-- The tasks in order, each of them once. -/
def sortedTasks (tasks : List TaskId) : List TaskId :=
  tasks.dedup.insertionSort fun a b => toLex (a.source, a.key) ≤ toLex (b.source, b.key)

/-- Append what is not there yet. -/
def push (members : List WorkspaceKey) (key : WorkspaceKey) : List WorkspaceKey :=
  if key ∈ members then members else members ++ [key]

/-! ### Workspaces -/

/-- Every task linked to a workspace: the pull request and each linked issue. -/
def tasksOf (ws : Workspace) : List Task := ws.pr.toList ++ ws.ghIssues ++ ws.linearIssues

def isTerminal (state : TaskState) : Bool := state = .merged || state = .closed

/-- A pull request is done only when it was merged, an issue also when it was closed. -/
def memberDone (ws : Workspace) : Bool :=
  match ws.pr with
  | some pr => pr.state = .merged
  | none => (tasksOf ws).head?.any fun task => isTerminal task.state

/-- A member stops holding up its successors also when its pull request was closed. -/
def landingSettledFor (ws : Workspace) : Bool :=
  match ws.pr with
  | some pr => isTerminal pr.state
  | none => (tasksOf ws).head?.any fun task => isTerminal task.state

/-- The parent of each task that has one, in the order the tasks are listed. -/
def parentLinks (workspaces : List Workspace) : List (TaskId × TaskId) :=
  (workspaces.flatMap tasksOf).filterMap fun task => task.parent.map (task.id, ·)

/-- What was listed last for a key. -/
def lastOf {κ ν : Type} [DecidableEq κ] (entries : List (κ × ν)) (key : κ) : Option ν :=
  (entries.reverse.find? fun entry => entry.1 = key).map Prod.snd

/-- Follow the parents upwards until the anchor, the top, or a task that was visited. -/
def climb (anchor : TaskId) (parents : TaskId → Option TaskId) :
    ℕ → List TaskId → Option TaskId → Bool
  | _, _, none => false
  | 0, _, some _ => false
  | fuel + 1, visited, some id =>
      if id = anchor then true
      else if id ∈ visited then false
      else climb anchor parents fuel (id :: visited) (parents id)

/-- A walk visits each parent once at most, so that many steps reach its end. -/
def reachesAnchor (start anchor : TaskId) (links : List (TaskId × TaskId)) : Bool :=
  climb anchor (lastOf links) (links.length + 1) [] (lastOf links start)

/-! ### The resolved graph -/

structure Resolved where
  /-- The members that are loaded, in the order they were found. -/
  members : List WorkspaceKey
  byKey : WorkspaceKey → Option Workspace
  dependsOn : WorkspaceKey → List WorkspaceKey
  /-- The members whose pull requests have to land before. -/
  mergeAfter : WorkspaceKey → List WorkspaceKey
  external : WorkspaceKey → List TaskId
  done : WorkspaceKey → Bool
  landingSettled : WorkspaceKey → Bool
  /-- The member has a pull request which is neither merged nor closed. -/
  hasPr : WorkspaceKey → Bool
  contracts : WorkspaceKey → List WorkspaceKey

def loaded (workspaces : List Workspace) : WorkspaceKey → Option Workspace :=
  lastOf (workspaces.map fun ws => (ws.key, ws))

/-- The workspace that owns a task. -/
def taskWs (workspaces : List Workspace) : TaskId → Option WorkspaceKey :=
  lastOf (workspaces.flatMap fun ws => (tasksOf ws).map fun task => (task.id, ws.key))

def anchored (workspaces : List Workspace) (anchor : TaskId) : List WorkspaceKey :=
  (workspaces.filter fun ws =>
    (tasksOf ws).any fun task => reachesAnchor task.id anchor (parentLinks workspaces)).map
      Workspace.key

def labeled (workspaces : List Workspace) (label : String) : List WorkspaceKey :=
  (workspaces.filter fun ws =>
    (tasksOf ws).any fun task => task.labels.any fun l => eqIgnoreAsciiCase l.name label).map
      Workspace.key

def inOrder (keys : List WorkspaceKey) : List WorkspaceKey :=
  keys.insertionSort fun a b => a.asStr ≤ b.asStr

def membersOf (record : EpicRecord) (workspaces : List Workspace) : List WorkspaceKey :=
  let listed := record.members.filter fun key => (loaded workspaces key).isSome
  let below := (record.anchor.map (anchored workspaces)).getD []
  let tagged := labeled workspaces record.projectLabel
  (listed ++ inOrder below ++ inOrder tagged).foldl push []

/-- Where a task that another names belongs. -/
inductive Edge where
  /-- To the member that names it. -/
  | own
  | internal (member : WorkspaceKey)
  | outside
deriving DecidableEq, Repr

def edgeTo (workspaces : List Workspace) (members : List WorkspaceKey) (key : WorkspaceKey)
    (id : TaskId) : Edge :=
  match taskWs workspaces id with
  | some other =>
      if other = key then .own
      else if other ∈ members then .internal other
      else .outside
  | none => .outside

def Edge.member? : Edge → Option WorkspaceKey
  | .internal member => some member
  | _ => none

def resolvedGraph (record : EpicRecord) (workspaces : List Workspace) : Resolved :=
  let members := membersOf record workspaces
  let member (key : WorkspaceKey) : Option Workspace :=
    if key ∈ members then loaded workspaces key else none
  let named (ids : Task → List TaskId) (key : WorkspaceKey) : List TaskId :=
    (member key).toList.flatMap fun ws => (tasksOf ws).flatMap ids
  let edges (ids : Task → List TaskId) (key : WorkspaceKey) : List WorkspaceKey :=
    (named ids key).filterMap fun id => (edgeTo workspaces members key id).member?
  { members := members
    byKey := loaded workspaces
    dependsOn := fun key => sortedKeys (edges Task.blockedBy key)
    mergeAfter := fun key =>
      sortedKeys (edges Task.mergeAfter key
        ++ if record.impliedMergeAfter then edges Task.blockedBy key else [])
    external := fun key =>
      sortedTasks ((named Task.blockedBy key).filter fun id =>
        edgeTo workspaces members key id = .outside)
    done := fun key => (member key).any memberDone
    landingSettled := fun key => (member key).any landingSettledFor
    hasPr := fun key => (member key).any fun ws => ws.pr.any fun pr => !isTerminal pr.state
    contracts := fun key => sortedKeys (edges Task.contracts key) }

/-! ### Waves -/

/-- The state of a topological leveling. -/
structure Leveling where
  queue : List WorkspaceKey
  wave : WorkspaceKey → ℕ
  indegree : WorkspaceKey → ℕ
  order : List WorkspaceKey

/-- The members that depend on one, each once. -/
def dependents (members : List WorkspaceKey) (dependsOn : WorkspaceKey → List WorkspaceKey)
    (key : WorkspaceKey) : List WorkspaceKey :=
  members.filter fun m => key ∈ dependsOn m

namespace Leveling

/-- A dependent of a member that was drained, which was on the given wave. -/
def release (wave : ℕ) (s : Leveling) (m : WorkspaceKey) : Leveling :=
  let indegree := s.indegree m - 1
  { s with
    wave := Function.update s.wave m (max (s.wave m) (min (wave + 1) 65535))
    indegree := Function.update s.indegree m indegree
    queue := if indegree = 0 then s.queue ++ [m] else s.queue }

def drain (members : List WorkspaceKey) (dependsOn : WorkspaceKey → List WorkspaceKey)
    (s : Leveling) : Leveling :=
  match s.queue with
  | [] => s
  | x :: queue =>
      (dependents members dependsOn x).foldl (release (s.wave x))
        { s with queue := queue, order := s.order ++ [x] }

end Leveling

/-- The wave of each member, the members in topological order, and those caught in a cycle.  A
member is drained once at most, so that as many rounds as there are members drain the queue. -/
def waves (members : List WorkspaceKey) (dependsOn : WorkspaceKey → List WorkspaceKey) :
    (WorkspaceKey → ℕ) × List WorkspaceKey × List WorkspaceKey :=
  let indegree (m : WorkspaceKey) : ℕ := (dependsOn m).length
  let start : Leveling := {
    queue := members.filter fun m => indegree m = 0
    wave := fun _ => 0
    indegree := indegree
    order := [] }
  let s := (Leveling.drain members dependsOn)^[members.length] start
  (s.wave, s.order, members.filter fun m => 0 < s.indegree m)

/-! ### Readings of the graph -/

/-- Go on from the nodes on the stack, and collect the nodes that were seen. -/
def search (next : WorkspaceKey → List WorkspaceKey) (start : WorkspaceKey) :
    ℕ → List WorkspaceKey → List WorkspaceKey → List WorkspaceKey
  | _, seen, [] => seen
  | 0, seen, _ => seen
  | fuel + 1, seen, node :: stack =>
      if node = start ∨ node ∈ seen then search next start fuel seen stack
      else search next start fuel (node :: seen) ((next node).reverse ++ stack)

/-- How many other members depend on a member, directly or not.  Every member is expanded once at
most, which bounds how often the stack is popped. -/
def downstreamCount (members : List WorkspaceKey) (dependsOn : WorkspaceKey → List WorkspaceKey)
    (start : WorkspaceKey) : ℕ :=
  let next := dependents members dependsOn
  (search next start (members.length * (members.length + 1)) [] (next start).reverse).length

/-- For each node of an order, the length of the longest path to it, and where that comes from. -/
def bestPaths (order : List WorkspaceKey) (dependsOn : WorkspaceKey → List WorkspaceKey) :
    List (WorkspaceKey × ℕ × Option WorkspaceKey) :=
  order.foldl (fun best node =>
    let longest := (dependsOn node).foldl (fun (found : ℕ × Option WorkspaceKey) dep =>
      let cand := ((lastOf best dep).map Prod.fst).getD 0 + 1
      if found.1 < cand then (cand, some dep) else found) (1, none)
    best ++ [(node, longest)]) []

/-- The path that ends in a node, backwards. -/
def pathTo (best : List (WorkspaceKey × ℕ × Option WorkspaceKey)) :
    ℕ → WorkspaceKey → List WorkspaceKey
  | 0, _ => []
  | fuel + 1, node =>
      node :: match lastOf best node with
        | some (_, some prev) => pathTo best fuel prev
        | _ => []

/-- The longest path, from its root to its leaf; of those that end in several leaves, the one of
the least leaf. -/
def criticalPath (order : List WorkspaceKey) (dependsOn : WorkspaceKey → List WorkspaceKey) :
    List WorkspaceKey :=
  let best := bestPaths order dependsOn
  let last := best.foldl (fun (found : Option (WorkspaceKey × ℕ)) entry =>
    match found with
    | none => some (entry.1, entry.2.1)
    | some (node, len) =>
        if len < entry.2.1 ∨ (len = entry.2.1 ∧ entry.1.asStr < node.asStr) then
          some (entry.1, entry.2.1)
        else found) none
  match last with
  | none => []
  | some (node, _) => (pathTo best order.length node).reverse

inductive EdgeKind where
  | blocks | mergeAfter | contract
deriving DecidableEq, Repr

structure EpicEdge where
  source : WorkspaceKey
  target : WorkspaceKey
  kind : EdgeKind
deriving DecidableEq, Repr

def EdgeKind.ordinal : EdgeKind → ℕ
  | .blocks => 0
  | .mergeAfter => 1
  | .contract => 2

/-- Every edge of the graph with its kind, in order. -/
def graphEdges (resolved : Resolved) : List EpicEdge :=
  let edges (kind : EdgeKind) (tos : WorkspaceKey → List WorkspaceKey) : List EpicEdge :=
    resolved.members.flatMap fun m => (tos m).map (⟨m, ·, kind⟩)
  (edges .blocks resolved.dependsOn ++ edges .mergeAfter resolved.mergeAfter
      ++ edges .contract resolved.contracts).insertionSort fun a b =>
    toLex (a.source.asStr, toLex (a.target.asStr, a.kind.ordinal))
      ≤ toLex (b.source.asStr, toLex (b.target.asStr, b.kind.ordinal))

structure MergeOrderEntry where
  key : WorkspaceKey
  /-- The predecessors that did not land yet. -/
  heldBy : List WorkspaceKey
deriving DecidableEq, Repr

def heldBy (resolved : Resolved) (key : WorkspaceKey) : List WorkspaceKey :=
  (resolved.mergeAfter key).filter fun pred => !resolved.landingSettled pred

/-- The pull requests in the order they may land; those caught in a cycle come last. -/
def mergeOrder (resolved : Resolved) : List MergeOrderEntry :=
  let prMembers := resolved.members.filter resolved.hasPr
  let restricted (m : WorkspaceKey) : List WorkspaceKey :=
    if m ∈ prMembers then (resolved.mergeAfter m).filter (· ∈ prMembers) else []
  let (_, order, cycle) := waves prMembers restricted
  ((inOrder cycle).foldl push order).map fun key => ⟨key, heldBy resolved key⟩

end Lazybox.Epics
