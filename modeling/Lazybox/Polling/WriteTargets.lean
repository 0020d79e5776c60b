import Lazybox.Polling.OpsDispatch

/-!
# Where a write goes

A workspace holds a pull request and issues, and the first of them is its primary task.  A
provider operation is about the task that was primary when it was requested.  The provider is
handed the workspace as it was loaded when the write is sent, and takes the task it writes to from
its slots.
-/

namespace Lazybox

inductive Provider where
  | github
  | linear
deriving DecidableEq, Repr

inductive TaskKind where
  | pr
  | issue
deriving DecidableEq, Repr

/-- What a slot of a workspace has of a task, beside its values. -/
structure Link where
  id : TaskId
  kind : Option TaskKind
  url : String
  nodeId : Option String
  repo : Option String
deriving DecidableEq, Repr

/-- A string occurs in another. -/
def occursIn (part whole : String) : Bool := decide (part.toList <:+: whole.toList)

def Link.isPr (link : Link) : Bool :=
  match link.kind with
  | some .pr => true
  | some .issue => false
  | none =>
      occursIn "/pull/" link.url || occursIn "/pull-requests/" link.url
        || occursIn "/merge_requests/" link.url

inductive TaskSlot where
  | pr
  | ghIssue
  | linearIssue
  | unknown
deriving DecidableEq, Repr

def classifyTask (link : Link) : TaskSlot :=
  if link.id.source = "linear" then .linearIssue
  else if link.isPr then .pr
  else if occursIn "/issues/" link.url || link.id.source = "github" || link.kind = some .issue then
    .ghIssue
  else .unknown

/-- Keep the kind of a task that was typed before. -/
def Link.keepKind (link previous : Link) : Link := { link with kind := link.kind.or previous.kind }

def upsertById : List Link → Link → List Link
  | [], link => [link]
  | slot :: rest, link =>
      if slot.id = link.id then link.keepKind slot :: rest else slot :: upsertById rest link

/-- The tasks of a workspace. -/
structure Slots where
  pr : Option Link
  ghIssues : List Link
  linearIssues : List Link
deriving DecidableEq, Repr

namespace Slots

/-- The headline of a workspace: its pull request, or its first issue. -/
def primaryTask (ws : Slots) : Option Link :=
  (ws.pr.or ws.ghIssues.head?).or ws.linearIssues.head?

def attachTask (ws : Slots) (link : Link) : Slots :=
  match classifyTask link with
  | .pr =>
      { ws with pr := some (match ws.pr with
          | some existing => link.keepKind existing
          | none => link) }
  | .ghIssue => { ws with ghIssues := upsertById ws.ghIssues link }
  | .linearIssue => { ws with linearIssues := upsertById ws.linearIssues link }
  | .unknown => ws

def all (ws : Slots) : List Link := ws.pr.toList ++ ws.ghIssues ++ ws.linearIssues

def holds (ws : Slots) (task : TaskId) : Bool := ws.all.any fun link => link.id = task

end Slots

/-! ### The calls of a write -/

/-- A change to the node of a task. -/
inductive Change where
  | addAssignees (logins : List String)
  | removeAssignees (logins : List String)
  | addLabels (names : List String)
  | removeLabels (names : List String)
  | requestReviews (logins : List String)
  | closeIssue
  | setAssignee (login : Option String)
deriving DecidableEq, Repr

/-- A call of the provider, on the node of a task. -/
structure ProviderCall where
  task : TaskId
  node : String
  change : Change
deriving DecidableEq, Repr

/-- Why the provider is not called. -/
inductive WriteError where
  | permanent (source detail : String)
  | unsupported (source operation : String)
deriving DecidableEq, Repr

/-- A workspace as it was loaded: its slots, and the values of its tasks as they are stored. -/
structure Loaded where
  key : String
  slots : Slots
  entities : TaskId → Task

/-- A task with its node, when it has one. -/
def Link.node (link : Link) : Option (TaskId × String) :=
  link.nodeId.map fun node => (link.id, node)

/-- The node that GitHub's assignees and labels are set on: the pull request's, or the first
issue's. -/
def Slots.assignable (ws : Slots) : Option (TaskId × String) :=
  (ws.pr.bind Link.node).or (ws.ghIssues.head?.bind Link.node)

/-- The task that the write of a field goes to, by the slots of the workspace. -/
def Slots.writesTo (ws : Slots) (provider : Provider) (field : MutationField) :
    Option (TaskId × String) :=
  match provider, field with
  | .github, .assignees | .github, .labels => ws.assignable
  | .github, .reviewers => ws.pr.bind Link.node
  | .github, .state => ws.ghIssues.head?.bind Link.node
  | .linear, .assignees | .linear, .state => ws.primaryTask.bind Link.node
  | .linear, .labels | .linear, .reviewers => none

namespace Loaded

variable (ws : Loaded)

/-- Calls that are left out when they would change nothing. -/
def callsOf (target : TaskId × String) (changes : List (List String × (List String → Change))) :
    List ProviderCall :=
  (changes.filter fun change => !change.1.isEmpty).map fun change =>
    ⟨target.1, target.2, change.2 change.1⟩

def notAssignable : WriteError :=
  .permanent "github"
    ("workspace " ++ ws.key ++ " has neither a PR nor an issue with a node_id")

def setAssignees (logins : List String) : Except WriteError (List ProviderCall) :=
  match ws.slots.assignable with
  | none => .error ws.notAssignable
  | some target =>
      let existing := (ws.entities target.1).assignees
      .ok (callsOf target
        [(logins.dedup.filter fun login => login ∉ existing, .addAssignees),
          (existing.dedup.filter fun login => login ∉ logins, .removeAssignees)])

/-- The labels of a repository are the ones whose names can be resolved. -/
def setLabels (repoLabels names : List String) : Except WriteError (List ProviderCall) :=
  match ws.slots.assignable with
  | none => .error ws.notAssignable
  | some target =>
      match ws.slots.primaryTask.bind Link.repo with
      | none => .error (.permanent "github" "primary task has no repo")
      | some repo =>
          if !repo.toList.contains '/' then
            .error (.permanent "github" ("bad repo string `" ++ repo ++ "`"))
          else
            let existing := (ws.entities target.1).labels.map Label.name
            .ok (callsOf target
              [(names.filter fun name => name ∉ existing && name ∈ repoLabels, .addLabels),
                (existing.filter fun name => name ∉ names && name ∈ repoLabels, .removeLabels)])

def requestReviewers (logins : List String) : Except WriteError (List ProviderCall) :=
  match ws.slots.pr with
  | none => .error (.permanent "github" ("workspace " ++ ws.key ++ " has no PR"))
  | some pr =>
      match pr.node with
      | none => .error (.permanent "github" "PR has no node_id (poll first)")
      | some target => .ok (callsOf target [(logins, .requestReviews)])

def closeIssue : Except WriteError (List ProviderCall) :=
  match ws.slots.ghIssues.head? with
  | none => .error (.permanent "github" ("workspace " ++ ws.key ++ " has no issue"))
  | some issue =>
      match issue.node with
      | none => .error (.permanent "github" "issue has no node_id (poll first)")
      | some target => .ok [⟨target.1, target.2, .closeIssue⟩]

/-- The issue that Linear writes to. -/
def issueIdFor : Except WriteError (TaskId × String) :=
  match ws.slots.primaryTask with
  | none => .error (.permanent "linear" ("workspace " ++ ws.key ++ " has no primary task"))
  | some link =>
      match link.node with
      | none => .error (.permanent "linear" "task has no node_id (poll first)")
      | some target => .ok target

/-- Linear holds one assignee, the last that was picked. -/
def narrowAssignees (logins : List String) : List String := logins.getLast?.toList

def setLinearAssignees (logins : List String) : Except WriteError (List ProviderCall) :=
  ws.issueIdFor.map fun target =>
    [⟨target.1, target.2, .setAssignee (narrowAssignees logins).head?⟩]

def closeLinearIssue : Except WriteError (List ProviderCall) :=
  ws.issueIdFor.map fun target => [⟨target.1, target.2, .closeIssue⟩]

/-- The calls of the write of a field. -/
def dispatch (provider : Provider) (repoLabels : List String) (desired : DesiredFields) :
    MutationField → Except WriteError (List ProviderCall)
  | .assignees =>
      match provider with
      | .github => ws.setAssignees (desired.assignees.getD [])
      | .linear => ws.setLinearAssignees (desired.assignees.getD [])
  | .labels =>
      match provider with
      | .github => ws.setLabels repoLabels (desired.labels.getD [])
      | .linear => .error (.unsupported "linear" "set_labels")
  | .reviewers =>
      match provider with
      | .github => ws.requestReviewers (desired.reviewers.getD [])
      | .linear => .error (.unsupported "linear" "request_reviewers")
  | .state =>
      match provider with
      | .github => ws.closeIssue
      | .linear => ws.closeLinearIssue

variable {ws}

theorem task_of_mem_callsOf
    {target : TaskId × String} {changes : List (List String × (List String → Change))}
    {call : ProviderCall} (h : call ∈ callsOf target changes) :
  (call.task, call.node) = target
  := by
  obtain ⟨change, -, rfl⟩ := List.mem_map.mp h
  rfl

theorem issueIdFor_eq {target : TaskId × String} (h : ws.issueIdFor = .ok target) :
  ws.slots.primaryTask.bind Link.node = some target
  := by
  unfold issueIdFor at h
  cases hprimary : ws.slots.primaryTask with
  | none =>
    rw [hprimary] at h
    cases h
  | some link =>
    rw [hprimary] at h
    dsimp only at h
    cases hnode : link.node with
    | none =>
      rw [hnode] at h
      cases h
    | some found =>
      rw [hnode] at h
      cases h
      apply hnode

/-- Every call of the write of a field is on the task that it goes to. -/
theorem dispatch_writesTo {provider : Provider} {repoLabels : List String} {desired : DesiredFields}
    {field : MutationField} {calls : List ProviderCall}
    (h : ws.dispatch provider repoLabels desired field = .ok calls) {call : ProviderCall}
    (hcall : call ∈ calls) :
  ws.slots.writesTo provider field = some (call.task, call.node)
  := by
  cases provider with
  | github =>
    cases field with
    | assignees =>
      change ws.setAssignees _ = .ok calls at h
      change ws.slots.assignable = _
      unfold setAssignees at h
      split at h
      · cases h
      · next htarget =>
          cases h
          rw [htarget, task_of_mem_callsOf hcall]
    | labels =>
      change ws.setLabels _ _ = .ok calls at h
      change ws.slots.assignable = _
      unfold setLabels at h
      split at h
      · cases h
      · next htarget =>
          split at h
          · cases h
          · split at h
            · cases h
            · cases h
              rw [htarget, task_of_mem_callsOf hcall]
    | reviewers =>
      change ws.requestReviewers _ = .ok calls at h
      change ws.slots.pr.bind Link.node = _
      unfold requestReviewers at h
      split at h
      · cases h
      · next hpr =>
          split at h
          · cases h
          · next hnode =>
              cases h
              rw [hpr, Option.bind_some, hnode, task_of_mem_callsOf hcall]
    | state =>
      change ws.closeIssue = .ok calls at h
      change ws.slots.ghIssues.head?.bind Link.node = _
      unfold closeIssue at h
      split at h
      · cases h
      · next hissue =>
          split at h
          · cases h
          · next hnode =>
              cases h
              rw [List.mem_singleton] at hcall
              rw [hissue, Option.bind_some, hnode, hcall]
  | linear =>
    have hissue : ∀ change, ws.issueIdFor.map (fun target =>
        [(⟨target.1, target.2, change⟩ : ProviderCall)]) = .ok calls →
        ws.slots.primaryTask.bind Link.node = some (call.task, call.node) := by
      intro change hcalls
      cases htarget : ws.issueIdFor with
      | error error =>
        rw [htarget] at hcalls
        cases hcalls
      | ok target =>
        rw [htarget] at hcalls
        cases hcalls
        rw [List.mem_singleton] at hcall
        rw [issueIdFor_eq htarget, hcall]
    cases field with
    | assignees | state => apply hissue _ h
    | labels | reviewers => cases h

end Loaded

end Lazybox
