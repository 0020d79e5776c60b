import Mathlib.Data.List.Sort
import Lazybox.Polling.WriteTargets
import Lazybox.Core.MergePolicy
import Lazybox.Core.WorkspaceKey
import Lazybox.Library.Words

/-!
# The rows a pull request may absorb

When a pull request closes an issue, was written for a ticket, or was opened from a scratch
workspace, the row of that issue, ticket or scratch workspace is folded into the row of the pull
request.  Some of the rows are found by the pull request alone, the others by a scan of the
store.
-/

universe u

namespace Lazybox.Collapse

/-! ### Text -/

/-- The text after the last `c`. -/
def afterLast (c : Char) (s : List Char) : List Char := ((rsplitOnce c s).map Prod.snd).getD s

/-- The text before the first `c`. -/
def beforeFirst (c : Char) (s : List Char) : List Char := ((splitOnce c s).map Prod.fst).getD s

/-- A set of texts, in order. -/
def ordered (keys : List String) : List String := (keys.insertionSort (· ≤ ·)).dedup

@[simp]
theorem mem_ordered {key : String} {keys : List String} :
  key ∈ ordered keys ↔ key ∈ keys
  := by
  rw [ordered, List.mem_dedup, List.mem_insertionSort]

theorem nodup_ordered (keys : List String) :
  (ordered keys).Nodup
  := List.nodup_dedup _

/-! ### Tasks and workspaces -/

/-- A task as a poll brings it. -/
structure PolledTask extends Link where
  body : Option String
  branch : Option String
  merged : Bool
  closesIssues : List TaskId
  linkedTasks : List TaskId
deriving DecidableEq, Repr

def PolledTask.keepKind (task previous : PolledTask) : PolledTask :=
  { task with kind := task.kind.or previous.kind }

def upsertById : List PolledTask → PolledTask → List PolledTask
  | [], task => [task]
  | slot :: rest, task =>
      if slot.id = task.id then task.keepKind slot :: rest else slot :: upsertById rest task

/-- A workspace.  `own` is its activity, and what the user has set of it. -/
structure Workspace (V : Type u) where
  key : String
  pr : Option PolledTask
  ghIssues : List PolledTask
  linearIssues : List PolledTask
  projectKey : Option String
  isLocal : Bool
  hopper : Bool
  linkedCheckout : Bool
  branch : String
  sessions : List ℕ
  own : V
deriving DecidableEq, Repr

/-- What becomes of the activity, and of what the user has set, when a workspace is built for a
task, has a task attached, or absorbs another workspace. -/
structure Carry (V : Type u) where
  build : PolledTask → V
  attach : Workspace V → PolledTask → V
  absorb : Workspace V → Workspace V → V

def projectKeyForTask (task : PolledTask) : Option String :=
  let repo := trim (task.repo.getD "").toList
  if repo = [] then none
  else if task.id.source = "github" then
    match splitOnce '/' repo with
    | some (owner, name) => some ("github-" ++ String.ofList owner ++ "-" ++ String.ofList name)
    | none => some ("github-" ++ String.ofList repo)
  else if task.id.source = "linear" then some ("linear-" ++ String.ofList repo)
  else some (task.id.source ++ "-" ++ String.ofList (sanitizeKey repo))

namespace Workspace

variable {V : Type u} (carry : Carry V) (ws : Workspace V)

def primaryTask : Option PolledTask := (ws.pr.or ws.ghIssues.head?).or ws.linearIssues.head?

/-- The project a workspace belongs to: its own, or that of its primary task. -/
def project : Option String := ws.projectKey.or (ws.primaryTask.bind projectKeyForTask)

def attachTask (task : PolledTask) : Workspace V :=
  match classifyTask task.toLink with
  | .pr =>
      { ws with
        pr := some (match ws.pr with
          | some existing => task.keepKind existing
          | none => task)
        own := carry.attach ws task }
  | .ghIssue =>
      { ws with ghIssues := upsertById ws.ghIssues task, own := carry.attach ws task }
  | .linearIssue =>
      { ws with linearIssues := upsertById ws.linearIssues task, own := carry.attach ws task }
  | .unknown => ws

def fromTask (task : PolledTask) : Workspace V :=
  attachTask carry
    { key := workspaceKeyForId task.id, pr := none, ghIssues := [], linearIssues := [],
      projectKey := projectKeyForTask task, isLocal := false, hopper := false,
      linkedCheckout := false, branch := task.branch.getD (workspaceKeyForId task.id),
      sessions := [], own := carry.build task }
    task

def addSession (session : ℕ) : Workspace V :=
  if session ∈ ws.sessions then ws else { ws with sessions := ws.sessions ++ [session] }

/-- Fold another workspace into one: what the user set, the sessions and the issues. -/
def absorbIssueWorkspace (issue : Workspace V) : Workspace V :=
  let ws := { ws with own := carry.absorb ws issue }
  let ws := issue.sessions.foldl addSession ws
  (issue.ghIssues ++ issue.linearIssues).foldl (attachTask carry) ws

/-! What a workspace takes in leaves it under its key. -/

@[simp]
theorem attachTask_key (task : PolledTask) :
  (attachTask carry ws task).key = ws.key
  := by
  unfold attachTask
  split <;> rfl

@[simp]
theorem fromTask_key (task : PolledTask) :
  (fromTask carry task).key = workspaceKeyForId task.id
  := by
  rw [fromTask, attachTask_key]

end Workspace

/-! ### Candidates by the pull request -/

def issueIdFromBranch (pr : PolledTask) : Option TaskId := do
  guard (toAsciiLowercase pr.id.source.toList = "github".toList)
  let branch ← pr.branch
  let rest ← (afterLast '/' branch.toList).dropPrefix? "issue-".toList
  let number := beforeFirst '-' rest
  guard (number ≠ [] ∧ number.all Char.isDigit)
  let repo ← pr.repo
  guard (repo ≠ "")
  return ⟨pr.id.source, repo ++ "#" ++ String.ofList number⟩

/-- After a keyword, the number follows: not as the beginning of a longer one. -/
def referenceNumberFollows (afterKeyword number : List Char) : Bool :=
  let rest := afterKeyword.dropWhile fun c => c ∈ [' ', '\t', '\r', '\n', ':']
  match (rest.dropPrefix? ['#']).bind (·.dropPrefix? number) with
  | some tail => !(tail.head?.any Char.isDigit)
  | none => false

/-- An occurrence of the keyword is followed by the number.  No keyword overlaps itself, so the
search comes to each of them. -/
def keywordReferences (keyword number : List Char) : List Char → Bool
  | [] => false
  | c :: s =>
      (keyword.isPrefixOf (c :: s)
          && referenceNumberFollows ((c :: s).drop keyword.length) number)
        || keywordReferences keyword number s

def nonClosingKeywords : List String := ["part of", "refs", "ref", "related to"]

def bodyReferencesIssueNonClosing (pr : PolledTask) (issue : TaskId) : Bool :=
  let number := afterLast '#' issue.key.toList
  number ≠ [] && pr.body.any fun body =>
    nonClosingKeywords.any fun keyword =>
      keywordReferences keyword.toList number (toAsciiLowercase body.toList)

/-- The issues a pull request is about: those it closes or, when it closes none, the one its
branch is named for, and the tasks it links. -/
def closingIssues (pr : PolledTask) : List TaskId :=
  let fallback := match issueIdFromBranch pr with
    | some id =>
        if pr.closesIssues = [] ∧ !bodyReferencesIssueNonClosing pr id then [id] else []
    | none => []
  pr.closesIssues ++ fallback ++ pr.linkedTasks

def closingIssueWorkspaceKeys (pr : PolledTask) : List String :=
  ordered ((closingIssues pr).map workspaceKeyForId)

/-! ### Candidates by the store -/

/-- A stored row: a workspace under its key, or a text that does not decode. -/
inductive WorkspaceRecord (V : Type u) where
  | decoded (ws : Workspace V)
  | undecodable (key : String)
deriving DecidableEq, Repr

namespace WorkspaceRecord

variable {V : Type u}

def key : WorkspaceRecord V → String
  | .decoded ws => ws.key
  | .undecodable key => key

def workspace : WorkspaceRecord V → Option (Workspace V)
  | .decoded ws => some ws
  | .undecodable _ => none

end WorkspaceRecord

section Candidates

variable {V : Type u}

/-- Hand-created, with no task of its own, and neither imported nor captured. -/
def Workspace.isScratch (ws : Workspace V) : Bool :=
  ws.isLocal && ws.ghIssues.isEmpty && ws.linearIssues.isEmpty && !ws.hopper && !ws.linkedCheckout

/-- The body of the pull request names the workspace. -/
def marked (pr : PolledTask) (key : String) : Bool :=
  pr.body.any fun body => occursIn ("lazybox:" ++ key) body

/-- The head branch of a pull request, when it has one. -/
def headBranch (pr : PolledTask) : Option (List Char) :=
  (pr.branch.map fun branch => trim branch.toList).filter fun branch => branch ≠ []

/-- The workspace was checked out on the branch of the pull request, in its project. -/
def sameBranch (pr : PolledTask) (ws : Workspace V) : Bool :=
  !ws.sessions.isEmpty && headBranch pr = some (trim ws.branch.toList)
    && (projectKeyForTask pr).isSome && ws.project = projectKeyForTask pr

/-- A stored workspace is one that the pull request adopts. -/
def storeSideCandidate (pr : PolledTask) (ws : Workspace V) : Bool :=
  ws.pr.isNone
    && (ws.linearIssues.any (fun ticket => pr.id ∈ ticket.linkedTasks)
      || (ws.isScratch && (marked pr ws.key || sameBranch pr ws)))

/-- What the store lists, unless it fails. -/
abbrev Listing (V : Type u) := Option (List (WorkspaceRecord V))

def storeSideCollapseCandidates (listing : Listing V) (pr : PolledTask) : List String :=
  (((listing.getD []).filterMap WorkspaceRecord.workspace).filter (storeSideCandidate pr)).map
    Workspace.key

def collapseCandidateKeys (listing : Listing V) (pr : PolledTask) : List String :=
  ordered (closingIssueWorkspaceKeys pr ++ storeSideCollapseCandidates listing pr)

end Candidates

end Lazybox.Collapse

/-!
## The scratch row a marker names

The body of a pull request names the scratch workspace it came from, by a marker with the key of
the workspace.  The marker is searched for anywhere in the body, so that the marker of one
workspace is found for every other one whose key it begins with.
-/

namespace Lazybox.Collapse

universe v

variable {V : Type v}

/-- The characters a key goes on with. -/
def joinsKey (c : Char) : Bool := c.isAlphanum || c = '-' || c = '_'

def markerFor (key : String) : List Char := ("lazybox:" ++ key).toList

/-- The stored workspaces. -/
def stored (listing : Listing V) : List (Workspace V) :=
  (listing.getD []).filterMap WorkspaceRecord.workspace

/-- A candidate that the marker in the body is for. -/
def adoptedByMarker (pr : PolledTask) (ws : Workspace V) : Bool :=
  ws.pr.isNone && ws.isScratch && marked pr ws.key

/-- The body has the marker of a workspace as a word. -/
def Named (pr : PolledTask) (ws : Workspace V) : Prop :=
  ∃ body ∈ pr.body, WordIn joinsKey (markerFor ws.key) body.toList

/-- The body has a longer word that the marker of a workspace is inside of, as that of `name-2` is
for `name`. -/
def NamedInLonger (pr : PolledTask) (ws : Workspace V) : Prop :=
  ∃ body ∈ pr.body, InLongerWord joinsKey (markerFor ws.key) body.toList

/-- A workspace is a candidate by a ticket, by the marker or by its branch. -/
theorem storeSideCandidate_iff {pr : PolledTask} {ws : Workspace V} :
  storeSideCandidate pr ws = true
    ↔ (ws.pr.isNone ∧ ∃ ticket ∈ ws.linearIssues, pr.id ∈ ticket.linkedTasks)
      ∨ adoptedByMarker pr ws = true
      ∨ (ws.pr.isNone ∧ ws.isScratch ∧ sameBranch pr ws)
  := by
  simp only [storeSideCandidate, adoptedByMarker, Bool.and_eq_true, Bool.or_eq_true,
    List.any_eq_true, decide_eq_true_eq, and_or_left, and_assoc]

theorem marked_iff {pr : PolledTask} {ws : Workspace V} :
  marked pr ws.key = true ↔ Named pr ws ∨ NamedInLonger pr ws
  := by
  rw [marked, Named, NamedInLonger]
  cases pr.body with
  | none => simp
  | some body =>
    simp only [Option.any_some, occursIn, decide_eq_true_eq, Option.mem_some_iff]
    rw [show ("lazybox:" ++ ws.key).toList = markerFor ws.key from rfl,
      infix_iff_word joinsKey]
    simp

/-- A marker adopts the workspaces it names and no others if and only if it is not, in part, the
marker of another scratch workspace. -/
theorem marker_adopts_named_iff (listing : Listing V) (pr : PolledTask) :
  (∀ ws ∈ stored listing, storeSideCandidate pr ws → adoptedByMarker pr ws → Named pr ws)
    ↔ ∀ ws ∈ stored listing, ws.pr.isNone → ws.isScratch → NamedInLonger pr ws → Named pr ws
  := by
  constructor
  · intro h ws hws hpr hscratch hlonger
    have hadopted : adoptedByMarker pr ws = true := by
      rw [adoptedByMarker, hpr, hscratch, marked_iff.mpr (Or.inr hlonger)]
      rfl
    exact h ws hws (storeSideCandidate_iff.mpr (Or.inr (Or.inl hadopted))) hadopted
  · intro h ws hws _ hadopted
    simp only [adoptedByMarker, Bool.and_eq_true] at hadopted
    obtain ⟨⟨hpr, hscratch⟩, hmarked⟩ := hadopted
    obtain hnamed | hlonger := marked_iff.mp hmarked
    · apply hnamed
    · apply h ws hws hpr hscratch hlonger

/-- A scratch workspace that nothing was checked out in. -/
def scratch (key : String) : Workspace Unit where
  key := key
  pr := none
  ghIssues := []
  linearIssues := []
  projectKey := some "github-o-r"
  isLocal := true
  hopper := false
  linkedCheckout := false
  branch := "main"
  sessions := []
  own := ()

def prNaming (body : String) : PolledTask where
  id := ⟨"github", "o/r#7"⟩
  kind := some .pr
  url := "https://github.com/o/r/pull/7"
  nodeId := none
  repo := some "o/r"
  body := some body
  branch := some "feat"
  merged := false
  closesIssues := []
  linkedTasks := []

/-- The marker of the second of two workspaces of one name adopts the first as well. -/
theorem longer_marker_adopts :
  ∃ (listing : Listing Unit) (pr : PolledTask), ∃ ws ∈ stored listing,
    storeSideCollapseCandidates listing pr = ["spike", "spike-2"]
      ∧ Named pr (scratch "spike-2")
      ∧ storeSideCandidate pr ws ∧ adoptedByMarker pr ws ∧ ¬Named pr ws
  := by
  use some [.decoded (scratch "spike"), .decoded (scratch "spike-2")],
    prNaming "Closes nothing.\n\nlazybox:spike-2\n", scratch "spike", List.mem_cons_self
  refine ⟨by decide +kernel, ⟨_, rfl, by decide +kernel⟩, by decide +kernel, by decide +kernel, ?_⟩
  rintro ⟨body, hbody, hword⟩
  obtain rfl := Option.some.inj hbody
  revert hword
  decide +kernel

end Lazybox.Collapse
