import Lazybox.Polling.AutoMergeLatch
import Lazybox.Polling.WriteTargets

/-!
# The merge call of an attempt

An attempt asks the backend to merge after every gate was checked on what it fetched.  The last
gate is the order of a stack: a pull request whose base is the head of another open one is held.
The other pull requests are read from the store, and a store that does not answer has none.

What an attempt does is the list of its effects, in order.  It settles its latch once and leaves
the latch, the events and the row of the attempt of the daemon.
-/

namespace Lazybox

/-- A pull request with its own branch. -/
structure PrTask extends PullRequest where
  branch : Option String
  kind : Option TaskKind
  url : String
deriving DecidableEq, Repr

namespace PrTask

def link (task : PrTask) : Link := ⟨task.id, task.kind, task.url, task.nodeId, task.repo⟩

def isOpenPr (task : PrTask) : Bool :=
  task.link.isPr
    && (task.state = .opened || task.state = .inProgress || task.state = .inReview
      || task.state = .draft)

end PrTask

/-! ### Stacks -/

/-- The open pull requests whose branches are known. -/
def inStackScope (task : PrTask) : Bool :=
  task.isOpenPr && task.repo.isSome && task.branch.isSome

/-- The last pull request of a repository with a head. -/
def byHead (prs : List PrTask) (repo head : String) : Option TaskId :=
  (prs.reverse.find? fun pr => pr.repo = some repo && pr.branch = some head).map (·.id)

/-- The pull request whose head is the base of another. -/
def parentOf (prs : List PrTask) (pr : PrTask) : Option TaskId := do
  let repo ← pr.repo
  let base ← pr.baseBranch
  let parentId ← byHead prs repo base
  if parentId ≠ pr.id then some parentId else none

def linkParent (prs : List PrTask) (parent : TaskId → Option TaskId) (pr : PrTask) :
    TaskId → Option TaskId :=
  match parentOf prs pr with
  | some parentId => Function.update parent pr.id (some parentId)
  | none => parent

/-- The parent of each pull request in a stack. -/
def detectStacks (tasks : List PrTask) : TaskId → Option TaskId :=
  let prs := tasks.filter inStackScope
  prs.foldl (linkParent prs) fun _ => none

def stackedOnOpenParentAmong (others : List PrTask) (child : PrTask) : Bool :=
  (detectStacks (others.filter (fun task => task.id ≠ child.id) ++ [child]) child.id).isSome

/-- A stored workspace row: its pull request, and whether a plain decoder reads the row. -/
structure StoredRow where
  pr : Option PrTask
  readable : Bool
deriving DecidableEq, Repr

/-- The pull requests of the stored workspaces. -/
def storedPrs (rows : List StoredRow) : List PrTask := rows.filterMap (·.pr)

/-- The pull requests a listing of the workspaces gives.  A listing that fails gives none. -/
def listedPrs (rows : List StoredRow) (listed : Bool) : List PrTask :=
  if listed then storedPrs (rows.filter (·.readable)) else []

def stackedOnOpenParent (rows : List StoredRow) (listed : Bool) (child : PrTask) : Bool :=
  if child.repo.isNone || child.baseBranch.isNone then false
  else stackedOnOpenParentAmong (listedPrs rows listed) child

/-! ### Effects -/

inductive AttemptEffect where
  | fetch (owner repo : String) (number : ℕ)
  | merge (ws : Workspace) (expectedHeadOid : Option String)
  | markMergeReported
  | settle (latch : Option Latch)
  | send (event : AutoMergeEvent)
  | commit (fresh : PullRequest)
  | wake

/-- What an attempt meets, in the order it asks. -/
structure AttemptEnv where
  ws : Option Workspace
  pausedUntil : Option Instant
  fetched : Except String (Option (PrTask × Option String))
  approval : Except String ApprovalPolicy
  policy : MergeOnGreenPolicy
  rows : List StoredRow
  /-- The listing of the workspaces succeeds. -/
  listed : Bool
  merge : Except MergeError MergeOutcome

namespace MergeCall

open AttemptEffect

/-- The effects once the merge was answered. -/
def answered (key : WorkspaceKey) (prLabel : String) (fresh : PullRequest)
    (head : Option String) : Except MergeError MergeOutcome → List AttemptEffect
  | .ok .queued =>
      [settle (some (.done head)), send (.prQueued key prLabel),
        commit { fresh with isInMergeQueue := true }, wake]
  | .ok (.merged trailers) =>
      let dropped := match trailers with
        | .recorded => []
        | .dropped reason => [send (.providerErrorRetryable "auto-merge"
            ("auto-merged " ++ prLabel ++ ", but the cost record was not written: " ++ reason))]
      markMergeReported :: dropped
        ++ [settle (some (.done head)), send (.prMerged key prLabel), wake]
  | .error e =>
      if e.isRetryable then [settle none, commit fresh]
      else
        let latch := if transientMergeRejection e.diagnostic then .blocked head
          else .rejected head
        [settle (some latch), send (.prMergeFailed key prLabel e.humanized false), commit fresh]

/-- The workspace as the gates and the call have it. -/
def probe (ws : Workspace) (fresh : PrTask) : Workspace :=
  { ws with pr := some fresh.toPullRequest }

/-- A stand-down is announced once for a head. -/
def stoodDown (ticket : AttemptPlan) (fresh : PrTask) (head : Option String) (text : String) :
    List AttemptEffect :=
  (if ticket.restore = some (.blocked head) then []
    else [send (.providerErrorRetryable "auto-merge" text)])
    ++ [settle (some (.blocked head)), commit fresh.toPullRequest]

/-- The effects from the gates on. -/
def verifyAndMerge (ticket : AttemptPlan) (ws : Workspace) (prLabel : String)
    (fresh : PrTask) (head : Option String) (env : AttemptEnv) : List AttemptEffect :=
  if ticket.skipIfHead.isSome ∧ head.isSome ∧ ticket.skipIfHead = head then
    [settle (some (.rejected head)), commit fresh.toPullRequest]
  else match autoMergeBlockReason (probe ws fresh) env.policy with
  | some reason =>
      stoodDown ticket fresh head ("auto-merge stood down on " ++ prLabel ++ ": " ++ reason)
  | none =>
      if stackedOnOpenParent env.rows env.listed fresh then
        stoodDown ticket fresh head
          ("auto-merge held on " ++ prLabel ++ ": stacked on a still-open parent PR")
      else merge (probe ws fresh) head
        :: answered ticket.workspaceKey prLabel fresh.toPullRequest head env.merge

def runAttempt (ticket : AttemptPlan) (env : AttemptEnv) : List AttemptEffect :=
  match env.ws with
  | none => [settle none]
  | some ws =>
      if !ws.autoMergeOnGreen then [settle none]
      else match ws.pr.bind githubTarget with
      | none => [settle (some (.blocked none))]
      | some (owner, repo, number) =>
          if env.pausedUntil.isSome then [settle ticket.restore]
          else fetch owner repo number :: match env.fetched with
          | .error _ => [settle ticket.restore]
          | .ok none => [settle (some (.blocked none))]
          | .ok (some (fetched, head)) =>
              match env.approval with
              | .error _ => [settle ticket.restore]
              | .ok approval =>
                  let prLabel := (ws.pr.map (·.id.key)).getD ticket.workspaceKey.asStr
                  verifyAndMerge ticket ws prLabel { fetched with approvalPolicy := approval }
                    head env

end MergeCall

/-! ### What a stack is -/

section Stacks

variable {prs others : List PrTask} {child : PrTask}

theorem byHead_eq_some {repo head : String} {id : TaskId} (h : byHead prs repo head = some id) :
  ∃ pr ∈ prs, pr.repo = some repo ∧ pr.branch = some head ∧ pr.id = id
  := by
  rw [byHead, Option.map_eq_some_iff] at h
  obtain ⟨pr, hfind, hid⟩ := h
  have hpr := List.find?_some hfind
  rw [Bool.and_eq_true, decide_eq_true_eq, decide_eq_true_eq] at hpr
  use pr, List.mem_reverse.mp (List.mem_of_find?_eq_some hfind), hpr.1, hpr.2, hid

theorem byHead_eq_none {repo head : String} :
  byHead prs repo head = none ↔ ∀ pr ∈ prs, pr.repo = some repo → pr.branch ≠ some head
  := by
  simp [byHead]

theorem parentOf_isSome {pr : PrTask} :
  (parentOf prs pr).isSome = true
    ↔ ∃ repo base id, pr.repo = some repo ∧ pr.baseBranch = some base
      ∧ byHead prs repo base = some id ∧ id ≠ pr.id
  := by
  simp only [parentOf, Option.bind_eq_bind, Option.isSome_iff_exists, Option.bind_eq_some_iff,
    Option.ite_none_right_eq_some, Option.some.injEq]
  constructor
  · rintro ⟨-, repo, hrepo, base, hbase, id, hhead, hne, -⟩
    exact ⟨repo, base, id, hrepo, hbase, hhead, hne⟩
  · rintro ⟨repo, base, id, hrepo, hbase, hhead, hne⟩
    exact ⟨id, repo, hrepo, base, hbase, id, hhead, hne, rfl⟩

variable {parent : TaskId → Option TaskId}

theorem linkParent_of_ne {pr : PrTask} {id : TaskId} (h : pr.id ≠ id) :
  linkParent prs parent pr id = parent id
  := by
  rw [linkParent]
  cases parentOf prs pr with
  | none => rfl
  | some parentId => apply Function.update_of_ne h.symm

theorem linkParent_self {pr : PrTask} (h : parent pr.id = none) :
  linkParent prs parent pr pr.id = parentOf prs pr
  := by
  rw [linkParent]
  cases parentOf prs pr with
  | none => apply h
  | some parentId => apply Function.update_self

theorem foldl_linkParent_of_ne {l : List PrTask} {id : TaskId} (h : ∀ pr ∈ l, pr.id ≠ id) :
  l.foldl (linkParent prs) parent id = parent id
  := by
  induction l generalizing parent with
  | nil => rfl
  | cons pr rest ih =>
    rw [List.forall_mem_cons] at h
    rw [List.foldl_cons, ih h.2, linkParent_of_ne h.1]

/-- A pull request is stacked if another open one has its base as head.  One whose base has the
name of its own head is on nothing. -/
theorem stackedOnOpenParentAmong_iff :
  stackedOnOpenParentAmong others child = true
    ↔ inStackScope child = true ∧ child.branch ≠ child.baseBranch
      ∧ ∃ pr ∈ others, pr.id ≠ child.id ∧ inStackScope pr = true
        ∧ pr.repo = child.repo ∧ pr.branch = child.baseBranch
  := by
  rw [stackedOnOpenParentAmong, detectStacks, List.filter_append]
  have hothers : ∀ pr ∈ (others.filter fun task => task.id ≠ child.id).filter inStackScope,
      pr ∈ others ∧ pr.id ≠ child.id ∧ inStackScope pr = true := by
    intro pr hpr
    rw [List.mem_filter, List.mem_filter, decide_eq_true_eq] at hpr
    exact ⟨hpr.1.1, hpr.1.2, hpr.2⟩
  by_cases hscope : inStackScope child = true
  · rw [List.filter_cons_of_pos hscope, List.filter_nil, List.foldl_append, List.foldl_cons,
      List.foldl_nil, linkParent_self, parentOf_isSome]
    · constructor
      · rintro ⟨repo, base, id, hrepo, hbase, hhead, hne⟩
        use hscope
        obtain ⟨pr, hpr, hprepo, hbranch, hid⟩ := byHead_eq_some hhead
        constructor
        · -- the child was entered last, and would be found first
          intro hown
          apply hne
          rw [byHead, List.reverse_append, List.reverse_singleton, List.singleton_append,
            List.find?_cons_of_pos, Option.map_some, Option.some.injEq] at hhead
          · apply hhead.symm
          · rw [hrepo, hown, hbase]
            simp
        · rw [List.mem_append, List.mem_singleton] at hpr
          rcases hpr with hpr | rfl
          · obtain ⟨hmem, hpne, hpscope⟩ := hothers pr hpr
            use pr, hmem, hpne, hpscope
            rw [hprepo, hbranch, hrepo, hbase]
            exact ⟨rfl, rfl⟩
          · exact absurd hid.symm hne
      · rintro ⟨-, hown, pr, hpr, hpne, hpscope, hprepo, hbranch⟩
        have hin := hpscope
        rw [inStackScope, Bool.and_eq_true, Bool.and_eq_true] at hin
        obtain ⟨repo, hrepo⟩ := Option.isSome_iff_exists.mp hin.1.2
        obtain ⟨base, hbase⟩ := Option.isSome_iff_exists.mp hin.2
        rw [hbase] at hbranch
        rw [hrepo] at hprepo
        use repo, base
        cases hhead : byHead ((others.filter fun task => task.id ≠ child.id).filter inStackScope
            ++ [child]) repo base with
        | none =>
          exfalso
          apply byHead_eq_none.mp hhead pr _ hrepo hbase
          rw [List.mem_append, List.mem_filter, List.mem_filter, decide_eq_true_eq]
          exact Or.inl ⟨⟨hpr, hpne⟩, hpscope⟩
        | some id =>
          use id, hprepo.symm, hbranch.symm, rfl
          obtain ⟨pr', hpr', -, hbranch', rfl⟩ := byHead_eq_some hhead
          rw [List.mem_append, List.mem_singleton] at hpr'
          rcases hpr' with hpr' | rfl
          · apply (hothers pr' hpr').2.1
          · exact absurd (hbranch'.trans hbranch) hown
    · apply foldl_linkParent_of_ne
      intro pr hpr
      apply (hothers pr hpr).2.1
  · rw [List.filter_cons_of_neg hscope, List.filter_nil, List.append_nil,
      foldl_linkParent_of_ne fun pr hpr => (hothers pr hpr).2.1]
    constructor
    · intro h
      cases h
    · rintro ⟨h, -⟩
      exact absurd h hscope

/-- The check of an attempt is that of the pull requests it was given. -/
theorem stackedOnOpenParent_eq {rows : List StoredRow} {listed : Bool} :
  stackedOnOpenParent rows listed child
    = stackedOnOpenParentAmong (listedPrs rows listed) child
  := by
  rw [stackedOnOpenParent]
  split
  · next hmissing =>
      rw [eq_comm, ← Bool.not_eq_true, stackedOnOpenParentAmong_iff]
      rintro ⟨-, -, pr, -, -, hscope, hrepo, hbranch⟩
      rw [inStackScope, Bool.and_eq_true, Bool.and_eq_true, hrepo, hbranch] at hscope
      rw [Bool.or_eq_true] at hmissing
      rcases hmissing with hnone | hnone
      · rw [Option.isNone_iff_eq_none.mp hnone] at hscope
        cases hscope.1.2
      · rw [Option.isNone_iff_eq_none.mp hnone] at hscope
        cases hscope.2
  · rfl

end Stacks

namespace MergeCall

def merges (effects : List AttemptEffect) : List (Workspace × Option String) :=
  effects.filterMap fun
    | .merge ws expectedHeadOid => some (ws, expectedHeadOid)
    | _ => none

def settled (effects : List AttemptEffect) : List (Option Latch) :=
  effects.filterMap fun
    | .settle latch => some latch
    | _ => none

def sent (effects : List AttemptEffect) : List AutoMergeEvent :=
  effects.filterMap fun
    | .send event => some event
    | _ => none

def committed (effects : List AttemptEffect) : List PullRequest :=
  effects.filterMap fun
    | .commit fresh => some fresh
    | _ => none

end MergeCall

/-- What the attempt of the daemon is answered, the order of the stack being one of the
answers. -/
def AttemptEnv.answers (env : AttemptEnv) : Answers where
  stored := env.ws
  client := true
  ws := env.ws
  pausedUntil := env.pausedUntil
  fetched := env.fetched.map (·.map fun (fetched, head) => (fetched.toPullRequest, head))
  approval := env.approval
  policy := env.policy
  stacked :=
    match env.fetched, env.approval with
    | .ok (some (fetched, _)), .ok approval =>
        stackedOnOpenParent env.rows env.listed { fetched with approvalPolicy := approval }
    | _, _ => false
  merge := env.merge

namespace MergeCall

/-! ### The latch, the events and the row -/

/-- The effects leave what an attempt of the daemon leaves. -/
structure Leaves (effects : List AttemptEffect) (outcome : AttemptOutcome) : Prop where
  settled : settled effects = [outcome.latch]
  sent : sent effects = outcome.events
  committed : committed effects = outcome.fresh.toList

theorem leaves_settle (latch : Option Latch) :
  Leaves [.settle latch] (.quiet latch)
  := ⟨rfl, rfl, rfl⟩

theorem Leaves.fetch {effects : List AttemptEffect} {outcome : AttemptOutcome}
    (h : Leaves effects outcome) (owner repo : String) (number : ℕ) :
  Leaves (.fetch owner repo number :: effects) outcome
  := ⟨h.settled, h.sent, h.committed⟩

theorem Leaves.merge {effects : List AttemptEffect} {outcome : AttemptOutcome}
    (h : Leaves effects outcome) (ws : Workspace) (expectedHeadOid : Option String) :
  Leaves (.merge ws expectedHeadOid :: effects) outcome
  := ⟨h.settled, h.sent, h.committed⟩

theorem leaves_answered (key : WorkspaceKey) (prLabel : String) (fresh : PullRequest)
    (head : Option String) (answer : Except MergeError MergeOutcome) :
  Leaves (answered key prLabel fresh head answer) (mergeAnswered key prLabel fresh head answer)
  := by
  rcases answer with e | (trailers | -)
  · rw [answered, mergeAnswered]
    split
    · exact ⟨rfl, rfl, rfl⟩
    · exact ⟨rfl, rfl, rfl⟩
  · cases trailers with
    | recorded => exact ⟨rfl, rfl, rfl⟩
    | dropped reason => exact ⟨rfl, rfl, rfl⟩
  · exact ⟨rfl, rfl, rfl⟩

theorem leaves_stoodDown (ticket : AttemptPlan) (fresh : PrTask) (head : Option String)
    (text : String) :
  Leaves (stoodDown ticket fresh head text)
    ⟨some (.blocked head),
      if ticket.restore = some (.blocked head) then []
        else [.providerErrorRetryable "auto-merge" text],
      some fresh.toPullRequest⟩
  := by
  rw [stoodDown]
  split
  · exact ⟨rfl, rfl, rfl⟩
  · exact ⟨rfl, rfl, rfl⟩

variable {ticket : AttemptPlan}

variable {ws : Workspace}

theorem leaves_verifyAndMerge {prLabel : String} {fetched : PrTask} {head : Option String}
    {env : AttemptEnv} {approval : ApprovalPolicy} (h : env.fetched = .ok (some (fetched, head)))
    (happroval : env.approval = .ok approval) :
  Leaves (verifyAndMerge ticket ws prLabel { fetched with approvalPolicy := approval } head env)
    (Lazybox.verifyAndMerge ticket ws prLabel fetched.toPullRequest head env.answers)
  := by
  rw [verifyAndMerge, Lazybox.verifyAndMerge]
  simp only [AttemptEnv.answers, happroval, h, probe]
  split
  · exact ⟨rfl, rfl, rfl⟩
  · generalize autoMergeBlockReason _ env.policy = reason
    cases reason with
    | some reason => apply leaves_stoodDown
    | none =>
      dsimp only
      split
      · apply leaves_stoodDown
      · apply Leaves.merge
        apply leaves_answered

/-- An attempt settles once, and leaves what an attempt of the daemon leaves. -/
theorem leaves_runAttempt (ticket : AttemptPlan) (env : AttemptEnv) :
  Leaves (runAttempt ticket env) (Lazybox.runAttempt ticket env.answers)
  := by
  rw [runAttempt, Lazybox.runAttempt]
  cases hws : env.ws with
  | none =>
    simp only [AttemptEnv.answers, hws]
    apply leaves_settle
  | some ws =>
    cases htarget : ws.pr.bind githubTarget with
    | none =>
      simp only [AttemptEnv.answers, hws, htarget, Option.isNone_none, if_true]
      split
      · apply leaves_settle
      · apply leaves_settle
    | some target =>
      obtain ⟨owner, repo, number⟩ := target
      simp only [AttemptEnv.answers, hws, htarget, Option.isNone_some, Bool.false_eq_true,
        if_false]
      split
      · apply leaves_settle
      · split
        · apply leaves_settle
        · apply Leaves.fetch
          rcases hfetched : env.fetched with e | (- | ⟨fetched, head⟩)
          · apply leaves_settle
          · apply leaves_settle
          · cases happroval : env.approval with
            | error e =>
              simp only [Option.map_some, Except.map, Lazybox.verifyAndMerge]
              apply leaves_settle
            | ok approval =>
              have h := @leaves_verifyAndMerge ticket ws
                ((ws.pr.map (·.id.key)).getD ticket.workspaceKey.asStr) _ _ _ _ hfetched
                happroval
              simp only [AttemptEnv.answers, hws, hfetched, happroval] at h
              apply h

/-! ### When the backend is asked to merge -/

/-- The gates of an attempt before the order of the stack. -/
structure Green (ticket : AttemptPlan) (env : AttemptEnv) (ws : Workspace) (fresh : PrTask)
    (head : Option String) : Prop where
  loaded : env.ws = some ws
  armed : ws.autoMergeOnGreen = true
  target : (ws.pr.bind githubTarget).isSome = true
  unpaused : env.pausedUntil = none
  fetched : ∃ fetched approval, env.fetched = .ok (some (fetched, head))
    ∧ env.approval = .ok approval ∧ fresh = { fetched with approvalPolicy := approval }
  unrejected : ∀ rejected, ticket.skipIfHead = some rejected → head ≠ some rejected
  unblocked : autoMergeBlockReason (probe ws fresh) env.policy = none

theorem merges_answered (key : WorkspaceKey) (prLabel : String) (fresh : PullRequest)
    (head : Option String) (answer : Except MergeError MergeOutcome) :
  merges (answered key prLabel fresh head answer) = []
  := by
  rcases answer with e | (trailers | -)
  · rw [answered]
    split
    · rfl
    · rfl
  · cases trailers with
    | recorded => rfl
    | dropped reason => rfl
  · rfl

theorem merges_stoodDown (ticket : AttemptPlan) (fresh : PrTask) (head : Option String)
    (text : String) :
  merges (stoodDown ticket fresh head text) = []
  := by
  rw [stoodDown]
  split
  · rfl
  · rfl

theorem rejected_iff {skipIfHead head : Option String} :
  (skipIfHead.isSome ∧ head.isSome ∧ skipIfHead = head)
    ↔ ¬ ∀ rejected, skipIfHead = some rejected → head ≠ some rejected
  := by
  cases skipIfHead with
  | none => simp
  | some rejected =>
    cases head with
    | none => simp
    | some current => simp [eq_comm]

theorem merges_fetch (owner repo : String) (number : ℕ) (effects : List AttemptEffect) :
  merges (.fetch owner repo number :: effects) = merges effects
  := rfl

open Classical in
theorem merges_verifyAndMerge
    {prLabel : String} {fresh : PrTask} {head : Option String} {env : AttemptEnv} :
  merges (verifyAndMerge ticket ws prLabel fresh head env)
    = if (∀ rejected, ticket.skipIfHead = some rejected → head ≠ some rejected)
        ∧ autoMergeBlockReason (probe ws fresh) env.policy = none
        ∧ stackedOnOpenParent env.rows env.listed fresh = false
      then [(probe ws fresh, head)] else []
  := by
  rw [verifyAndMerge]
  split
  · next hrejected =>
      rw [rejected_iff] at hrejected
      rw [if_neg fun h => hrejected h.1]
      rfl
  · next hrejected =>
      rw [rejected_iff, not_not] at hrejected
      cases autoMergeBlockReason (probe ws fresh) env.policy with
      | some reason => rw [merges_stoodDown, if_neg fun h => Option.some_ne_none _ h.2.1]
      | none =>
        dsimp only
        split
        · next hstacked =>
            rw [merges_stoodDown, if_neg fun h => Bool.false_ne_true (h.2.2.symm.trans hstacked)]
        · next hstacked =>
            rw [Bool.not_eq_true] at hstacked
            rw [if_pos ⟨hrejected, rfl, hstacked⟩, merges, List.filterMap_cons, ← merges,
              merges_answered]

/-- The backend is asked to merge at most once. -/
theorem length_merges_runAttempt (ticket : AttemptPlan) (env : AttemptEnv) :
  (merges (runAttempt ticket env)).length ≤ 1
  := by
  have hverify : ∀ ws prLabel fresh head,
      (merges (verifyAndMerge ticket ws prLabel fresh head env)).length ≤ 1 := by
    intro ws prLabel fresh head
    rw [merges_verifyAndMerge]
    split
    · apply le_rfl
    · apply Nat.zero_le
  rw [runAttempt]
  split
  · apply Nat.zero_le
  · split
    · apply Nat.zero_le
    · split
      · apply Nat.zero_le
      · split
        · apply Nat.zero_le
        · rw [merges_fetch]
          split
          · apply Nat.zero_le
          · apply Nat.zero_le
          · split
            · apply Nat.zero_le
            · apply hverify

/-- The backend is asked to merge what passed the gates and is stacked on nothing listed. -/
theorem mem_merges_runAttempt {env : AttemptEnv} {call : Workspace × Option String} :
  call ∈ merges (runAttempt ticket env)
    ↔ ∃ ws fresh head, Green ticket env ws fresh head
      ∧ stackedOnOpenParent env.rows env.listed fresh = false ∧ call = (probe ws fresh, head)
  := by
  constructor
  · intro hcall
    rw [runAttempt] at hcall
    split at hcall
    · cases hcall
    · next ws hws =>
        split at hcall
        · cases hcall
        · next harmed =>
            split at hcall
            · cases hcall
            · next owner repo number htarget =>
                split at hcall
                · cases hcall
                · next hpaused =>
                    rw [merges_fetch] at hcall
                    split at hcall
                    · cases hcall
                    · cases hcall
                    · next fetched head hfetched =>
                        split at hcall
                        · cases hcall
                        · next approval happroval =>
                            dsimp only at hcall
                            rw [merges_verifyAndMerge] at hcall
                            split at hcall
                            · next h =>
                                obtain ⟨hrejected, hreason, hstacked⟩ := h
                                use ws, { fetched with approvalPolicy := approval }, head
                                refine ⟨⟨hws, by simpa using harmed, by rw [htarget]; rfl,
                                  by simpa using hpaused,
                                  ⟨fetched, approval, hfetched, happroval, rfl⟩,
                                  hrejected, hreason⟩, hstacked, List.mem_singleton.mp hcall⟩
                            · cases hcall
  · rintro ⟨ws, fresh, head, green, hstacked, rfl⟩
    obtain ⟨fetched, approval, hfetched, happroval, rfl⟩ := green.fetched
    obtain ⟨⟨owner, repo, number⟩, htarget⟩ := Option.isSome_iff_exists.mp green.target
    rw [runAttempt, green.loaded]
    dsimp only
    rw [green.armed, Bool.not_true, if_neg Bool.false_ne_true, htarget]
    dsimp only
    rw [green.unpaused, Option.isSome_none, if_neg Bool.false_ne_true, hfetched, happroval,
      merges_fetch]
    dsimp only
    rw [merges_verifyAndMerge, if_pos ⟨green.unrejected, green.unblocked, hstacked⟩]
    apply List.mem_singleton_self

theorem Green.fresh_eq
    {env : AttemptEnv} {ws' : Workspace} {fresh fresh' : PrTask} {head head' : Option String}
    (green : Green ticket env ws fresh head) (green' : Green ticket env ws' fresh' head') :
  fresh = fresh'
  := by
  obtain ⟨fetched, approval, hfetched, happroval, rfl⟩ := green.fetched
  obtain ⟨fetched', approval', hfetched', happroval', rfl⟩ := green'.fetched
  rw [hfetched] at hfetched'
  rw [happroval] at happroval'
  cases hfetched'
  cases happroval'
  rfl

/-- An attempt that is dispatched restores a verdict, if anything. -/
theorem restore_of_plan {memory : AutoMergeMemory} {key : WorkspaceKey} {signal : Signal}
    {changed : Bool} (planned : (plan memory key signal changed).2 = some ticket) :
  ticket.restore ≠ some .inFlight
  := by
  unfold plan AutoMergeMemory.dispatch at planned
  split at planned
  · cases planned
  · cases planned
  · split at planned
    · cases planned
      simp
    · cases planned
    · cases planned
    · split at planned
      · cases planned
        simp
      · cases planned
    · split at planned
      · cases planned
        simp
      · cases planned

/-- Whenever the other gates are passed, the listing shows a stack that is stored. -/
def ShowsStack (ticket : AttemptPlan) (env : AttemptEnv) : Prop :=
  ∀ ws fresh head, Green ticket env ws fresh head →
    stackedOnOpenParentAmong (storedPrs env.rows) fresh = true →
    stackedOnOpenParentAmong (listedPrs env.rows env.listed) fresh = true

/-- An attempt asks the backend to merge at most once, and only what passed all gates and is
stacked on nothing stored, and it settles its latch, exactly if the listing shows the stack. -/
theorem merge_call_justified_iff
    {memory : AutoMergeMemory} {key : WorkspaceKey} {signal : Signal} {changed : Bool}
    {ticket : AttemptPlan} (planned : (plan memory key signal changed).2 = some ticket)
    (env : AttemptEnv) :
  (merges (runAttempt ticket env)).length ≤ 1
      ∧ (∀ call ∈ merges (runAttempt ticket env), ∃ ws fresh head,
        Green ticket env ws fresh head
          ∧ stackedOnOpenParentAmong (storedPrs env.rows) fresh = false
          ∧ call = (probe ws fresh, head))
      ∧ (∃ latch, settled (runAttempt ticket env) = [latch] ∧ latch ≠ some .inFlight)
    ↔ ShowsStack ticket env
  := by
  constructor
  · rintro ⟨-, hcalls, -⟩ ws fresh head green hstored
    by_contra hlisted
    rw [Bool.not_eq_true, ← stackedOnOpenParent_eq] at hlisted
    obtain ⟨ws', fresh', head', green', hunstacked, -⟩ :=
      hcalls _ (mem_merges_runAttempt.mpr ⟨ws, fresh, head, green, hlisted, rfl⟩)
    rw [← green.fresh_eq green', hstored] at hunstacked
    cases hunstacked
  · intro hshows
    use length_merges_runAttempt ticket env
    constructor
    · intro call hcall
      obtain ⟨ws, fresh, head, green, hlisted, rfl⟩ := mem_merges_runAttempt.mp hcall
      refine ⟨ws, fresh, head, green, ?_, rfl⟩
      rw [← Bool.not_eq_true]
      intro hstored
      rw [stackedOnOpenParent_eq, hshows ws fresh head green hstored] at hlisted
      cases hlisted
    · use (Lazybox.runAttempt ticket env.answers).latch, (leaves_runAttempt ticket env).settled
      apply runAttempt_latch _ (restore_of_plan planned)

/-- A ready pull request on the head of another open one. -/
def childPr : PrTask where
  toPullRequest := { AutoMerge.readyPr with baseBranch := some "feature" }
  branch := some "feature-2"
  kind := some .pr
  url := "https://github.com/o/r/pull/1"

/-- The other one. -/
def parentPr : PrTask where
  toPullRequest := { AutoMerge.readyPr with id := ⟨"github", "o/r#2"⟩ }
  branch := some "feature"
  kind := some .pr
  url := "https://github.com/o/r/pull/2"

def stackedEnv (listed : Bool) : AttemptEnv where
  ws := some (AutoMerge.readyRow true)
  pausedUntil := none
  fetched := .ok (some (childPr, some "abc"))
  approval := .ok .default
  policy := .fromAllowAuthors []
  rows := [⟨some childPr, true⟩, ⟨some parentPr, true⟩]
  listed := listed
  merge := .ok (.merged .recorded)

/-- The first attempt of the workspace. -/
def firstTicket : AttemptPlan := ⟨⟨"github-o-r-1"⟩, none, none⟩

theorem merge_call_justified_listed :
  (merges (runAttempt firstTicket (stackedEnv true))).length ≤ 1
      ∧ (∀ call ∈ merges (runAttempt firstTicket (stackedEnv true)), ∃ ws fresh head,
        Green firstTicket (stackedEnv true) ws fresh head
          ∧ stackedOnOpenParentAmong (storedPrs (stackedEnv true).rows) fresh = false
          ∧ call = (probe ws fresh, head))
      ∧ (∃ latch, settled (runAttempt firstTicket (stackedEnv true)) = [latch]
        ∧ latch ≠ some .inFlight)
    ↔ ShowsStack firstTicket (stackedEnv true)
  := @merge_call_justified_iff .new ⟨"github-o-r-1"⟩ .fire true firstTicket rfl (stackedEnv true)

/-- The listing of the workspaces fails, and a pull request stacked on an open one is merged. -/
theorem merged_on_open_parent :
  (∃ ws, (ws, some "abc") ∈ merges (runAttempt firstTicket (stackedEnv false)))
    ∧ ¬ ∀ call ∈ merges (runAttempt firstTicket (stackedEnv false)), ∃ ws fresh head,
      Green firstTicket (stackedEnv false) ws fresh head
        ∧ stackedOnOpenParentAmong (storedPrs (stackedEnv false).rows) fresh = false
        ∧ call = (probe ws fresh, head)
  := by
  have green : Green firstTicket (stackedEnv false) (AutoMerge.readyRow true) childPr
      (some "abc") := by
    constructor
    · rfl
    · rfl
    · decide +kernel
    · rfl
    · use childPr, .default
      exact ⟨rfl, rfl, rfl⟩
    · rintro rejected h
      cases h
    · decide +kernel
  have hcall := mem_merges_runAttempt.mpr
    ⟨AutoMerge.readyRow true, childPr, some "abc", green, by decide +kernel, rfl⟩
  use ⟨_, hcall⟩
  intro hcalls
  obtain ⟨ws, fresh, head, green', hunstacked, -⟩ := hcalls _ hcall
  rw [← green.fresh_eq green'] at hunstacked
  revert hunstacked
  decide +kernel

end MergeCall

end Lazybox
