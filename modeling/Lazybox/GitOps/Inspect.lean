import Lazybox.GitOps.Repository
import Lazybox.GitOps.Output

/-!
# Unpushed commits

Nothing is unpushed when HEAD is in the history of the remote-tracking ref of the branch, the tip
of the branch in that of any remote-tracking ref, or else HEAD in that of its upstream or of the
default branch.  Only the second of these is about the tip of a branch that is given, all others
are about HEAD, wherever it is.
-/

namespace Lazybox.GitOps

variable {Commit : Type} [DecidableEq Commit]
variable (fails : Probe → Bool) (G : Ancestry Commit)

/-- How far HEAD is ahead of the default branch, at the remote or in the clone. -/
def aheadOfDefault (worktree : Option (Checkout Commit)) (branch : Branch) : Option ℕ :=
  match revListCount fails G .aheadOfRemoteDefault worktree (·.refs.resolve (originRef branch)) with
  | some n => some n
  | none => revListCount fails G .aheadOfDefault worktree (·.refs.resolve (.head branch))

/-- What is told by the upstream, or by the default branch. -/
def aheadOfUpstream (worktree : Option (Checkout Commit)) (bare : Option (Refs Commit)) : Bool :=
  match revListCount fails G .aheadOfUpstream worktree Checkout.upstream with
  | some n => n > 0
  | none =>
      match bare with
      | none => false
      | some refs =>
          match revListCount fails G .aheadOfOriginHead worktree Checkout.originHead with
          | some n => n > 0
          | none =>
              match (bareHeadBranch fails .bareHead refs).bind
                (aheadOfDefault fails G worktree) with
              | some n => n > 0
              | none => true

def unpushed (worktree : Option (Checkout Commit)) (bare : Option (Refs Commit))
    (branch : Option Branch) : Bool :=
  match bare, branch with
  | some refs, some branch =>
      if refExists fails .ownRemoteRef refs (originRef branch) then
        match revListCount fails G .aheadOfOwnRemote worktree (·.refs.resolve (originRef branch))
        with
        | some n => if n = 0 then false else !branchTipOnRemote fails G .ownContains refs branch
        | none => aheadOfUpstream fails G worktree bare
      else if branchTipOnRemote fails G .ownContains refs branch then false
      else aheadOfUpstream fails G worktree bare
  | _, _ => aheadOfUpstream fails G worktree bare

/-! ### Evidence -/

omit [DecidableEq Commit] in
/-- HEAD is in the history of a ref. -/
def Checkout.Within (checkout : Checkout Commit) (ref : RefName) : Prop :=
  ∃ start ∈ checkout.refs.resolve ref, ∃ tip ∈ checkout.tip, tip ∈ G.ancestors start

/-- The tip of a branch is in the history of a remote-tracking ref. -/
def Refs.TipOnRemote (refs : Refs Commit) (branch : Branch) : Prop :=
  ∃ tip ∈ refs.heads branch, ∃ ref ∈ refs.remotes, tip ∈ G.ancestors ref.2

/-- What told that nothing is unpushed. -/
inductive Evidence (worktree : Option (Checkout Commit)) (bare : Option (Refs Commit))
    (branch : Option Branch) : Prop where
  | remote {checkout name} (at' : worktree = some checkout)
      (within : checkout.Within G (.remote name))
  | upstream {checkout own ref} (at' : worktree = some checkout)
      (head : checkout.head = .attached own) (tracked : checkout.refs.upstream own = some ref)
      (within : checkout.Within G ref)
  | default {checkout refs main} (at' : worktree = some checkout) (clone : bare = some refs)
      (head : refs.head = some main) (within : checkout.Within G (.head main))
  | tip {refs own} (clone : bare = some refs) (asked : branch = some own)
      (contained : refs.TipOnRemote G own)
  /-- There is no clone, and no answer about the upstream. -/
  | nothing (clone : bare = none)
      (silent : revListCount fails G .aheadOfUpstream worktree Checkout.upstream = none)

variable {fails G} {worktree : Option (Checkout Commit)} {bare : Option (Refs Commit)}
  {branch : Option Branch}

theorem within_of_none_ahead {probe : Probe} {ref : RefName}
    (h : revListCount fails G probe worktree (·.refs.resolve ref) = some 0) :
  ∃ checkout, worktree = some checkout ∧ checkout.Within G ref
  := by
  obtain ⟨-, checkout, hat, within⟩ := (revListCount_eq_zero fails G).mp h
  exact ⟨checkout, hat, within⟩

namespace Evidence

theorem of_upstream
    (h : revListCount fails G .aheadOfUpstream worktree Checkout.upstream = some 0) :
  Evidence fails G worktree bare branch
  := by
  obtain ⟨-, checkout, hat, start, hstart, within⟩ := (revListCount_eq_zero fails G).mp h
  rw [Checkout.upstream] at hstart
  split at hstart
  · next own head =>
      obtain ⟨ref, tracked, hresolve⟩ := Option.bind_eq_some_iff.mp hstart
      apply Evidence.upstream hat head tracked
      use start, hresolve
  · cases hstart

theorem of_originHead
    (h : revListCount fails G .aheadOfOriginHead worktree Checkout.originHead = some 0) :
  Evidence fails G worktree bare branch
  := by
  obtain ⟨-, checkout, hat, start, hstart, within⟩ := (revListCount_eq_zero fails G).mp h
  obtain ⟨name, -, hresolve⟩ := Option.bind_eq_some_iff.mp hstart
  apply Evidence.remote hat
  use start, hresolve

theorem of_default {refs : Refs Commit} {main : Branch} (clone : bare = some refs)
    (head : refs.head = some main) (h : aheadOfDefault fails G worktree main = some 0) :
  Evidence fails G worktree bare branch
  := by
  rw [aheadOfDefault] at h
  split at h
  · next n hcount =>
      rw [h] at hcount
      obtain ⟨checkout, hat, within⟩ := within_of_none_ahead hcount
      apply Evidence.remote hat within
  · obtain ⟨checkout, hat, within⟩ := within_of_none_ahead h
    apply Evidence.default hat clone head within

theorem of_aheadOfUpstream (h : aheadOfUpstream fails G worktree bare = false) :
  Evidence fails G worktree bare branch
  := by
  unfold aheadOfUpstream at h
  split at h
  · next n hcount =>
      obtain rfl : n = 0 := by simpa using h
      apply of_upstream hcount
  · next silent =>
      split at h
      · apply Evidence.nothing rfl silent
      · next refs =>
          split at h
          · next n hcount =>
              obtain rfl : n = 0 := by simpa using h
              apply of_originHead hcount
          · split at h
            · next n hcount =>
                obtain rfl : n = 0 := by simpa using h
                obtain ⟨main, hmain, hdefault⟩ := Option.bind_eq_some_iff.mp hcount
                apply of_default rfl ((ask_eq_some fails).mp hmain).2 hdefault
            · cases h

theorem of_tip {refs : Refs Commit} {own : Branch}
    (h : branchTipOnRemote fails G .ownContains refs own = true) :
  Evidence fails G worktree (some refs) (some own)
  := by
  apply Evidence.tip rfl rfl
  apply ((branchTipOnRemote_iff fails G).mp h).2

end Evidence

/-- Nothing is called pushed without evidence. -/
theorem evidence_of_not_unpushed (h : unpushed fails G worktree bare branch = false) :
  Evidence fails G worktree bare branch
  := by
  unfold unpushed at h
  split at h
  · next refs own =>
      split at h
      · split at h
        · next n hcount =>
            split at h
            · next hn =>
                rw [hn] at hcount
                obtain ⟨checkout, hat, within⟩ := within_of_none_ahead hcount
                apply Evidence.remote hat within
            · apply Evidence.of_tip
              simpa using h
        · apply Evidence.of_aheadOfUpstream h
      · split at h
        · next htip =>
            apply Evidence.of_tip htip
        · apply Evidence.of_aheadOfUpstream h
  · apply Evidence.of_aheadOfUpstream h

end Lazybox.GitOps

/-!
## Inspection of worktrees

The worktrees that the clones list are put in an index by their places, in which a later one
replaces an earlier one of the same place.  A directory is inspected with what the index has of it,
and a worktree of the index whose directory is gone is reported as well.  A row says whether the
worktree is safe to delete.

A list that fails adds nothing, and so does any other command.
-/

namespace Lazybox.GitOps

open WorkingClaim (Text splitLines)

inductive OrphanReason where
  | untracked | sessionStopped | branchDeletedUpstream | branchMissingLocally | prunable | locked
deriving DecidableEq

def isReapableReason : OrphanReason → Bool
  | .untracked | .sessionStopped | .branchDeletedUpstream | .branchMissingLocally | .prunable =>
      true
  | .locked => false

structure TrackedSession where
  sessionId : String
  worktreePath : Path
  isStopped : Bool

/-- A row of the report, but for the sizes and the time of the last change. -/
structure WorktreeInspection where
  path : Path
  barePath : Option Path
  branch : Option Branch
  sessionId : Option String
  reasons : List OrphanReason
  hasUncommittedChanges : Bool
  hasTrackedModifications : Bool
  hasUntrackedWork : Bool
  hasUntrackedBuildOutput : Bool
  statusVerified : Bool
  hasUnpushedCommits : Bool
  isSafeToDelete : Bool
deriving DecidableEq

def WorktreeInspection.isDirtyOnlyWithBuildOutput (row : WorktreeInspection) : Bool :=
  row.hasUntrackedBuildOutput && !row.hasTrackedModifications && !row.hasUntrackedWork

/-! ### Paths -/

/-- The components of a path. -/
def components (path : Path) : List Text :=
  let pieces := ((path.toList.splitOn '/').filter fun piece => piece ≠ [] ∧ piece ≠ ['.'])
  if path.toList.head? = some '/' then ['/'] :: pieces else pieces

def startsWith (path base : Path) : Bool := (components base).isPrefixOf (components path)

def sharedMainDir : String := "_main"

def isSharedMainCheckout (path : Path) : Bool :=
  (components path).getLast? = some sharedMainDir.toList

/-- The order of lists in that of their elements. -/
def lexBelow {α : Type} [DecidableEq α] (below : α → α → Bool) : List α → List α → Bool
  | _, [] => false
  | [], _ :: _ => true
  | a :: as, b :: bs => below a b || (a = b && lexBelow below as bs)

def pathBelow (p q : Path) : Bool :=
  lexBelow (lexBelow fun c d => c.toNat < d.toNat) (components p) (components q)

/-! ### The index -/

/-- What the clones list, by place. -/
abbrev Index := List (Path × (Path × PorcelainEntry))

namespace Index

def get (index : Index) (key : Path) : Option (Path × PorcelainEntry) :=
  (Keyed.lookup Prod.fst key index).map Prod.snd

def insert (index : Index) (key : Path) (value : Path × PorcelainEntry) : Index :=
  (key, value) :: Keyed.erase Prod.fst key index

end Index

section Inspect

variable {Commit : Type} [DecidableEq Commit]
variable (fails : Path → Probe → Bool) (G : Ancestry Commit) (w : World Commit)

omit [DecidableEq Commit] in
/-- The worktrees of a clone, added to an index. -/
def addClone (index : Index) (clone : Clone Commit) : Index :=
  match ask (fails clone.path) .list (some (listPorcelain clone)) with
  | some entries =>
      entries.foldl (fun index entry => index.insert (w.canonical entry.path) (clone.path, entry))
        index
  | none => index

omit [DecidableEq Commit] in
def porcelain : Index := w.clones.foldl (addClone fails w) []

/-- The session of a place; of two, the one that was given last. -/
def trackedAt (tracked : List TrackedSession) (canon : Path) : Option TrackedSession :=
  tracked.reverse.find? fun t => w.canonical t.worktreePath = canon

/-! ### One worktree -/

/-- Why a branch of a clone is gone. -/
def branchReasons (fails : Probe → Bool) (refs : Refs Commit) (branch : Branch) :
    List OrphanReason :=
  let localExists := refExists fails .localRef refs (.head branch)
  let remoteExists := refExists fails .remoteRef refs (originRef branch)
  (if !remoteExists && localExists && (branchHasUpstreamConfig fails refs branch
    || branchTipOnRemote fails G .contains refs branch) then [.branchDeletedUpstream] else [])
    ++ if localExists then [] else [.branchMissingLocally]

/-- What a session is a reason for. -/
def sessionReasons (path : Path) : Option TrackedSession → List OrphanReason
  | none => if isSharedMainCheckout path then [] else [.untracked]
  | some t => if !isSharedMainCheckout path && t.isStopped then [.sessionStopped] else []

def inspectOne (index : Index) (tracked : List TrackedSession) (path canon : Path) :
    WorktreeInspection :=
  let entry := index.get canon
  let barePath := entry.map Prod.fst
  let branch := entry.bind (·.2.branch)
  let locked := entry.any (·.2.locked)
  let prunable := entry.any (·.2.prunable)
  let session := trackedAt w tracked canon
  let bare := (barePath.bind w.clone?).map Clone.refs
  let (uncommitted, ahead) :=
    if w.worktreeDirReady path then
      (dirtyState (fails path) w path,
        unpushed (fails path) G (w.checkout? path) bare branch)
    else (none, false)
  let dirty := uncommitted.getD DirtyState.default
  let reasons := (if locked then [.locked] else []) ++ (if prunable then [.prunable] else [])
    ++ sessionReasons path session
    ++ match bare, branch with
      | some refs, some branch => branchReasons G (fails path) refs branch
      | _, _ => []
  { path := path
    barePath := barePath
    branch := branch
    sessionId := session.map TrackedSession.sessionId
    reasons := reasons
    hasUncommittedChanges := dirty.any
    hasTrackedModifications := dirty.trackedChanges
    hasUntrackedWork := dirty.untrackedWork
    hasUntrackedBuildOutput := dirty.untrackedBuildOutput
    statusVerified := uncommitted.isSome
    hasUnpushedCommits := ahead
    isSafeToDelete := !locked && uncommitted.any (!·.any) && !ahead
      && reasons.any isReapableReason }

/-- The row of a worktree whose directory is gone. -/
def vanished (bare : Path) (entry : PorcelainEntry) : WorktreeInspection where
  path := entry.path
  barePath := some bare
  branch := entry.branch
  sessionId := none
  reasons := [.prunable]
  hasUncommittedChanges := false
  hasTrackedModifications := false
  hasUntrackedWork := false
  hasUntrackedBuildOutput := false
  statusVerified := false
  hasUnpushedCommits := false
  isSafeToDelete := true

/-! ### The report -/

def sortRows (rows : List WorktreeInspection) : List WorktreeInspection :=
  rows.mergeSort fun a b => !pathBelow b.path a.path

def isManagedWorktreePath (base path : Path) : Bool :=
  let key := w.canonical path
  startsWith key (w.canonical base) && !startsWith key (w.canonical (base ++ "/repos"))

/-- The row of a worktree of the index, unless it was walked over or is not one of ours. -/
def registeredRow (base : Path) (index : Index) (tracked : List TrackedSession)
    (seen : List Path) : Path × (Path × PorcelainEntry) → Option WorktreeInspection
  | (key, bare, entry) =>
      if key ∈ seen then none
      else if (w.dir? entry.path).isSome then
        if isManagedWorktreePath w base key then
          some (inspectOne fails G w index tracked entry.path key)
        else none
      else some (vanished bare entry)

/-- Every worktree, with the directories that were found under the legacy root unless that cannot
be read. -/
def inspectWorktrees (base : Path) (legacy : Except Unit (List Path))
    (tracked : List TrackedSession) : Except Unit (List WorktreeInspection) := do
  let index := porcelain fails w
  let walked ← legacy
  let rows := walked.map fun path => inspectOne fails G w index tracked path (w.canonical path)
  let registered := index.mergeSort fun a b => !pathBelow b.1 a.1
  let seen := walked.map w.canonical
  pure (sortRows (rows ++ registered.filterMap (registeredRow fails G w base index tracked seen)))

/-- The row of a path, unless there is no directory and no worktree. -/
def pathRow (index : Index) (tracked : List TrackedSession) (path : Path) :
    Option WorktreeInspection :=
  if (w.dir? path).isSome then
    some (inspectOne fails G w index tracked path (w.canonical path))
  else (index.get (w.canonical path)).map fun (bare, entry) => vanished bare entry

/-- The rows of paths, of each place once. -/
def pathRows (index : Index) (tracked : List TrackedSession) :
    List Path → List Path → List WorktreeInspection
  | _, [] => []
  | seen, path :: paths =>
      if w.canonical path ∈ seen then pathRows index tracked seen paths
      else
        (pathRow fails G w index tracked path).toList
          ++ pathRows index tracked (w.canonical path :: seen) paths

def inspectPaths (paths : List Path) (tracked : List TrackedSession) :
    List WorktreeInspection :=
  sortRows (pathRows fails G w (porcelain fails w) tracked [] paths)

end Inspect

end Lazybox.GitOps
