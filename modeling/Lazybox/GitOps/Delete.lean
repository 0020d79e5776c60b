import Lazybox.GitOps.Inspect

/-!
# Deletion of worktrees

A deletion that is not forced goes by what git says at the time, once the row of the inspection
does not speak against it.  The branch of the row is deleted after the worktree, unless the clone
is at it or it is checked out elsewhere.  Without a clone only a directory that has nothing beside
its `.git` is deleted.
-/

namespace Lazybox.GitOps

inductive GitError where
  | command (message : String)
  /-- A command failed, with words of its own. -/
  | git
  | io
deriving DecidableEq

variable {Commit : Type}

/-! ### What git does -/

/-- The branch of a clone is gone. -/
def Clone.deleteBranch (branch : Branch) (clone : Clone Commit) : Clone Commit :=
  { clone with
    refs := { clone.refs with heads := Function.update clone.refs.heads branch none } }

namespace World

variable (w : World Commit)

/-- The worktree at a place is no longer registered with a clone. -/
def unregister (path : Path) (clone : Clone Commit) : Clone Commit :=
  { clone with
    registrations := clone.registrations.eraseP fun r => w.SamePlace r.path path
    elsewhere := fun r hr => clone.elsewhere r (List.mem_of_mem_eraseP hr) }

theorem unregister_path (path : Path) (clone : Clone Commit) :
  (w.unregister path clone).path = clone.path
  := rfl

/-- The worktrees that are gone are no longer registered with a clone, but for the locked ones. -/
def forgetGone (clone : Clone Commit) : Clone Commit :=
  { clone with
    registrations := clone.registrations.filter fun r => r.locked.isSome || (w.dir? r.path).isSome
    elsewhere := fun r hr => clone.elsewhere r (List.mem_of_mem_filter hr) }

def modifyClone (path : Path) (change : Clone Commit → Clone Commit)
    (keeps : ∀ clone, (change clone).path = clone.path) : World Commit :=
  { w with
    clones := Keyed.modifyFirst Clone.path path change w.clones
    distinct := by
      rw [Keyed.map_modifyFirst keeps]
      apply w.distinct }

def removeDir (path : Path) : World Commit :=
  { w with dirs := Function.update w.dirs (w.canonical path) none }

section Commands

variable (fails : Probe → Bool)

/-- `git worktree remove`, of a worktree that is not locked and leads back to the clone.  It has to
be clean unless that is forced. -/
def worktreeRemove (clone : Clone Commit) (path : Path) (force : Bool) : Option (World Commit) :=
  match w.registration? clone path, w.dir? path with
  | some r, some dir =>
      match dir.dotGit with
      | .link back _ =>
          if back = clone.path ∧ r.locked = none ∧ (force ∨ dir.status = []) then
            ask fails .remove
              (some ((w.modifyClone clone.path (w.unregister path) fun _ => rfl).removeDir path))
          else none
      | _ => none
  | _, _ => none

def worktreePrune (bare : Path) : World Commit :=
  if fails .prune then w else w.modifyClone bare w.forgetGone fun _ => rfl

/-- `git branch -D`, of a branch that is checked out nowhere. -/
def branchDelete (clone : Clone Commit) (branch : Branch) : World Commit :=
  if fails .branchDelete ∨ clone.refs.heads branch = none
    ∨ ∃ r ∈ clone.registrations, r.head.branch? = some branch then w
  else w.modifyClone clone.path (Clone.deleteBranch branch) fun _ => rfl

end Commands

end World

/-! ### Deletion -/

section Delete

variable (fails : Probe → Bool)

def deleteLocalBranch (w : World Commit) (bare : Path) (branch : Branch) : World Commit :=
  match w.clone? bare with
  | some clone =>
      if bareHeadBranch fails .headOfBare clone.refs = some branch then w
      else w.branchDelete fails clone branch
  | none => w

/-- The branch of a row is deleted, if it has one. -/
def deleteBranchOf (w : World Commit) (bare : Path) : Option Branch → World Commit
  | some branch => deleteLocalBranch fails w bare branch
  | none => w

def directoryHasRealContent (w : World Commit) (path : Path) : Bool :=
  match w.dir? path with
  | some dir => fails .readDir || dir.content
  | none => false

def removeByPathIf (w : World Commit) (bare path : Path) (stillRemovable : Bool) :
    World Commit × Bool :=
  if !stillRemovable then (w, false)
  else if (w.dir? path).isSome then
    match (w.clone? bare).bind fun clone => w.worktreeRemove fails clone path true with
    | some w => (w, true)
    | none => ((if fails .removeDir then w else w.removeDir path).worktreePrune fails bare, true)
  else (w.worktreePrune fails bare, true)

/-- What a row says against a deletion. -/
def objection (row : WorktreeInspection) : Option GitError :=
  if .locked ∈ row.reasons then
    some (.command s!"worktree {row.path} is locked — pass force to override")
  else if row.hasUncommittedChanges && !row.isDirtyOnlyWithBuildOutput then
    some (.command s!"worktree {row.path} has uncommitted changes — pass force to override")
  else if row.hasUnpushedCommits then
    some (.command s!"worktree {row.path} has unpushed commits — pass force to override")
  else none

/-- Whether there are no changes but of build output; nothing if there are others, or if git does
not say. -/
def buildOutputOnly (w : World Commit) (path : Path) : Option Bool :=
  match dirtyState fails w path with
  | some state =>
      if !state.any then some false
      else if state.isOnlyBuildOutput then some true
      else none
  | none => none

variable [DecidableEq Commit] (G : Ancestry Commit)

/-- What git says at the time, as to a worktree that is to be removed. -/
def recheck (w : World Commit) (row : WorktreeInspection) (clone : Clone Commit) :
    Except GitError Bool :=
  match ask fails .list (some (listPorcelain clone)) with
  | none => .error .git
  | some entries =>
      match entries.find? fun entry => w.SamePlace entry.path row.path with
      | none =>
          .error (.command (s!"worktree {row.path} is no longer registered with {clone.path}; " ++
            "refusing an unverifiable delete"))
      | some entry =>
          if entry.locked then
            .error (.command s!"worktree {row.path} is locked — refusing to delete")
          else
            match buildOutputOnly fails w row.path with
            | none =>
                .error (.command (s!"worktree {row.path} has uncommitted or unverifiable " ++
                  "changes — refusing to delete"))
            | some forced =>
                if unpushed fails G (w.checkout? row.path) (some clone.refs) row.branch then
                  .error (.command (s!"worktree {row.path} has unpushed or unverifiable " ++
                    "commits — refusing to delete"))
                else .ok forced

/-- The deletion of a worktree that the row knows the clone of, once git agrees. -/
def removeChecked (w : World Commit) (row : WorktreeInspection) (bare : Path)
    (stillRemovable : Bool) : World Commit × Except GitError Bool :=
  if !stillRemovable then (w, .ok false)
  else if (w.dir? row.path).isNone then (w.worktreePrune fails bare, .ok true)
  else
    match w.clone? bare with
    | none => (w, .error .git)
    | some clone =>
        match recheck fails G w row clone with
        | .error e => (w, .error e)
        | .ok forced =>
            match w.worktreeRemove fails clone row.path forced with
            | none => (w, .error .git)
            | some w => (deleteBranchOf fails w bare row.branch, .ok true)

/-- The deletion of a directory that the row knows no clone of. -/
def removeUnlisted (w : World Commit) (row : WorktreeInspection) (force stillRemovable : Bool) :
    World Commit × Except GitError Bool :=
  if !stillRemovable then (w, .ok false)
  else if !force && directoryHasRealContent fails w row.path then
    (w, .error (.command (s!"worktree {row.path} has no bare clone to verify against and holds " ++
      "files — refusing to delete unverifiable content; pass force to override")))
  else if (w.dir? row.path).isNone then (w, .ok true)
  else if fails .removeDir then (w, .error .io)
  else (w.removeDir row.path, .ok true)

def deleteInspectedIf (w : World Commit) (row : WorktreeInspection)
    (force stillRemovable : Bool) : World Commit × Except GitError Bool :=
  match if force then none else objection row with
  | some e => (w, .error e)
  | none =>
      match row.barePath with
      | none => removeUnlisted fails w row force stillRemovable
      | some bare =>
          if force then
            let (w, removed) := removeByPathIf fails w bare row.path stillRemovable
            (if removed then deleteBranchOf fails w bare row.branch else w, .ok removed)
          else removeChecked fails G w row bare stillRemovable

end Delete

end Lazybox.GitOps
