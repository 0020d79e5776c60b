import Lazybox.Core.WorkingClaim
import Lazybox.Library.Ancestry
import Lazybox.Library.Keyed

/-!
# Repositories

A bare clone has branches, remote-tracking refs and worktrees registered with it.  A directory is a
repository of its own, leads to the clone that it is a worktree of, or neither.  What git says and
does is as documented, except that any command may fail where it is run.
-/

namespace Lazybox.GitOps

open WorkingClaim (Text)

abbrev Path := String

abbrev Branch := String

inductive Head (Commit : Type) where
  | attached (branch : Branch)
  | detached (commit : Commit)
deriving DecidableEq

inductive RefName where
  /-- `refs/heads/<branch>` -/
  | head (branch : Branch)
  /-- `refs/remotes/<name>` -/
  | remote (name : String)
deriving DecidableEq

/-- The remote-tracking ref of a branch at `origin`. -/
def originRef (branch : Branch) : RefName := .remote ("origin/" ++ branch)

structure Refs (Commit : Type) where
  heads : Branch → Option Commit
  remotes : List (String × Commit)
  /-- The remote-tracking ref that `origin/HEAD` stands for. -/
  originHead : Option String
  upstream : Branch → Option RefName
  /-- The branches with a remote in the configuration. -/
  hasRemote : Branch → Bool
  /-- The branch that the clone is at. -/
  head : Option Branch

/-- What a directory is a checkout of. -/
structure Checkout (Commit : Type) where
  refs : Refs Commit
  head : Head Commit

/-- A worktree, as the clone has it.  It is locked or can be pruned for a reason. -/
structure Registration (Commit : Type) where
  path : Path
  head : Head Commit
  locked : Option Text
  prunable : Option Text

structure Clone (Commit : Type) where
  path : Path
  refs : Refs Commit
  registrations : List (Registration Commit)
  /-- A worktree is somewhere, and not where the clone is. -/
  elsewhere : ∀ r ∈ registrations, r.path ≠ path ∧ r.path ≠ ""

/-- The `.git` of a directory. -/
inductive DotGit (Commit : Type) where
  | missing
  /-- A repository of its own, or what a clone that is not ours has of it. -/
  | repository (checkout : Checkout Commit)
  /-- It leads to a clone, where the index of the worktree may be missing. -/
  | link (clone : Path) (index : Bool)

structure Dir (Commit : Type) where
  dotGit : DotGit Commit
  /-- Whether there is anything beside the `.git`. -/
  content : Bool
  /-- What `git status --porcelain` prints. -/
  status : Text

structure World (Commit : Type) where
  canonical : Path → Path
  clones : List (Clone Commit)
  distinct : (clones.map Clone.path).Nodup
  /-- The directories, by their canonical paths. -/
  dirs : Path → Option (Dir Commit)

variable {Commit : Type}

/-! ### Refs -/

namespace Refs

variable (refs : Refs Commit)

def resolve : RefName → Option Commit
  | .head branch => refs.heads branch
  | .remote name => (Keyed.lookup Prod.fst name refs.remotes).map Prod.snd

def commitOf : Head Commit → Option Commit
  | .attached branch => refs.heads branch
  | .detached commit => some commit

/-- A commit is in the history of a branch or of a remote-tracking ref. -/
def Keeps (G : Ancestry Commit) (c : Commit) : Prop :=
  (∃ branch tip, refs.heads branch = some tip ∧ c ∈ G.ancestors tip)
    ∨ ∃ ref ∈ refs.remotes, c ∈ G.ancestors ref.2

/-- A commit is kept even without one of the branches. -/
def KeepsWithout (G : Ancestry Commit) (branch : Option Branch) (c : Commit) : Prop :=
  (∃ other tip, some other ≠ branch ∧ refs.heads other = some tip ∧ c ∈ G.ancestors tip)
    ∨ ∃ ref ∈ refs.remotes, c ∈ G.ancestors ref.2

variable {refs} {G : Ancestry Commit}

theorem KeepsWithout.trans {branch : Option Branch} {c d : Commit}
    (h : refs.KeepsWithout G branch d) (hc : c ∈ G.ancestors d) :
  refs.KeepsWithout G branch c
  := by
  obtain ⟨other, tip, hne, htip, hd⟩ | ⟨ref, href, hd⟩ := h
  · left
    use other, tip, hne, htip
    apply G.ancestors_trans hd hc
  · right
    use ref, href
    apply G.ancestors_trans hd hc

theorem keepsWithout_none {c : Commit} :
  refs.KeepsWithout G none c ↔ refs.Keeps G c
  := by
  simp [KeepsWithout, Keeps]

theorem keepsWithout_of_remote {branch : Option Branch} {name : String} {tip c : Commit}
    (h : refs.resolve (.remote name) = some tip) (hc : c ∈ G.ancestors tip) :
  refs.KeepsWithout G branch c
  := by
  obtain ⟨ref, href, rfl⟩ := Option.map_eq_some_iff.mp h
  right
  use ref, (Keyed.lookup_eq_some href).1

end Refs

namespace Checkout

variable (checkout : Checkout Commit)

def tip : Option Commit := checkout.refs.commitOf checkout.head

/-- The commit of `@{u}`, the upstream of the branch. -/
def upstream : Option Commit :=
  match checkout.head with
  | .attached branch => (checkout.refs.upstream branch).bind checkout.refs.resolve
  | .detached _ => none

def originHead : Option Commit :=
  checkout.refs.originHead.bind fun name => checkout.refs.resolve (.remote name)

end Checkout

/-! ### Commands -/

/-- The commands that are run, and where. -/
inductive Probe where
  | list | status | localRef | remoteRef | upstreamConfig | contains
  -- what tells whether commits are unpushed
  | ownRemoteRef | aheadOfOwnRemote | ownContains | aheadOfUpstream | aheadOfOriginHead | bareHead
  | aheadOfRemoteDefault | aheadOfDefault
  -- what a deletion does
  | readDir | removeDir | remove | prune | headOfBare | branchDelete
deriving DecidableEq

section Commands

variable (fails : Probe → Bool)

/-- What a command says, unless it fails. -/
def ask {α : Type} (probe : Probe) (answer : Option α) : Option α :=
  if fails probe then none else answer

theorem ask_eq_some {α : Type} {probe : Probe} {answer : Option α} {a : α} :
  ask fails probe answer = some a ↔ fails probe = false ∧ answer = some a
  := by
  rw [ask]
  split
  · next h => simp [h]
  · next h => simp [h]

def refExists (probe : Probe) (refs : Refs Commit) (name : RefName) : Bool :=
  (ask fails probe (refs.resolve name)).isSome

def bareHeadBranch (probe : Probe) (refs : Refs Commit) : Option Branch :=
  ask fails probe refs.head

def branchHasUpstreamConfig (refs : Refs Commit) (branch : Branch) : Bool :=
  !fails .upstreamConfig && refs.hasRemote branch

section Histories

variable [DecidableEq Commit] (G : Ancestry Commit)

/-- How many commits of a checkout are not in the history of a base. -/
def revListCount (probe : Probe) (worktree : Option (Checkout Commit))
    (base : Checkout Commit → Option Commit) : Option ℕ := do
  let checkout ← worktree
  let start ← base checkout
  let tip ← checkout.tip
  ask fails probe (some (G.without tip start).length)

/-- The remote-tracking refs whose history has the tip of a branch. -/
def Refs.remotesContaining (refs : Refs Commit) (branch : Branch) : Option (List String) :=
  (refs.heads branch).map fun tip =>
    (refs.remotes.filter fun ref => tip ∈ G.ancestors ref.2).map Prod.fst

def branchTipOnRemote (probe : Probe) (refs : Refs Commit) (branch : Branch) : Bool :=
  match ask fails probe (refs.remotesContaining G branch) with
  | some names => names ≠ []
  | none => false

theorem revListCount_eq_zero {probe : Probe} {worktree : Option (Checkout Commit)}
    {base : Checkout Commit → Option Commit} :
  revListCount fails G probe worktree base = some 0
    ↔ fails probe = false ∧ ∃ checkout ∈ worktree, ∃ start ∈ base checkout,
      ∃ tip ∈ checkout.tip, tip ∈ G.ancestors start
  := by
  rw [revListCount]
  simp [Option.bind_eq_some_iff, ask_eq_some, G.length_without_eq_zero]
  tauto

theorem branchTipOnRemote_iff {probe : Probe} {refs : Refs Commit} {branch : Branch} :
  branchTipOnRemote fails G probe refs branch = true
    ↔ fails probe = false ∧ ∃ tip ∈ refs.heads branch, ∃ ref ∈ refs.remotes, tip ∈ G.ancestors ref.2
  := by
  rw [branchTipOnRemote, ask, Refs.remotesContaining]
  cases hprobe : fails probe <;> cases htip : refs.heads branch <;> simp

end Histories

end Commands

/-! ### Worktrees -/

namespace World

variable (w : World Commit)

def clone? (path : Path) : Option (Clone Commit) := Keyed.lookup Clone.path path w.clones

/-- Whether two paths are of one place. -/
def SamePlace (p q : Path) : Prop := w.canonical p = w.canonical q

instance : DecidableRel w.SamePlace := fun p q =>
  inferInstanceAs (Decidable (w.canonical p = w.canonical q))

def registration? (clone : Clone Commit) (path : Path) : Option (Registration Commit) :=
  clone.registrations.find? fun r => w.SamePlace r.path path

def dir? (path : Path) : Option (Dir Commit) := w.dirs (w.canonical path)

/-- What git finds in a directory. -/
def checkout? (path : Path) : Option (Checkout Commit) := do
  let dir ← w.dir? path
  match dir.dotGit with
  | .missing => none
  | .repository checkout => some checkout
  | .link clone _ =>
      let clone ← w.clone? clone
      let r ← w.registration? clone path
      some ⟨clone.refs, r.head⟩

def worktreeDirReady (path : Path) : Bool :=
  match w.dir? path with
  | some dir =>
      match dir.dotGit with
      | .missing => false
      | .repository _ => true
      | .link _ index => index
  | none => false

end World

end Lazybox.GitOps
