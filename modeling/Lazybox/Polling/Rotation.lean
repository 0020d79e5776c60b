import Mathlib.Data.Finset.Sort
import Mathlib.Data.List.Sort
import Mathlib.Data.String.Basic
import Lazybox.Library.Run
import Lazybox.Core.ProviderOps

/-!
# The rotation of the repositories

Every tick polls some of the repositories of the roster: the one that is focused, those that are
forced, and the stalest of the others.  What was polled when is kept as a stamp, and stamps which
are too old are dropped.

A repository that was never polled has no stamp, and an instant before the start of the clock
cannot be represented.  A bound on the number of repositories of a tick is given as a number, or
there is none.
-/

namespace Lazybox.Rotation

def defaultRoundRobinN : ℕ := 3

/-- Seven days. -/
def cursorTtl : ℤ := seconds (60 * 60 * 24 * 7)

structure RoundRobinState where
  cursor : String → Option Instant
  suspendedCold : String → Option Instant
  focusedRepo : Option String
  tick : ℕ

namespace RoundRobinState

variable (s : RoundRobinState)

def new : RoundRobinState := ⟨fun _ => none, fun _ => none, none, 0⟩

/-- A stamp is kept as long as it is not too old. -/
def retained (now : Instant) (stamps : String → Option Instant) : String → Option Instant :=
  fun repo => (stamps repo).filter fun last => now - last < cursorTtl

def prune (now : Instant) : RoundRobinState :=
  { s with cursor := retained now s.cursor, suspendedCold := retained now s.suspendedCold }

def recordSync (repo : String) (now : Instant) : RoundRobinState :=
  { s with
    suspendedCold := Function.update s.suspendedCold repo none
    cursor := Function.update s.cursor repo (some now) }

/-- A member has the stamp it has, or had when it was suspended, or one that leads the others. -/
def seedMember (never : Instant) (member : String) : RoundRobinState :=
  { s with
    suspendedCold := Function.update s.suspendedCold member none
    cursor := Function.update s.cursor member
      (some (((s.cursor member).or (s.suspendedCold member)).getD never)) }

/-- Half of the lifetime of a stamp ago, unless the clock started later. -/
def longAgo (clockStart now : Instant) : Instant :=
  if clockStart ≤ now - cursorTtl / 2 then now - cursorTtl / 2 else now

def seedRoster (clockStart : Instant) (roster : List String) (now : Instant) : RoundRobinState :=
  roster.foldl (seedMember · (longAgo clockStart now)) s

end RoundRobinState

structure RoundRobinPick where
  repos : List String
  runGlobal : Bool

def divCeil (m n : ℕ) : ℕ := (m + n - 1) / n

/-- How many members to poll in a tick for all of them to be polled within some ticks. -/
def rotationFanout (rosterLen targetTicks : ℕ) : ℕ :=
  if rosterLen = 0 then 0 else max (divCeil rosterLen (max targetTicks 1)) 1

/-! ### The pick of a tick -/

def full (maxRepos : Option ℕ) (repos : List String) : Bool :=
  maxRepos.any fun m => m ≤ repos.length

def willRunGlobal (knownRepos tick n : ℕ) : Bool :=
  if knownRepos = 0 then true
  else if knownRepos ≤ n then tick % 2 = 0
  else tick % max (divCeil knownRepos n) 2 = 0

/-- The first stamp is not later than the second, and no stamp is earlier than any. -/
def notLater : Option Instant → Option Instant → Bool
  | none, _ => true
  | some _, none => false
  | some x, some y => x ≤ y

/-- The stalest first, and by name what has the same stamp. -/
def Staler (a b : String × Instant) : Prop := a.2 < b.2 ∨ a.2 = b.2 ∧ a.1 ≤ b.1

instance : DecidableRel Staler := fun a b =>
  inferInstanceAs (Decidable (a.2 < b.2 ∨ a.2 = b.2 ∧ a.1 ≤ b.1))

def sortedByStamp (known : List (String × Instant)) : List (String × Instant) :=
  known.insertionSort Staler

def sortedForced (known : List (String × Instant)) (forced : Finset String) : List String :=
  (forced.sort (· ≤ ·)).insertionSort fun a b => notLater (known.lookup a) (known.lookup b)

def pushForced (maxRepos : Option ℕ) : List String → List String → List String
  | [], repos => repos
  | repo :: rest, repos =>
      if full maxRepos repos then repos
      else pushForced maxRepos rest (if repo ∈ repos then repos else repos ++ [repo])

/-- Go through the repositories until as many were added as there are slots. -/
def pushStalest (maxRepos : Option ℕ) : ℕ → List (String × Instant) → List String → List String
  | _, [], repos => repos
  | slots, (repo, _) :: rest, repos =>
      if slots = 0 ∨ full maxRepos repos then repos
      else if repo ∈ repos then pushStalest maxRepos slots rest repos
      else pushStalest maxRepos (slots - 1) rest (repos ++ [repo])

/-- The slots of the stalest: a focused repository that is not forced takes one of them. -/
def stalestSlots (focused : Option String) (forced : Finset String) (n : ℕ) : ℕ :=
  if focused.any fun focus => focus ∉ forced then n - 1 else n

def pickReposForTickBudgeted (known : List (String × Instant)) (focused : Option String)
    (forced : Finset String) (tick n : ℕ) (maxRepos : Option ℕ) : RoundRobinPick :=
  let n := if n = 0 then defaultRoundRobinN else n
  let focused := if full maxRepos [] then none else focused
  let repos := pushForced maxRepos (sortedForced known forced) focused.toList
  if known = [] then ⟨repos, true⟩
  else
    ⟨pushStalest maxRepos (stalestSlots focused forced n) (sortedByStamp known) repos,
      willRunGlobal known.length tick n⟩

/-- The stamps of the roster and of what is forced. -/
def eligible (roster : List String) (forced : Finset String) (cursor : String → Option Instant) :
    List (String × Instant) :=
  (roster ++ forced.sort (· ≤ ·)).dedup.filterMap fun repo => (cursor repo).map (repo, ·)

def planRepoRotation (clockStart : Instant) (s : RoundRobinState) (roster : List String)
    (forced : Finset String) (fanout : ℕ) (maxMembers : Option ℕ) (now : Instant) :
    RoundRobinState × List String :=
  let s := (s.seedRoster clockStart roster now).prune now
  let pick := pickReposForTickBudgeted (eligible roster forced s.cursor) s.focusedRepo forced
    s.tick fanout maxMembers
  let s := pick.repos.foldl (fun s repo => s.recordSync repo now) s
  ({ s with tick := (s.tick + 1) % 2 ^ 64 }, pick.repos)

end Lazybox.Rotation
