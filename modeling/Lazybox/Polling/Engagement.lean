import Lazybox.Core.MergePolicy
import Lazybox.Library.Ranking

/-!
# Engagement

The rows of GitHub are hot, warm or cold.  Hot are the focused row, every row with a live agent, a
number of rows that are to be merged once they are green, and a few of what else is eligible, such
as a recent pull request of one's own.  All rows that can be hot are sorted, and one pass over them
takes as many of each kind as there are slots for.

The instants are in nanoseconds.
-/

namespace Lazybox.Engagement

open Ranking (sortBy)

def HOT_SET_MAX : ℕ := 3

def ARMED_HOT_MAX : ℕ := 12

def OWN_PR_HOT_WINDOW : ℤ := seconds (24 * 60 * 60)

inductive EngagementTier where
  | hot | warm | cold
deriving DecidableEq, Repr

structure EngagementSignals where
  liveAgent : Bool
  focused : Bool
  ownOpenPr : Bool
deriving DecidableEq, Repr

inductive NotificationTargetKind where
  | pullRequest | issue
deriving DecidableEq, Repr

structure NotificationTarget where
  owner : String
  repo : String
  number : UInt64
  kind : NotificationTargetKind
deriving DecidableEq, Repr

structure GithubEngagementTarget where
  workspaceKey : String
  target : NotificationTarget
  nodeId : Option String
deriving DecidableEq, Repr

structure EngagementEntry where
  tier : EngagementTier
  signals : EngagementSignals
deriving DecidableEq, Repr

structure EngagementSnapshot where
  entries : String → Option EngagementEntry
  hotTargets : List GithubEngagementTarget
  coldTargets : Finset NotificationTarget
  /-- The stored role of every row, by its target. -/
  knownRoles : NotificationTarget → Option TaskRole
  coldOnlyRepos : Finset String
  activeRepos : Finset String
  sessionedRepos : Finset String
  liveAgentRepos : Finset String

structure EngagementCandidate where
  workspaceKey : String
  target : NotificationTarget
  nodeId : Option String
  role : TaskRole
  repo : String
  updatedAt : Instant
  cold : Bool
  liveAgent : Bool
  ownOpenPr : Bool
  armed : Bool
  sessioned : Bool
deriving DecidableEq, Repr

def EngagementSnapshot.tierFor (snapshot : EngagementSnapshot) (key : String) : EngagementTier :=
  ((snapshot.entries key).map EngagementEntry.tier).getD .warm

/-! ### Selection -/

section Select

variable (focusedWorkspace : Option String)

def isFocused (candidate : EngagementCandidate) : Bool :=
  focusedWorkspace = some candidate.workspaceKey

def isEligible (now : Instant) (candidate : EngagementCandidate) : Bool :=
  candidate.liveAgent || (!candidate.cold && candidate.armed)
    || isFocused focusedWorkspace candidate
    || (!candidate.cold && candidate.ownOpenPr && now - candidate.updatedAt ≤ OWN_PR_HOT_WINDOW)

/-- Focus comes first, then sessions, live agents, one's own pull requests, and the most recently
updated. -/
def eligibleOrder : EngagementCandidate → EngagementCandidate → Ordering :=
  compareLex (fun left right => compareOn (isFocused focusedWorkspace) right left) <|
  compareLex (fun left right => compareOn EngagementCandidate.sessioned right left) <|
  compareLex (fun left right => compareOn EngagementCandidate.liveAgent right left) <|
  compareLex (fun left right => compareOn EngagementCandidate.ownOpenPr right left) <|
  compareLex (fun left right => compareOn EngagementCandidate.updatedAt right left) <|
  compareOn EngagementCandidate.workspaceKey

/-- The rows that are hot so far, and the slots that are used. -/
structure Hot where
  keys : Finset String
  cappedUsed : ℕ
  armedUsed : ℕ
deriving DecidableEq

def Hot.pick (hot : Hot) (candidate : EngagementCandidate) : Hot :=
  let focused := isFocused focusedWorkspace candidate
  if focused || candidate.liveAgent then
    { hot with keys := insert candidate.workspaceKey hot.keys }
  else if !candidate.cold && candidate.armed && decide (hot.armedUsed < ARMED_HOT_MAX) then
    { hot with armedUsed := hot.armedUsed + 1, keys := insert candidate.workspaceKey hot.keys }
  else if hot.cappedUsed < HOT_SET_MAX then
    { hot with keys := insert candidate.workspaceKey hot.keys, cappedUsed := hot.cappedUsed + 1 }
  else hot

def hotKeys (candidates : List EngagementCandidate) (now : Instant) : Finset String :=
  let eligible := candidates.filter (isEligible focusedWorkspace now)
  ((sortBy (eligibleOrder focusedWorkspace) eligible).foldl (Hot.pick focusedWorkspace)
    ⟨∅, 0, 0⟩).keys

def tierOf (hotKeys : Finset String) (candidate : EngagementCandidate) : EngagementTier :=
  if candidate.workspaceKey ∈ hotKeys then .hot else if candidate.cold then .cold else .warm

def entryOf (hotKeys : Finset String) (candidate : EngagementCandidate) : EngagementEntry where
  tier := tierOf hotKeys candidate
  signals := ⟨candidate.liveAgent, isFocused focusedWorkspace candidate, candidate.ownOpenPr⟩

/-- What is known of every row, by its key. -/
def entriesOf (hotKeys : Finset String) (candidates : List EngagementCandidate) :
    String → Option EngagementEntry :=
  candidates.foldl
    (fun entries candidate =>
      Function.update entries candidate.workspaceKey
        (some (entryOf focusedWorkspace hotKeys candidate)))
    fun _ => none

def rolesOf (candidates : List EngagementCandidate) : NotificationTarget → Option TaskRole :=
  candidates.foldl (fun roles candidate => Function.update roles candidate.target candidate.role)
    fun _ => none

end Select

def EngagementCandidate.toTarget (candidate : EngagementCandidate) : GithubEngagementTarget :=
  ⟨candidate.workspaceKey, candidate.target, candidate.nodeId⟩

def signalsAt (entries : String → Option EngagementEntry) (target : GithubEngagementTarget) :
    EngagementSignals :=
  ((entries target.workspaceKey).map EngagementEntry.signals).getD ⟨false, false, false⟩

/-- Focus comes first, then live agents. -/
def targetOrder (entries : String → Option EngagementEntry) :
    GithubEngagementTarget → GithubEngagementTarget → Ordering :=
  compareLex (fun left right => compareOn (fun t => (signalsAt entries t).focused) right left) <|
  compareLex (fun left right => compareOn (fun t => (signalsAt entries t).liveAgent) right left) <|
  compareOn GithubEngagementTarget.workspaceKey

def selectEngagementSnapshot (candidates : List EngagementCandidate)
    (focusedWorkspace : Option String) (now : Instant) : EngagementSnapshot :=
  let hotKeys := hotKeys focusedWorkspace candidates now
  let entries := entriesOf focusedWorkspace hotKeys candidates
  let repos (kept : EngagementCandidate → Bool) : Finset String :=
    ((candidates.filter kept).map EngagementCandidate.repo).toFinset
  let nonCold := repos fun candidate => tierOf hotKeys candidate ≠ .cold
  { entries := entries
    hotTargets := sortBy (targetOrder entries)
      ((candidates.filter fun candidate => tierOf hotKeys candidate = .hot).map
        EngagementCandidate.toTarget)
    coldTargets := ((candidates.filter fun candidate => tierOf hotKeys candidate = .cold).map
      EngagementCandidate.target).toFinset
    knownRoles := rolesOf candidates
    coldOnlyRepos := repos (fun _ => true) \ nonCold
    activeRepos := nonCold
    sessionedRepos := repos EngagementCandidate.sessioned
    liveAgentRepos := repos EngagementCandidate.liveAgent }

end Lazybox.Engagement
