import Lazybox.Core.ProviderOps

/-!
# Units of work

A unit of work has an immutable id, and a lifecycle which is what its owner says about it.  A
lifecycle moves by `transition`, which a terminal one refuses, or by `failFromAgentExit`, which
moves only work under way.  Each move is recorded in the history.
-/

namespace Lazybox.Work

/-- The identity of a unit of work, for its whole life. -/
structure WorkId where
  uuid : ℕ
deriving DecidableEq, Repr

/-- The identity of a plan. -/
structure PlanId where
  uuid : ℕ
deriving DecidableEq, Repr

/-- Who is asking or doing. -/
inductive Party where
  | human
  | agent (workspace : String) (session : Option String)
  | lazybox
deriving DecidableEq, Repr

/-- What a task points at. -/
inductive Link where
  | workspace (key : String)
  | tracker (id : TaskId)
  | url (url : String)
deriving DecidableEq, Repr

inductive Lifecycle where
  | pending
  | underway
  | awaitingAnswer (question : String)
  | held (reason : String)
  | completed
  | failed (reason : String)
  | canceled
deriving DecidableEq, Repr

namespace Lifecycle

def isTerminal : Lifecycle → Bool
  | completed | failed _ | canceled => true
  | pending | underway | awaitingAnswer _ | held _ => false

def label : Lifecycle → String
  | pending => "pending"
  | underway => "underway"
  | awaitingAnswer _ => "awaiting answer"
  | held _ => "held"
  | completed => "completed"
  | failed _ => "failed"
  | canceled => "canceled"

end Lifecycle

structure ArtifactRef where
  name : String
  workspace : String
deriving DecidableEq, Repr

structure WorkResult where
  summary : String
  artifacts : List ArtifactRef
deriving DecidableEq, Repr

/-- One provenance entry: who changed what, when. -/
structure WorkEvent where
  instant : Instant
  by' : Party
  change : String
deriving DecidableEq, Repr

structure Task where
  id : WorkId
  plan : Option PlanId
  parent : Option WorkId
  title : String
  brief : String
  owner : Option Party
  requester : Party
  links : List Link
  lifecycle : Lifecycle
  result : Option WorkResult
  history : List WorkEvent
deriving DecidableEq, Repr

/-- A transition refused by the state it asked to leave. -/
structure TransitionRefused where
  source : Lifecycle
  target : Lifecycle
deriving DecidableEq, Repr

def TransitionRefused.message (refused : TransitionRefused) : String :=
  "a " ++ refused.source.label ++ " task rejects further work (asked for "
    ++ refused.target.label ++ ")"

namespace Task

def new (id : WorkId) (title : String) (requester : Party) (now : Instant) : Task where
  id := id
  plan := none
  parent := none
  title := title
  brief := ""
  owner := none
  requester := requester
  links := []
  lifecycle := .pending
  result := none
  history := [⟨now, requester, "created"⟩]

def record (t : Task) (target : Lifecycle) (by' : Party) (now : Instant) (cause : Option String) :
    Task :=
  let change :=
    match cause with
    | some cause => t.lifecycle.label ++ " → " ++ target.label ++ " (" ++ cause ++ ")"
    | none => t.lifecycle.label ++ " → " ++ target.label
  { t with history := t.history ++ [⟨now, by', change⟩] }

/-- Move the task, refused once terminal. -/
def transition (t : Task) (target : Lifecycle) (by' : Party) (now : Instant) :
    Except TransitionRefused Task :=
  if t.lifecycle.isTerminal then .error ⟨t.lifecycle, target⟩
  else .ok { t.record target by' now none with lifecycle := target }

/-- Finish the task with its result. -/
def complete (t : Task) (result : WorkResult) (by' : Party) (now : Instant) :
    Except TransitionRefused Task :=
  (t.transition .completed by' now).map fun moved => { moved with result := some result }

/-- The task failed because its agent exited, if it was under way. -/
def failFromAgentExit (t : Task) (by' : Party) (now : Instant) : Option Task :=
  if t.lifecycle ≠ .underway then none
  else
    let target := Lifecycle.failed "the agent exited before reporting a result"
    some { t.record target by' now (some "agent-exited") with lifecycle := target }

def linksTo (t : Task) (link : Link) : Bool := t.links.contains link

/-- The workspace of the agent which owns the task. -/
def ownerWorkspace (t : Task) : Option String :=
  match t.owner with
  | some (.agent workspace _) => some workspace
  | _ => none

end Task

/-! ### What no move changes -/

/-- The task is the other one but for its lifecycle, its result and its history. -/
structure SameWork (t t' : Task) : Prop where
  id : t'.id = t.id
  plan : t'.plan = t.plan
  parent : t'.parent = t.parent

namespace SameWork

theorem refl (t : Task) : SameWork t t := ⟨rfl, rfl, rfl⟩

theorem symm {t t' : Task} (h : SameWork t t') : SameWork t' t :=
  ⟨h.id.symm, h.plan.symm, h.parent.symm⟩

theorem trans {t t' t'' : Task} (h : SameWork t t') (h' : SameWork t' t'') : SameWork t t'' :=
  ⟨h'.id.trans h.id, h'.plan.trans h.plan, h'.parent.trans h.parent⟩

end SameWork

/-- What a move does: it is made of unfinished work, and leaves the work the same. -/
structure Moved (t t' : Task) : Prop where
  same : SameWork t t'
  open' : t.lifecycle.isTerminal = false

namespace Task

variable {t t' : Task} {by' : Party} {now : Instant}

theorem transition_eq_ok {target : Lifecycle} (h : t.transition target by' now = .ok t') :
  Moved t t' ∧ t'.lifecycle = target
  := by
  unfold transition at h
  split at h
  · cases h
  · next hopen =>
      cases h
      exact ⟨⟨⟨rfl, rfl, rfl⟩, by simpa using hopen⟩, rfl⟩

theorem complete_eq_ok {result : WorkResult} (h : t.complete result by' now = .ok t') :
  Moved t t' ∧ t'.lifecycle = .completed ∧ t'.result = some result
  := by
  unfold complete at h
  cases htransition : t.transition .completed by' now with
  | error refused =>
    rw [htransition] at h
    cases h
  | ok moved =>
    rw [htransition] at h
    cases h
    obtain ⟨⟨same, hopen⟩, hlifecycle⟩ := transition_eq_ok htransition
    exact ⟨⟨⟨same.id, same.plan, same.parent⟩, hopen⟩, hlifecycle, rfl⟩

theorem failFromAgentExit_eq_some (h : t.failFromAgentExit by' now = some t') :
  Moved t t' ∧ t.lifecycle = .underway
  := by
  unfold failFromAgentExit at h
  split at h
  · cases h
  · next hunderway =>
      rw [not_not] at hunderway
      cases h
      exact ⟨⟨⟨rfl, rfl, rfl⟩, by rw [hunderway]; rfl⟩, hunderway⟩

end Task

/-! ### Work that lands -/

def describe : Link → String
  | .workspace key => key
  | .tracker id => id.source ++ ":" ++ id.key
  | .url url => url

/-- The task completed because a link of it landed, if it has the link and is not finished. -/
def completeLinked (link : Link) (by' : Party) (now : Instant) (t : Task) : Option Task :=
  if !t.linksTo link || t.lifecycle.isTerminal then none
  else
    let result := ⟨"completed automatically: " ++ describe link ++ " landed", []⟩
    (t.complete result by' now).toOption

theorem completeLinked_eq_some {link : Link} {by' : Party} {now : Instant} {t t' : Task}
    (h : completeLinked link by' now t = some t') :
  Moved t t' ∧ t'.lifecycle = .completed
  := by
  unfold completeLinked at h
  split at h
  · cases h
  · dsimp only at h
    cases hcomplete : t.complete ⟨"completed automatically: " ++ describe link ++ " landed", []⟩
        by' now with
    | error refused =>
      rw [hcomplete] at h
      cases h
    | ok done =>
      rw [hcomplete] at h
      cases h
      obtain ⟨moved, hlifecycle, -⟩ := Task.complete_eq_ok hcomplete
      exact ⟨moved, hlifecycle⟩

end Lazybox.Work
