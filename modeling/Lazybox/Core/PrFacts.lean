import Lazybox.Core.ActivityUnread
import Lazybox.Core.ProviderBoard
import Lazybox.Core.MergePolicy
import Lazybox.Polling.WriteTargets

/-!
# Attaching an observed task

A poll attaches the tasks it observes to the slots of a workspace.  The inbox scan leaves out some
facts of a pull request, its checks, its reviews, whether it can be merged, and what kind it is,
and the row keeps those of the pull request that was in the slot, whichever it was.
-/

namespace Lazybox.Attach

structure CheckRun where
  name : String
  status : CiStatus
  url : Option String
deriving DecidableEq, Repr

/-- A task as it is observed, and as a slot holds it. -/
structure ObservedTask extends Task, Link where
  checks : List CheckRun
  reviews : List Reviewer
  mergeable : Mergeable
  isBehindBase : Bool
  recentActivity : List Feed.Activity
deriving DecidableEq

/-- What the row of a pull request keeps of the one it replaces. -/
def preserveLazyPrFields (incoming existing : ObservedTask) : ObservedTask :=
  let evicted := incoming.mergeable = .unknown ∧ existing.mergeable ≠ .unknown
  { incoming with
    checks :=
      if incoming.checks = [] ∧ existing.checks ≠ [] then existing.checks else incoming.checks
    reviews :=
      if incoming.reviews = [] ∧ existing.reviews ≠ [] then existing.reviews else incoming.reviews
    mergeable := if evicted then existing.mergeable else incoming.mergeable
    isBehindBase := if evicted then existing.isBehindBase else incoming.isBehindBase
    kind := incoming.kind.or existing.kind }

/-- The row of a pull request that takes a slot. -/
def takeSlot (current : Option ObservedTask) (task : ObservedTask) : ObservedTask :=
  match current with
  | some existing => preserveLazyPrFields task existing
  | none => task

@[simp]
theorem takeSlot_none (task : ObservedTask) : takeSlot none task = task := rfl

@[simp]
theorem takeSlot_some (existing task : ObservedTask) :
  takeSlot (some existing) task = preserveLazyPrFields task existing
  := rfl

def upsertById : List ObservedTask → ObservedTask → List ObservedTask
  | [], task => [task]
  | slot :: rest, task =>
      if slot.id = task.id then { task with kind := task.kind.or slot.kind } :: rest
      else slot :: upsertById rest task

structure Workspace where
  pr : Option ObservedTask
  ghIssues : List ObservedTask
  linearIssues : List ObservedTask
  nativeAutoMergeByLazybox : Bool
  providerOps : ProviderOps
  feed : Feed.Workspace
  lastViewedAt : Option Instant

namespace Workspace

variable (ws : Workspace)

/-- The task takes its slot, or there is none for it. -/
def route (task : ObservedTask) : Option Workspace :=
  match classifyTask task.toLink with
  | .pr => some
      { ws with
        pr := some (takeSlot ws.pr task)
        nativeAutoMergeByLazybox :=
          ws.nativeAutoMergeByLazybox && ws.pr.all fun old => old.id = task.id }
  | .ghIssue => some { ws with ghIssues := upsertById ws.ghIssues task }
  | .linearIssue => some { ws with linearIssues := upsertById ws.linearIssues task }
  | .unknown => none

def taskById (id : TaskId) : Option ObservedTask :=
  (ws.pr.toList ++ ws.ghIssues ++ ws.linearIssues).find? fun task => task.id = id

/-- Replace the first task of an id. -/
def replaceFirst (task : ObservedTask) (list : List ObservedTask) : List ObservedTask :=
  list.replaceF fun slot => if slot.id = task.id then some task else none

/-- Write a task over the first one of its id, going through the slots in order. -/
def writeTask (task : ObservedTask) : Workspace :=
  if ws.pr.any fun slot => slot.id = task.id then { ws with pr := some task }
  else if ws.ghIssues.any fun slot => slot.id = task.id then
    { ws with ghIssues := replaceFirst task ws.ghIssues }
  else { ws with linearIssues := replaceFirst task ws.linearIssues }

/-- Reconcile the writes under way with what was observed of a task. -/
def reconcile (id : TaskId) (now : Instant) : Workspace :=
  match ws.taskById id with
  | none => ws
  | some stored =>
      let (ops, task) := ws.providerOps.reconcileObservation stored.toTask now
      { ws.writeTask { stored with toTask := task } with providerOps := ops }

def baselineFirstActivityAsSeen : Workspace :=
  match ws.lastViewedAt with
  | none => ws
  | some viewed =>
      { ws with
        feed := { ws.feed with
          seenCount := ws.feed.activity.countP fun a => a.createdAt ≤ viewed
          readIndices := ∅ } }

def attachTaskAt (task : ObservedTask) (now : Instant) : Workspace :=
  match ws.route task with
  | none => ws
  | some routed =>
      let settled := routed.reconcile task.id now
      let merged := { settled with feed := settled.feed.mergeActivity task.recentActivity }
      if ws.feed.activity = [] then merged.baselineFirstActivityAsSeen else merged

end Workspace

end Lazybox.Attach

/-!
## The facts of the pull request in the slot

When another pull request takes the slot, what it was observed without is filled in from the one
that was there before.  As long as every pull request that takes over was observed with all the
facts its predecessor has, the facts in the slot were observed of the pull request it holds.
-/

namespace Lazybox.Attach

/-- An observation of a task. -/
structure Attachment where
  task : ObservedTask
  now : Instant

namespace Workspace

/-- What is observed along a run is the tasks that were attached. -/
def machine : Machine Workspace Attachment ObservedTask :=
  ⟨fun ws a => (ws.attachTaskAt a.task a.now, [a.task])⟩

end Workspace

/-- The facts of a task were observed of it. -/
structure FactsFrom (observed : List ObservedTask) (task : ObservedTask) : Prop where
  checks : ∃ o ∈ observed, o.id = task.id ∧ o.checks = task.checks
  reviews : ∃ o ∈ observed, o.id = task.id ∧ o.reviews = task.reviews
  mergeable : ∃ o ∈ observed, o.id = task.id ∧ o.mergeable = task.mergeable
    ∧ o.isBehindBase = task.isBehindBase
  kind : ∃ o ∈ observed, o.id = task.id ∧ o.kind = task.kind

/-- The facts that one task has, another has its own of. -/
structure Covers (task old : ObservedTask) : Prop where
  checks : task.checks ≠ [] ∨ old.checks = []
  reviews : task.reviews ≠ [] ∨ old.reviews = []
  mergeable : task.mergeable ≠ .unknown ∨ old.mergeable = .unknown
  kind : task.kind ≠ none ∨ old.kind = none

/-- A pull request that takes the slot of another one has its own of all the facts of it. -/
def TakesOver (ws : Workspace) (a : Attachment) : Prop :=
  classifyTask a.task.toLink = .pr → ∀ old, ws.pr = some old → old.id ≠ a.task.id →
    Covers a.task old

instance (task old : ObservedTask) : Decidable (Covers task old) :=
  decidable_of_iff
    ((task.checks ≠ [] ∨ old.checks = []) ∧ (task.reviews ≠ [] ∨ old.reviews = [])
      ∧ (task.mergeable ≠ .unknown ∨ old.mergeable = .unknown)
      ∧ (task.kind ≠ none ∨ old.kind = none))
    ⟨fun h => ⟨h.1, h.2.1, h.2.2.1, h.2.2.2⟩, fun h => ⟨h.1, h.2, h.3, h.4⟩⟩

instance (ws : Workspace) (a : Attachment) : Decidable (TakesOver ws a) :=
  inferInstanceAs (Decidable
    (classifyTask a.task.toLink = .pr → ∀ old ∈ ws.pr, old.id ≠ a.task.id → Covers a.task old))

/-- Two tasks with the same id and the same facts. -/
structure SameFacts (t t' : ObservedTask) : Prop where
  id : t.id = t'.id
  checks : t.checks = t'.checks
  reviews : t.reviews = t'.reviews
  mergeable : t.mergeable = t'.mergeable
  isBehindBase : t.isBehindBase = t'.isBehindBase
  kind : t.kind = t'.kind

theorem SameFacts.refl (t : ObservedTask) :
  SameFacts t t
  := ⟨rfl, rfl, rfl, rfl, rfl, rfl⟩

/-! ### Observed facts -/

namespace FactsFrom

variable {observed : List ObservedTask} {task task' : ObservedTask}

theorem of_mem (h : task ∈ observed) :
  FactsFrom observed task
  := by
  constructor
  · use task
  · use task
  · use task
  · use task

theorem mono {observed' : List ObservedTask} (facts : FactsFrom observed task)
    (h : ∀ o ∈ observed, o ∈ observed') :
  FactsFrom observed' task
  := by
  obtain ⟨⟨c, hc, hchecks⟩, ⟨r, hr, hreviews⟩, ⟨m, hm, hmergeable⟩, ⟨k, hk, hkind⟩⟩ := facts
  constructor
  · use c, h c hc
  · use r, h r hr
  · use m, h m hm
  · use k, h k hk

theorem congr (facts : FactsFrom observed task) (same : SameFacts task task') :
  FactsFrom observed task'
  := by
  obtain ⟨hchecks, hreviews, hmergeable, hkind⟩ := facts
  constructor
  · rwa [← same.id, ← same.checks]
  · rwa [← same.id, ← same.reviews]
  · rwa [← same.id, ← same.mergeable, ← same.isBehindBase]
  · rwa [← same.id, ← same.kind]

end FactsFrom

/-! ### Filling in -/

/-- What a task has its own of is not filled in. -/
theorem preserveLazyPrFields_of_covers {task old : ObservedTask} (covers : Covers task old) :
  preserveLazyPrFields task old = task
  := by
  have hchecks : ¬ (task.checks = [] ∧ old.checks ≠ []) := by
    rintro ⟨htask, hold⟩
    exact covers.checks.elim (absurd htask) (absurd · hold)
  have hreviews : ¬ (task.reviews = [] ∧ old.reviews ≠ []) := by
    rintro ⟨htask, hold⟩
    exact covers.reviews.elim (absurd htask) (absurd · hold)
  have hmergeable : ¬ (task.mergeable = .unknown ∧ old.mergeable ≠ .unknown) := by
    rintro ⟨htask, hold⟩
    exact covers.mergeable.elim (absurd htask) (absurd · hold)
  have hkind : task.kind.or old.kind = task.kind := by
    cases hkind : task.kind with
    | some kind => rfl
    | none =>
      rw [Option.none_or]
      exact covers.kind.elim (absurd hkind) id
  rw [preserveLazyPrFields, if_neg hchecks, if_neg hreviews, if_neg hmergeable, if_neg hmergeable,
    hkind]

/-- What is filled in was observed of the same task. -/
theorem FactsFrom.preserve {observed : List ObservedTask} {task old : ObservedTask}
    (own : FactsFrom observed task) (facts : FactsFrom observed old) (same : old.id = task.id) :
  FactsFrom observed (preserveLazyPrFields task old)
  := by
  have hid : (preserveLazyPrFields task old).id = old.id := same.symm
  constructor
  · rw [hid, preserveLazyPrFields]
    dsimp only
    split
    · apply facts.checks
    · rw [same]
      apply own.checks
  · rw [hid, preserveLazyPrFields]
    dsimp only
    split
    · apply facts.reviews
    · rw [same]
      apply own.reviews
  · rw [hid, preserveLazyPrFields]
    dsimp only
    split
    · apply facts.mergeable
    · rw [same]
      apply own.mergeable
  · rw [hid, preserveLazyPrFields]
    dsimp only
    cases hkind : task.kind with
    | none =>
      rw [Option.none_or]
      apply facts.kind
    | some kind =>
      rw [Option.some_or, ← hkind, same]
      apply own.kind

/-! ### Reconciling -/

namespace Workspace

variable {ws : Workspace}

variable {task : ObservedTask}

theorem pr_writeTask :
  (ws.writeTask task).pr = if ws.pr.any fun slot => slot.id = task.id then some task else ws.pr
  := by
  rw [writeTask]
  split
  · rfl
  · split
    · rfl
    · rfl

/-- The pull request is looked at first. -/
theorem taskById_of_pr {id : TaskId} {pr : ObservedTask} (h : ws.pr = some pr) (hid : pr.id = id) :
  ws.taskById id = some pr
  := by
  rw [taskById, h, List.append_assoc, Option.toList_some, List.singleton_append,
    List.find?_cons_of_pos]
  simpa using hid

theorem id_of_taskById {id : TaskId} (h : ws.taskById id = some task) :
  task.id = id
  := by
  simpa using List.find?_some h

/-- Reconciling leaves the facts of the pull request. -/
theorem pr_reconcile (ws : Workspace) (id : TaskId) (now : Instant) :
  Option.Rel SameFacts ws.pr (ws.reconcile id now).pr
  := by
  have refl : ∀ current : Option ObservedTask, Option.Rel SameFacts current current := by
    intro current
    cases current with
    | none => apply Option.Rel.none
    | some pr => apply Option.Rel.some (.refl pr)
  rw [reconcile]
  cases hstored : ws.taskById id with
  | none => apply refl
  | some stored =>
    have hid := ws.providerOps.reconcileObservation_id stored.toTask now
    dsimp only
    rw [pr_writeTask]
    split
    · next hany =>
        obtain ⟨slot, hslot, hslotId⟩ := (Option.any_eq_true _ _).mp hany
        have hsame : slot.id = id := by
          rw [of_decide_eq_true hslotId, ← id_of_taskById hstored]
          apply hid
        rw [taskById_of_pr hslot hsame, Option.some.injEq] at hstored
        rw [hslot, hstored]
        apply Option.Rel.some
        constructor
        · apply hid.symm
        all_goals rfl
    · apply refl

theorem pr_attachTaskAt {now : Instant} {routed : Workspace} (h : ws.route task = some routed) :
  (ws.attachTaskAt task now).pr = (routed.reconcile task.id now).pr
  := by
  rw [attachTaskAt, h]
  dsimp only
  split
  · rw [baselineFirstActivityAsSeen]
    split
    · rfl
    · rfl
  · rfl

theorem attachTaskAt_of_route_eq_none {now : Instant} (h : ws.route task = none) :
  ws.attachTaskAt task now = ws
  := by
  rw [attachTaskAt, h]

/-- The pull request is what it was, unless the task is one. -/
theorem pr_route {routed : Workspace} (h : ws.route task = some routed) :
  routed.pr = ws.pr
    ∨ classifyTask task.toLink = .pr
      ∧ routed.pr = some (takeSlot ws.pr task)
  := by
  rw [route] at h
  cases hslot : classifyTask task.toLink with
  | pr =>
    rw [hslot] at h
    cases h
    right
    constructor
    · rfl
    · rfl
  | ghIssue | linearIssue =>
    rw [hslot] at h
    cases h
    left
    rfl
  | unknown =>
    rw [hslot] at h
    cases h

end Workspace

/-! ### Runs -/

/-- The facts of the pull request in the slot were observed of it. -/
def Own (ws : Workspace) (observed : List ObservedTask) : Prop :=
  ∀ pr, ws.pr = some pr → FactsFrom observed pr

theorem Own.attach {ws : Workspace} {observed : List ObservedTask} (own : Own ws observed)
    {a : Attachment} (takesOver : TakesOver ws a) :
  Own (ws.attachTaskAt a.task a.now) (observed ++ [a.task])
  := by
  have before : ∀ pr, ws.pr = some pr → FactsFrom (observed ++ [a.task]) pr := by
    intro pr hpr
    apply (own pr hpr).mono
    intro o ho
    apply List.mem_append_left _ ho
  have incoming : FactsFrom (observed ++ [a.task]) a.task := by
    apply FactsFrom.of_mem
    simp
  intro pr hpr
  cases hroute : ws.route a.task with
  | none =>
    rw [Workspace.attachTaskAt_of_route_eq_none hroute] at hpr
    apply before pr hpr
  | some routed =>
    have hrel := routed.pr_reconcile a.task.id a.now
    rw [← Workspace.pr_attachTaskAt hroute, hpr] at hrel
    cases hstored : routed.pr with
    | none =>
      rw [hstored] at hrel
      cases hrel
    | some stored =>
      rw [hstored, Option.rel_some_some] at hrel
      apply FactsFrom.congr _ hrel
      obtain hkept | ⟨hslot, hnew⟩ := Workspace.pr_route hroute
      · apply before
        rw [← hkept, hstored]
      · rw [hnew, Option.some.injEq] at hstored
        subst hstored
        cases hold : ws.pr with
        | none => apply incoming
        | some old =>
          rw [takeSlot_some]
          by_cases hid : old.id = a.task.id
          · apply incoming.preserve (before old hold) hid
          · rw [preserveLazyPrFields_of_covers (takesOver hslot old hold hid)]
            apply incoming

/-- When pull requests take over with facts of their own, the facts in the slot were observed of
the pull request it holds. -/
theorem facts_own
    {ws : Workspace} {as : List Attachment} (start : ws.pr = none)
    (takesOver : Workspace.machine.Along TakesOver ws as) :
  Own (Workspace.machine.final ws as) (Workspace.machine.trace ws as)
  := by
  apply Workspace.machine.invariant _ _ takesOver
  · intro pr hpr
    rw [start] at hpr
    cases hpr
  · intro ws os a htakes own
    apply own.attach htakes

/-- The checks of a pull request which had failed. -/
def failing : CheckRun := ⟨"build", .failure, none⟩

def inboxRow (number : String) (checks : List CheckRun) : ObservedTask where
  id := ⟨"github", "o/r#" ++ number⟩
  assignees := []
  labels := []
  reviewers := []
  state := .opened
  stateLabel := none
  updatedAt := 0
  kind := some .pr
  url := "https://github.com/o/r/pull/" ++ number
  nodeId := none
  repo := some "o/r"
  checks := checks
  reviews := []
  mergeable := .unknown
  isBehindBase := false
  recentActivity := []

def bare : Workspace := ⟨none, [], [], false, .default, ⟨[], 0, ∅⟩, none⟩

/-- Another pull request opens in the workspace of one whose checks failed. -/
def takeover : List Attachment := [⟨inboxRow "8" [failing], 0⟩, ⟨inboxRow "9" [], 1⟩]

/-- The new one is shown with failing checks that were never observed of it. -/
theorem takeover_mixes :
  ¬ Own (Workspace.machine.final bare takeover) (Workspace.machine.trace bare takeover)
  := by
  intro own
  obtain ⟨o, ho, hchecks⟩ := (own _ rfl).checks
  revert o
  decide +kernel

/-- One observed with checks of its own is shown with these. -/
theorem facts_own_checked :
  Own
    (Workspace.machine.final bare [⟨inboxRow "8" [failing], 0⟩, ⟨inboxRow "9" [failing], 1⟩])
    (Workspace.machine.trace bare [⟨inboxRow "8" [failing], 0⟩, ⟨inboxRow "9" [failing], 1⟩])
  := facts_own rfl (by decide +kernel)

end Lazybox.Attach
