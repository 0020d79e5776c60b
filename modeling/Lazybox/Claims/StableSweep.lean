import Lazybox.Claims.Lease
import Lazybox.Core.MergePolicy

/-!
# The sweep of lapsed claims

A claim whose note upstream has lapsed is taken to be over, and the working label is detached from
its task.  A box does not sweep the tasks of workspaces that it has a record for, nor a claim that
it holds itself; what it has and holds is listed from its store before the sweep.

A listing that fails counts as empty.  So a held claim is safe from the sweep, whatever is upstream,
exactly when the records were listed, and there is one for the workspace that has the task.
-/

namespace Lazybox.Claims

open WorkingClaim (Text WorkingClaimNote)
open scoped WorkingClaim

/-- Of a task, what the sweep reads. -/
structure SweptTask where
  id : TaskId
  repo : Option String
  labels : List Label
deriving DecidableEq, Repr

def SweptTask.hasLabel (task : SweptTask) (name : String) : Bool :=
  task.labels.any fun l => eqIgnoreAsciiCase l.name name

def SweptTask.hasStableWorkingClaim (task : SweptTask) : Bool :=
  task.id.source = "github" && task.hasLabel WorkingClaim.workingLabelName

structure SweptWorkspace where
  key : Text
  pr : Option SweptTask
  ghIssues : List SweptTask
deriving DecidableEq, Repr

def SweptWorkspace.tasks (ws : SweptWorkspace) : List SweptTask := ws.pr.toList ++ ws.ghIssues

/-- The rows of a store.  Those that do not decode are left empty. -/
structure ClaimStore where
  claims : List (Option WorkingClaimRecord)
  workspaces : List (Option SweptWorkspace)

/-- Which listings of the store succeed. -/
structure SweepReads where
  held : Bool
  accounted : Bool
  workspaces : Bool

/-- The owner, the name and the number of a task on GitHub. -/
def workingClaimTarget (id : TaskId) (repo : String) : Option (Text × Text × ℕ) := do
  guard (id.source = "github")
  let (owner, name) ← splitOnce '/' repo.toList
  let (taskRepo, n) ← rsplitOnce '#' id.key.toList
  let number ← parseU64 n
  guard (taskRepo = repo.toList)
  return (owner, name, number)

/-! ### Listings -/

def ClaimStore.records (store : ClaimStore) : List WorkingClaimRecord := store.claims.filterMap id

def ClaimStore.listRecords (store : ClaimStore) (succeeds : Bool) :
    Option (List WorkingClaimRecord) :=
  if succeeds then some store.records else none

/-- Who this box holds claims as. -/
def ClaimStore.locallyHeldClaims (store : ClaimStore) (ownerId : Text) (succeeds : Bool) :
    List (Text × Text) :=
  (((store.listRecords succeeds).getD []).filter fun r => r.ownerId = ownerId).filterMap
    WorkingClaimRecord.identity

/-- The workspaces that there are records for. -/
def ClaimStore.accounted (store : ClaimStore) (succeeds : Bool) : List Text :=
  ((store.listRecords succeeds).getD []).map WorkingClaimRecord.workspaceKey

/-! ### The sweep -/

/-- What the calls that are made for a task answer. -/
structure TaskAnswers where
  client : Bool
  /-- The note of the task, unless it could not be read in time. -/
  note : Option (Option (WorkingClaimNote Instant))
  /-- The label was removed, whether or not that was reported. -/
  removed : Bool

inductive Visit where
  /-- The sweep is over. -/
  | ended
  | left
  | detached
deriving DecidableEq, Repr

def readWorkingClaimNote (id : TaskId) (repo : String) (answers : TaskAnswers) :
    Option (Option (WorkingClaimNote Instant)) :=
  match workingClaimTarget id repo with
  | none => none
  | some _ => answers.note

def removeWorkingLabelTarget (id : TaskId) (repo : String) (answers : TaskAnswers) : Bool :=
  (workingClaimTarget id repo).isSome && answers.removed

def visitTask (heldHere : List (Text × Text)) (now : Instant) (task : SweptTask)
    (answers : TaskAnswers) : Visit :=
  if !task.hasStableWorkingClaim then .left
  else match task.repo with
    | none => .left
    | some repo =>
        if !answers.client then .ended
        else match readWorkingClaimNote task.id repo answers with
          | none | some none => .left
          | some (some note) =>
              if note.isActiveAt now then .left
              else if (note.device, note.session) ∈ heldHere then .left
              else if removeWorkingLabelTarget task.id repo answers then .detached
              else .left

/-- The tasks that lose their label.  Each visit has answers of its own. -/
def sweepTasks (heldHere : List (Text × Text)) (now : Instant) (answers : ℕ → TaskAnswers) :
    ℕ → List SweptTask → List SweptTask
  | _, [] => []
  | n, task :: rest =>
      match visitTask heldHere now task (answers n) with
      | .ended => []
      | .left => sweepTasks heldHere now answers (n + 1) rest
      | .detached => task :: sweepTasks heldHere now answers (n + 1) rest

def ClaimStore.sweptTasks (store : ClaimStore) (accounted : List Text) : List SweptTask :=
  ((store.workspaces.filterMap id).filter fun ws => ws.key ∉ accounted).flatMap
    SweptWorkspace.tasks

def retireLapsedStableClaims (ownerId : Text) (store : ClaimStore) (reads : SweepReads)
    (now : Instant) (answers : ℕ → TaskAnswers) : List SweptTask :=
  let heldHere := store.locallyHeldClaims ownerId reads.held
  let accounted := store.accounted reads.accounted
  if reads.workspaces then sweepTasks heldHere now answers 0 (store.sweptTasks accounted) else []

/-! ### Held claims -/

/-- The store has a record of a claim on the task that has not expired. -/
def ClaimStore.Holds (store : ClaimStore) (now : Instant) (id : TaskId) : Prop :=
  ∃ r ∈ store.records, r.target.id = id ∧ now < r.expiresAt

/-- Whatever is upstream, no task loses its label that a claim is held on. -/
def KeepsHeld (ownerId : Text) (store : ClaimStore) (reads : SweepReads) (now : Instant) : Prop :=
  ∀ answers, ∀ task ∈ retireLapsedStableClaims ownerId store reads now answers,
    ¬ store.Holds now task.id

/-- The sweep could detach the label of the task. -/
def SweptTask.Removable (task : SweptTask) : Prop :=
  task.hasStableWorkingClaim = true
    ∧ ∃ repo, task.repo = some repo ∧ (workingClaimTarget task.id repo).isSome

/-- Every workspace that has a task a claim is held on is known to have a record. -/
def HeldAccounted (store : ClaimStore) (reads : SweepReads) (now : Instant) : Prop :=
  reads.workspaces = true → ∀ ws ∈ store.workspaces.filterMap id, ∀ task ∈ ws.tasks,
    task.Removable → store.Holds now task.id →
      reads.accounted = true ∧ ∃ r ∈ store.records, r.workspaceKey = ws.key

section Sweep

variable {heldHere : List (Text × Text)} {now : Instant} {task : SweptTask}

variable {answers : TaskAnswers}

/-- A label is detached on the note of a claim that is over, and is not held here. -/
theorem visitTask_eq_detached :
  visitTask heldHere now task answers = .detached
    ↔ task.Removable ∧ answers.client = true ∧ answers.removed = true
      ∧ ∃ note, answers.note = some (some note) ∧ note.isActiveAt now = false
        ∧ (note.device, note.session) ∉ heldHere
  := by
  rw [visitTask, SweptTask.Removable]
  cases task.hasStableWorkingClaim with
  | false => simp
  | true =>
    cases task.repo with
    | none => simp
    | some repo =>
      cases htarget : workingClaimTarget task.id repo with
      | none => simp [readWorkingClaimNote, htarget, ite_eq_iff]
      | some target =>
        obtain ⟨client, note, removed⟩ := answers
        cases client with
        | false => simp
        | true =>
          rcases note with _ | _ | note
          · simp [readWorkingClaimNote, htarget]
          · simp [readWorkingClaimNote, htarget]
          · simp [readWorkingClaimNote, removeWorkingLabelTarget, htarget, ite_eq_iff,
              and_comm, and_assoc]

/-- Only a missing client ends the sweep. -/
theorem visitTask_ne_ended (client : answers.client = true) :
  visitTask heldHere now task answers ≠ .ended
  := by
  rw [visitTask, client]
  cases task.hasStableWorkingClaim with
  | false => simp
  | true =>
    cases task.repo with
    | none => simp
    | some repo =>
      rcases hnote : readWorkingClaimNote task.id repo answers with _ | _ | note
      · simp [hnote]
      · simp [hnote]
      · simp [hnote, ite_eq_iff]

/-- Only tasks that are visited lose a label. -/
theorem mem_sweepTasks {answers : ℕ → TaskAnswers} {n : ℕ} {tasks : List SweptTask}
    (h : task ∈ sweepTasks heldHere now answers n tasks) :
  task ∈ tasks ∧ ∃ m, visitTask heldHere now task (answers m) = .detached
  := by
  induction tasks generalizing n with
  | nil => cases h
  | cons first rest ih =>
    rw [sweepTasks] at h
    cases hvisit : visitTask heldHere now first (answers n) with
    | ended =>
      rw [hvisit] at h
      cases h
    | left =>
      rw [hvisit] at h
      obtain ⟨hmem, hdetached⟩ := ih h
      exact ⟨List.mem_cons_of_mem first hmem, hdetached⟩
    | detached =>
      rw [hvisit] at h
      obtain rfl | hlater := List.mem_cons.mp h
      · exact ⟨List.mem_cons_self, n, hvisit⟩
      · obtain ⟨hmem, hdetached⟩ := ih hlater
        exact ⟨List.mem_cons_of_mem first hmem, hdetached⟩

/-- Where no visit ends the sweep, every task whose visit detaches its label loses it. -/
theorem mem_sweepTasks_of_detached {n : ℕ} {tasks : List SweptTask} (client : answers.client = true)
    (htask : task ∈ tasks) (hdetached : visitTask heldHere now task answers = .detached) :
  task ∈ sweepTasks heldHere now (fun _ => answers) n tasks
  := by
  induction tasks generalizing n with
  | nil => cases htask
  | cons first rest ih =>
    rw [sweepTasks]
    obtain rfl | hrest := List.mem_cons.mp htask
    · rw [hdetached]
      apply List.mem_cons_self
    · cases hvisit : visitTask heldHere now first answers with
      | ended => exact absurd hvisit (visitTask_ne_ended client)
      | left => exact ih hrest
      | detached => exact List.mem_cons_of_mem first (ih hrest)

end Sweep

/-! ### Claims of others -/

/-- The note of a claim that was held elsewhere, and has lapsed. -/
def lapsedElsewhere (now : Instant) : WorkingClaimNote Instant where
  device := ['e', 'l', 's', 'e']
  session := []
  workspace := none
  agent := none
  model := none
  startedAt := now
  heartbeatAt := now
  expiresAt := now
  releasedAt := none

/-- No claim is held here as a device of another length. -/
theorem length_of_mem_locallyHeldClaims {store : ClaimStore} {ownerId device session : Text}
    {succeeds : Bool} (h : (device, session) ∈ store.locallyHeldClaims ownerId succeeds) :
  device.length = 20
  := by
  obtain ⟨r, -, hr⟩ := List.mem_filterMap.mp h
  rw [WorkingClaimRecord.identity, workingClaimIdentity] at hr
  split at hr
  · cases hr
  · next hlong =>
      obtain ⟨hdevice, -⟩ := Prod.mk.inj (Option.some.inj hr)
      rw [not_or, not_lt] at hlong
      rw [← hdevice, List.length_take, min_eq_left hlong.1]

/-- Held claims are safe, whatever is upstream, exactly when their workspaces are known to have
records. -/
theorem keepsHeld_iff {ownerId : Text} {store : ClaimStore} {reads : SweepReads} {now : Instant} :
  KeepsHeld ownerId store reads now ↔ HeldAccounted store reads now
  := by
  constructor
  · intro keeps hread ws hws task htask hremovable hheld
    by_contra hunaccounted
    have hswept : task ∈ store.sweptTasks (store.accounted reads.accounted) := by
      apply List.mem_flatMap.mpr ⟨ws, List.mem_filter.mpr ⟨hws, _⟩, htask⟩
      rw [decide_eq_true_eq]
      intro hkey
      apply hunaccounted
      cases hlisted : reads.accounted with
      | false =>
          rw [hlisted] at hkey
          cases hkey
      | true =>
          rw [hlisted] at hkey
          exact ⟨rfl, List.mem_map.mp hkey⟩
    have hdetached : visitTask (store.locallyHeldClaims ownerId reads.held) now task
        ⟨true, some (some (lapsedElsewhere now)), true⟩ = .detached := by
      apply visitTask_eq_detached.mpr
      refine ⟨hremovable, rfl, rfl, lapsedElsewhere now, rfl, ?_, ?_⟩
      · rw [WorkingClaimNote.isActiveAt]
        simp only [lapsedElsewhere, lt_irrefl, decide_false, Bool.and_false]
      · intro hmem
        have hlength := length_of_mem_locallyHeldClaims hmem
        cases hlength
    apply keeps (fun _ => ⟨true, some (some (lapsedElsewhere now)), true⟩) task _ hheld
    rw [retireLapsedStableClaims, if_pos hread]
    apply mem_sweepTasks_of_detached rfl hswept hdetached
  · intro accounted answers task htask hheld
    rw [retireLapsedStableClaims] at htask
    split at htask
    · next hread =>
        obtain ⟨hswept, m, hdetached⟩ := mem_sweepTasks htask
        obtain ⟨hremovable, -⟩ := visitTask_eq_detached.mp hdetached
        obtain ⟨ws, hws, hmem⟩ := List.mem_flatMap.mp hswept
        rw [List.mem_filter, decide_eq_true_eq] at hws
        obtain ⟨haccounted, r, hr, hkey⟩ := accounted hread ws hws.1 task hmem hremovable hheld
        apply hws.2
        rw [haccounted, ClaimStore.accounted, ClaimStore.listRecords]
        exact List.mem_map.mpr ⟨r, hr, hkey⟩
    · cases htask

def sweepingBox : Text := "0123456789abcdef0123456789abcdef".toList

/-- A claim of this box, which expires at the time 100. -/
def heldClaim : WorkingClaimRecord where
  holder := .pty "agent"
  workspaceKey := "github-owner-repo-42".toList
  sessionId := none
  claimSession := "00000000000000000000000000000007".toList
  ownerId := sweepingBox
  target := ⟨⟨"github", "owner/repo#42"⟩, "owner/repo"⟩
  legacyLabel := none
  startedAt := some 0
  claimCommentId := none
  agent := none
  model := none
  expiresAt := 100
  applied := false

def claimedTask : SweptTask :=
  ⟨⟨"github", "owner/repo#42"⟩, some "owner/repo", [Label.new "working"]⟩

def claimedStore : ClaimStore where
  claims := [some heldClaim]
  workspaces := [some ⟨"github-owner-repo-42".toList, none, [claimedTask]⟩]

/-- The note of this box, as it was before a renewal that was not accepted. -/
def lapsedHere : WorkingClaimNote Instant :=
  { lapsedElsewhere 0 with
    device := sweepingBox.take 20
    session := "0000000000".toList }

/-- Where both listings of records fail, a claim is swept on this box's own note; where the second
fails, on the note of another box. -/
theorem not_keepsHeld_unlisted :
  ¬ KeepsHeld sweepingBox claimedStore ⟨false, false, true⟩ 0
    ∧ ¬ KeepsHeld sweepingBox claimedStore ⟨true, false, true⟩ 0
    ∧ claimedTask ∈ retireLapsedStableClaims sweepingBox claimedStore ⟨false, false, true⟩ 0
      fun _ => ⟨true, some (some lapsedHere), true⟩
  := by
  have hheld : claimedStore.Holds 0 claimedTask.id :=
    ⟨heldClaim, List.mem_singleton_self _, rfl, by decide⟩
  have hown : claimedTask ∈ retireLapsedStableClaims sweepingBox claimedStore ⟨false, false, true⟩ 0
      fun _ => ⟨true, some (some lapsedHere), true⟩ := by
    decide +kernel
  have hother :
      claimedTask ∈ retireLapsedStableClaims sweepingBox claimedStore ⟨true, false, true⟩ 0
        fun _ => ⟨true, some (some (lapsedElsewhere 0)), true⟩ := by
    decide +kernel
  exact ⟨fun keeps => keeps _ _ hown hheld, fun keeps => keeps _ _ hother hheld, hown⟩

end Lazybox.Claims
