import Lazybox.Library.Keyed
import Lazybox.Work.Task

/-!
# The task store

A task is stored under its id.  A row this build cannot decode is read as absent and skipped in a
listing.  A batch of tasks is written as a whole.  The operations that move several tasks read
every row, move their own copies, and have the copies that moved written back.
-/

namespace Lazybox.Work

/-- What is stored under an id. -/
inductive Row where
  | task (task : Task)
  | undecodable (raw : String)

def Row.decode : Row → Option Task
  | task t => some t
  | undecodable _ => none

/-- The rows of the store, in its order.  A task is stored under its own id. -/
structure WorkStore where
  rows : List (WorkId × Row)
  distinct : (rows.map Prod.fst).Nodup
  named : ∀ row ∈ rows, ∀ t, row.2.decode = some t → t.id = row.1

/-- Tasks to write, one for each id. -/
structure Batch where
  tasks : List Task
  distinct : (tasks.map Task.id).Nodup

namespace WorkStore

def empty : WorkStore := ⟨[], List.nodup_nil, by simp⟩

def loadTask (s : WorkStore) (id : WorkId) : Option Task :=
  (Keyed.lookup Prod.fst id s.rows).bind fun row => row.2.decode

/-- Forget a task.  The tasks nested under it stay. -/
def deleteTask (s : WorkStore) (id : WorkId) : WorkStore where
  rows := Keyed.erase Prod.fst id s.rows
  distinct := s.distinct.sublist (List.filter_sublist.map _)
  named row h := s.named row (List.mem_of_mem_filter h)

/-- Write one task, replacing any row under the same id. -/
def saveTask (s : WorkStore) (t : Task) : WorkStore where
  rows := (t.id, .task t) :: (s.deleteTask t.id).rows
  distinct := by
    rw [List.map_cons, List.nodup_cons]
    constructor
    · simp [deleteTask, Keyed.erase]
    · apply (s.deleteTask t.id).distinct
  named := by
    rw [List.forall_mem_cons]
    constructor
    · intro t' h
      cases h
      rfl
    · apply (s.deleteTask t.id).named

/-- Write several tasks: all of them land. -/
def saveTasks (s : WorkStore) (tasks : List Task) : WorkStore :=
  tasks.foldl saveTask s

/-- Every task. -/
def allTasks (s : WorkStore) : List Task := s.rows.filterMap fun row => row.2.decode

/-- The number of the rows this build cannot decode. -/
def skipped (s : WorkStore) : ℕ := s.rows.length - s.allTasks.length

/-- The tasks a workspace owns. -/
def tasksOwnedBy (s : WorkStore) (workspace : String) : List Task :=
  s.allTasks.filter fun t => t.ownerWorkspace = some workspace

/-! ### Reading the store -/

variable {s : WorkStore} {t : Task} {id : WorkId}

theorem loadTask_id (h : s.loadTask id = some t) :
  t.id = id
  := by
  obtain ⟨row, hrow, hdecode⟩ := Option.bind_eq_some_iff.mp h
  obtain ⟨hmem, rfl⟩ := Keyed.lookup_eq_some hrow
  apply s.named row hmem t hdecode

theorem mem_allTasks :
  t ∈ s.allTasks ↔ s.loadTask t.id = some t
  := by
  simp only [allTasks, List.mem_filterMap, loadTask, Option.bind_eq_some_iff]
  constructor
  · rintro ⟨row, hmem, hdecode⟩
    use row
    constructor
    · rw [Keyed.lookup_eq_some_iff s.distinct]
      exact ⟨hmem, (s.named row hmem t hdecode).symm⟩
    · apply hdecode
  · rintro ⟨row, hrow, hdecode⟩
    exact ⟨row, (Keyed.lookup_eq_some hrow).1, hdecode⟩

theorem distinct_allTasks (s : WorkStore) :
  (s.allTasks.map Task.id).Nodup
  := by
  apply List.Nodup.sublist _ s.distinct
  apply Keyed.sublist_map_filterMap s.named

/-! ### What a write changes -/

@[simp]
theorem loadTask_deleteTask (s : WorkStore) (deleted id : WorkId) :
  (s.deleteTask deleted).loadTask id = if id = deleted then none else s.loadTask id
  := by
  rw [loadTask, deleteTask, Keyed.lookup_erase]
  split
  · rfl
  · rfl

@[simp]
theorem loadTask_saveTask (s : WorkStore) (t : Task) (id : WorkId) :
  (s.saveTask t).loadTask id = if t.id = id then some t else s.loadTask id
  := by
  rw [loadTask, saveTask, Keyed.lookup_cons]
  split
  · rfl
  · next hid =>
      have := s.loadTask_deleteTask t.id id
      rw [loadTask, if_neg fun h => hid h.symm] at this
      apply this

/-- What is stored under an id once a batch is written: its task of the batch, if it has one. -/
theorem loadTask_saveTasks (s : WorkStore) (batch : Batch) (id : WorkId) :
  (s.saveTasks batch.tasks).loadTask id
    = (Keyed.lookup Task.id id batch.tasks).or (s.loadTask id)
  := by
  obtain ⟨tasks, distinct⟩ := batch
  dsimp only
  rw [saveTasks]
  induction tasks generalizing s with
  | nil => rfl
  | cons t tasks ih =>
    rw [List.map_cons, List.nodup_cons] at distinct
    rw [List.foldl_cons, ih _ distinct.2, loadTask_saveTask, Keyed.lookup_cons]
    split
    · next hid =>
        have habsent : Keyed.lookup Task.id id tasks = none := by
          rw [Keyed.lookup_eq_none]
          rintro t' ht' rfl
          apply distinct.1
          rw [hid]
          apply List.mem_map_of_mem ht'
        rw [habsent]
        rfl
    · rfl

/-- A batch leaves every row as it was but those of its tasks. -/
theorem lookup_saveTasks {tasks : List Task} (h : id ∉ tasks.map Task.id) :
  Keyed.lookup Prod.fst id (s.saveTasks tasks).rows = Keyed.lookup Prod.fst id s.rows
  := by
  rw [saveTasks]
  induction tasks generalizing s with
  | nil => rfl
  | cons t tasks ih =>
    rw [List.map_cons, List.mem_cons, not_or] at h
    rw [List.foldl_cons, ih h.2, saveTask, Keyed.lookup_cons, if_neg fun hid => h.1 hid.symm,
      deleteTask, Keyed.lookup_erase, if_neg h.1]

theorem mem_allTasks_deleteTask {deleted : WorkId} :
  t ∈ (s.deleteTask deleted).allTasks ↔ t ∈ s.allTasks ∧ t.id ≠ deleted
  := by
  rw [mem_allTasks, mem_allTasks, loadTask_deleteTask]
  split
  · next h => simp [h]
  · next h => simp [h]

theorem mem_allTasks_saveTasks {batch : Batch} :
  t ∈ (s.saveTasks batch.tasks).allTasks
    ↔ t ∈ batch.tasks ∨ t ∈ s.allTasks ∧ ∀ u ∈ batch.tasks, u.id ≠ t.id
  := by
  rw [mem_allTasks, mem_allTasks, loadTask_saveTasks]
  cases hfound : Keyed.lookup Task.id t.id batch.tasks with
  | none =>
    rw [Option.none_or]
    have habsent := Keyed.lookup_eq_none.mp hfound
    constructor
    · intro h
      right
      exact ⟨h, habsent⟩
    · rintro (h | ⟨h, -⟩)
      · exact absurd rfl (habsent t h)
      · apply h
  | some u =>
    obtain ⟨hu, hid⟩ := Keyed.lookup_eq_some hfound
    rw [Option.some_or, Option.some_inj]
    constructor
    · rintro rfl
      left
      apply hu
    · rintro (h | ⟨-, h⟩)
      · apply List.inj_on_of_nodup_map batch.distinct hu h hid
      · exact absurd hid (h u hu)

end WorkStore

/-! ### The operations that move several tasks -/

section Changed

variable (move : Task → Option Task)

/-- The ids of the tasks that move. -/
def movedIds (tasks : List Task) : List WorkId :=
  (tasks.filter fun t => (move t).isSome).map Task.id

/-- The tasks after the moves, those only that moved. -/
def changed (tasks : List Task) : List Task :=
  (tasks.map fun t => (move t).getD t).filter fun t => (movedIds move tasks).contains t.id

variable {move} (moves : ∀ t t', move t = some t' → Moved t t') {tasks : List Task}
include moves

theorem map_id_moved (tasks : List Task) :
  (tasks.map fun t => (move t).getD t).map Task.id = tasks.map Task.id
  := by
  rw [List.map_map]
  apply List.map_congr_left
  intro t _
  cases hmove : move t with
  | none => simp [hmove]
  | some t' => simp [hmove, (moves t t' hmove).same.id]

theorem distinct_changed (distinct : (tasks.map Task.id).Nodup) :
  ((changed move tasks).map Task.id).Nodup
  := by
  apply List.Nodup.sublist (List.filter_sublist.map _)
  rw [map_id_moved moves]
  apply distinct

/-- The tasks to write are the moves of the tasks that move. -/
theorem mem_changed (distinct : (tasks.map Task.id).Nodup) {t' : Task} :
  t' ∈ changed move tasks ↔ ∃ t ∈ tasks, move t = some t'
  := by
  rw [changed, List.mem_filter, List.mem_map, movedIds]
  constructor
  · rintro ⟨⟨t, ht, rfl⟩, hmoved⟩
    cases hmove : move t with
    | none =>
      rw [hmove, Option.getD_none, List.contains_iff_mem, Keyed.mem_map_filter distinct _ ht,
        hmove] at hmoved
      cases hmoved
    | some t' => exact ⟨t, ht, by simp [hmove]⟩
  · rintro ⟨t, ht, hmove⟩
    constructor
    · exact ⟨t, ht, by simp [hmove]⟩
    · rw [List.contains_iff_mem, (moves t t' hmove).same.id, Keyed.mem_map_filter distinct _ ht,
        hmove]
      rfl

end Changed

namespace WorkStore

/-- Complete every open task linked to a link. -/
def completeLinkedTo (s : WorkStore) (link : Link) (by' : Party) (now : Instant) : Batch where
  tasks := changed (completeLinked link by' now) s.allTasks
  distinct := by
    apply distinct_changed _ s.distinct_allTasks
    intro t t' h
    apply (completeLinked_eq_some h).1

/-- Fail every task under way which a workspace owns, because its agent exited. -/
def failUnderwayForExit (s : WorkStore) (workspace : String) (by' : Party) (now : Instant) :
    Batch where
  tasks := changed (fun t => t.failFromAgentExit by' now) (s.tasksOwnedBy workspace)
  distinct := by
    apply distinct_changed
    · intro t t' h
      apply (Task.failFromAgentExit_eq_some h).1
    · apply s.distinct_allTasks.sublist (List.filter_sublist.map _)

/-- The task is under way, its owner is an agent whose workspace has no live agent, and it is
untouched for longer than the grace. -/
def isStranded (t : Task) (now grace : Instant) (hasLiveAgent : String → Bool) : Bool :=
  if t.lifecycle ≠ .underway then false
  else
    match t.ownerWorkspace with
    | none => false
    | some workspace =>
        if hasLiveAgent workspace then false
        else
          match t.history.getLast? with
          | none => false
          | some last => grace < now - last.instant

/-- Fail every stranded task. -/
def sweepStranded (s : WorkStore) (now grace : Instant) (hasLiveAgent : String → Bool) :
    Batch where
  tasks :=
    changed
      (fun t => if isStranded t now grace hasLiveAgent then t.failFromAgentExit .lazybox now
        else none)
      s.allTasks
  distinct := by
    apply distinct_changed _ s.distinct_allTasks
    intro t t' h
    split at h
    · apply (Task.failFromAgentExit_eq_some h).1
    · cases h

end WorkStore

end Lazybox.Work
