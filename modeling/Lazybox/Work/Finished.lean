import Lazybox.Work.Calls

/-!
# Finished work

A move is made of unfinished work, but it is made of the copy an operation loaded, and the copy is
written over whatever is stored by then.  Finished work keeps its outcome along a run exactly when
no operation writes a copy with another outcome over a task which was finished in the meantime.
-/

namespace Lazybox.Work

structure SameOutcome (t t' : Task) : Prop where
  lifecycle : t'.lifecycle = t.lifecycle
  result : t'.result = t.result

instance (t t' : Task) : Decidable (SameOutcome t t') :=
  decidable_of_iff (t'.lifecycle = t.lifecycle ∧ t'.result = t.result)
    ⟨fun h => ⟨h.1, h.2⟩, fun h => ⟨h.lifecycle, h.result⟩⟩

/-- The tasks finished in one store are in the other, with the same outcome. -/
def FinishedStays (s s' : WorkStore) : Prop :=
  ∀ id t, s.loadTask id = some t → t.lifecycle.isTerminal →
    ∃ t', s'.loadTask id = some t' ∧ SameOutcome t t'

theorem FinishedStays.refl (s : WorkStore) :
  FinishedStays s s
  := fun _ t h _ => ⟨t, h, rfl, rfl⟩

theorem FinishedStays.trans
    {s s' s'' : WorkStore} (h : FinishedStays s s') (h' : FinishedStays s' s'') :
  FinishedStays s s''
  := by
  intro id t hload hterminal
  obtain ⟨t', hload', same⟩ := h id t hload hterminal
  rw [← same.lifecycle] at hterminal
  obtain ⟨t'', hload'', same'⟩ := h' id t' hload' hterminal
  use t'', hload''
  exact ⟨same'.lifecycle.trans same.lifecycle, same'.result.trans same.result⟩

/-- A batch has the outcome stored, for each of its tasks which is stored as finished. -/
def KeepsOutcome (s : WorkStore) (batch : Batch) : Prop :=
  ∀ t' ∈ batch.tasks, ∀ t, s.loadTask t'.id = some t → t.lifecycle.isTerminal → SameOutcome t t'

/-- Writing a batch leaves finished work as it is when, and only when, the batch has the outcome
of each of its tasks which is finished. -/
theorem finishedStays_saveTasks_iff (s : WorkStore) (batch : Batch) :
  FinishedStays s (s.saveTasks batch.tasks) ↔ KeepsOutcome s batch
  := by
  constructor
  · intro h t' ht' t hload hterminal
    obtain ⟨u, hu, same⟩ := h _ t hload hterminal
    have hfound : Keyed.lookup Task.id t'.id batch.tasks = some t' :=
      (Keyed.lookup_eq_some_iff batch.distinct).mpr ⟨ht', rfl⟩
    rw [WorkStore.loadTask_saveTasks, hfound, Option.some_or] at hu
    cases hu
    apply same
  · intro h id t hload hterminal
    rw [WorkStore.loadTask_saveTasks]
    cases hfound : Keyed.lookup Task.id id batch.tasks with
    | none => exact ⟨t, hload, rfl, rfl⟩
    | some t' =>
      obtain ⟨hmem, rfl⟩ := Keyed.lookup_eq_some hfound
      exact ⟨t', rfl, h t' hmem t hload hterminal⟩

namespace Server

/-- An operation that writes its tasks has the outcome of each which was finished meanwhile. -/
def SavesOutcome (w : Server) : Act → Prop
  | .save i => ∀ batch, w.pending[i]? = some batch → KeepsOutcome w.store batch
  | _ => True

variable {w : Server}

theorem store_next {a : Act} (unsaved : ∀ i, a ≠ .save i) (kept : ∀ id, a ≠ .deleteTask id) :
  (machine.next w a).store = w.store
  := by
  have hdoes := w.does a
  generalize machine.next w a = w' at hdoes
  cases hdoes with
  | idle plans => rfl
  | created h => rfl
  | reads h => rfl
  | @saves i batch h => exact absurd rfl (unsaved i)
  | fails i => rfl
  | deletes id => exact absurd rfl (kept id)

theorem finishedStays_next_iff {a : Act} (kept : ∀ id, a ≠ .deleteTask id) :
  FinishedStays w.store (machine.next w a).store ↔ SavesOutcome w a
  := by
  cases a with
  | save i =>
    change FinishedStays w.store (w.saveStep i).store ↔ _
    rw [saveStep, SavesOutcome]
    cases hpending : w.pending[i]? with
    | none => simp [FinishedStays.refl]
    | some batch =>
      change FinishedStays w.store (w.store.saveTasks batch.tasks) ↔ _
      rw [finishedStays_saveTasks_iff]
      simp
  | deleteTask id => exact absurd rfl (kept id)
  | savePlan _ | create _ _ | update _ _ | completeLinkedTo _ _ _ | failUnderwayForExit _ _ _
  | sweepStranded _ _ _ | fail _ =>
    rw [store_next (by simp) kept]
    simp [FinishedStays.refl, SavesOutcome]

/-! ### One operation at a time -/

/-- An operation which reads the store and has its tasks written at once. -/
def atOnce (a : Act) : List Act := [a, .save 0]

/-- The actions which read the store for an operation. -/
def Reading : Act → Prop
  | .save _ | .fail _ | .deleteTask _ => False
  | _ => True

/-- What is moved from unfinished work has nothing finished to keep. -/
theorem keepsOutcome_of_reads {s : WorkStore} {batch : Batch} (h : Reads s batch) :
  KeepsOutcome s batch
  := by
  intro t' ht' t hload hterminal
  obtain ⟨u, hu, moved⟩ := h t' ht'
  rw [hload] at hu
  cases hu
  rw [moved.open'] at hterminal
  cases hterminal

/-- No task has the id of a new one. -/
theorem keepsOutcome_of_created
    (minted : Minted w) {args : CreateArgs} {t : Task} (h : Created w.store args ⟨w.next⟩ t) :
  KeepsOutcome w.store (single t)
  := by
  intro t' ht' u hload _
  rw [List.mem_singleton.mp ht', h.id] at hload
  have hid := WorkStore.loadTask_id hload
  rw [← hid] at hload
  exact absurd hid (minted.fresh (.inl (WorkStore.mem_allTasks.mpr hload)))

/-- After an operation has read the store, with none in flight before, there is nothing to write
or a batch which keeps what is finished. -/
theorem pending_reading
    (minted : Minted w) (free : w.pending = []) {a : Act} (reading : Reading a) :
  (machine.next w a).pending = []
    ∨ ∃ batch, (machine.next w a).pending = [batch]
        ∧ KeepsOutcome (machine.next w a).store batch
  := by
  have hdoes := w.does a
  generalize machine.next w a = w' at hdoes
  cases hdoes with
  | idle plans =>
    left
    apply free
  | @created args now t h =>
    right
    use single t
    constructor
    · simp [start, free]
    · apply keepsOutcome_of_created minted h
  | @reads _ batch h =>
    right
    use batch
    constructor
    · simp [start, free]
    · apply keepsOutcome_of_reads h
  | saves h => cases reading
  | fails i => cases reading
  | deletes id => cases reading

/-- Operations whose reading and writing no other step separates leave finished work as it is:
the task an operation moves is unfinished, and no task has the id of a new one. -/
theorem savesOutcome_atOnce
    (minted : Minted w) (free : w.pending = []) {as : List Act} (reading : ∀ a ∈ as, Reading a) :
  machine.Along SavesOutcome w (as.flatMap atOnce)
  := by
  induction as generalizing w with
  | nil => trivial
  | cons a as ih =>
    rw [List.forall_mem_cons] at reading
    have hpending := pending_reading minted free reading.1
    have minted' := (minted.next a).next (.save 0)
    rw [List.flatMap_cons, atOnce]
    and_intros
    · cases a with
      | save i => cases reading.1
      | _ => trivial
    · intro batch hbatch
      obtain hnone | ⟨b, hb, keeps⟩ := hpending
      · rw [hnone] at hbatch
        cases hbatch
      · rw [hb] at hbatch
        cases hbatch
        apply keeps
    · apply ih minted' _ reading.2
      change (saveStep (machine.next w a) 0).pending = []
      obtain hnone | ⟨b, hb, -⟩ := hpending
      · simp [saveStep, hnone]
      · simp [saveStep, hb, finish]

/-! ### Runs -/

/-- A task is created and completed by a merge while an update of it, which loaded it before, is
in flight. -/
def lateReport : List Act :=
  [.create ⟨"requester", "title", "", none, none, none, [.url "link"]⟩ 0, .save 0,
    .update ⟨"agent", ⟨0⟩, "underway", none, none, []⟩ 1,
    .completeLinkedTo (.url "link") .lazybox 2, .save 1, .save 0]

/-- The report of an agent that loaded the task before it was completed reopens it, and its
result is lost. -/
theorem lateReport_reopens :
  let done := (machine.final empty (lateReport.take 5)).store.loadTask ⟨0⟩
  let reopened := (machine.final empty lateReport).store.loadTask ⟨0⟩
  done.map Task.lifecycle = some .completed ∧ reopened.map Task.lifecycle = some .underway
    ∧ reopened.map Task.result = some none
  := by
  decide +kernel

end Server

end Lazybox.Work
