import Lazybox.Work.Store

/-!
# Completing and sweeping

A link that landed completes the tasks linked to it, an agent that exits fails what its workspace
has under way, and the sweep fails what is stranded.  Each of these reads the store, moves its own
copies, and has the copies that moved written as one batch.

A run moves the tasks that match, each by one entry of its history, and nothing else in the store.
The tasks it moved are finished, and finished work matches nothing, so that a run which comes right
after it finds nothing to move.
-/

namespace Lazybox.Work

/-- An operation that moves several tasks. -/
inductive Sweep where
  | completeLinkedTo (link : Link) (by' : Party) (now : Instant)
  | failUnderwayForExit (workspace : String) (by' : Party) (now : Instant)
  | sweepStranded (now grace : Instant) (hasLiveAgent : String → Bool)

/-- What goes wrong with the store during a run. -/
structure Faults where
  read : Option String
  write : Option String

namespace Sweep

/-- The tasks a run reads. -/
def reads (s : WorkStore) : Sweep → List Task
  | completeLinkedTo _ _ _ | sweepStranded _ _ _ => s.allTasks
  | failUnderwayForExit workspace _ _ => s.tasksOwnedBy workspace

/-- What becomes of a task that was read, if it moves. -/
def move (t : Task) : Sweep → Option Task
  | completeLinkedTo link by' now => completeLinked link by' now t
  | failUnderwayForExit _ by' now => t.failFromAgentExit by' now
  | sweepStranded now grace hasLiveAgent =>
      if WorkStore.isStranded t now grace hasLiveAgent then t.failFromAgentExit .lazybox now
      else none

/-- The tasks a run has to write. -/
def batch (s : WorkStore) : Sweep → Batch
  | completeLinkedTo link by' now => s.completeLinkedTo link by' now
  | failUnderwayForExit workspace by' now => s.failUnderwayForExit workspace by' now
  | sweepStranded now grace hasLiveAgent => s.sweepStranded now grace hasLiveAgent

/-- The ids of the tasks that moved, and the store after the run.  Nothing is written when nothing
moved, and a write that fails writes nothing. -/
def run (sweep : Sweep) (faults : Faults) (s : WorkStore) :
    Except String (List WorkId) × WorkStore :=
  match faults.read with
  | some error => (.error error, s)
  | none =>
      let moved := movedIds (fun t => sweep.move t) (sweep.reads s)
      if moved.isEmpty then (.ok moved, s)
      else
        match faults.write with
        | some error => (.error error, s)
        | none => (.ok moved, s.saveTasks (sweep.batch s).tasks)

/-- The tasks an operation is to move. -/
def Matches (t : Task) : Sweep → Prop
  | completeLinkedTo link _ _ => link ∈ t.links ∧ t.lifecycle.isTerminal = false
  | failUnderwayForExit workspace _ _ =>
      t.lifecycle = .underway ∧ ∃ session, t.owner = some (.agent workspace session)
  | sweepStranded now grace hasLiveAgent =>
      t.lifecycle = .underway
        ∧ ∃ workspace session, t.owner = some (.agent workspace session)
          ∧ hasLiveAgent workspace = false
          ∧ ∃ last, t.history.getLast? = some last ∧ grace < now - last.instant

/-- A task is moved: it is finished now, and that is entered in its history.  The rest of it stays
as it was. -/
structure FinishedBy (t t' : Task) : Prop where
  open' : t.lifecycle.isTerminal = false
  terminal : t'.lifecycle.isTerminal = true
  entered : ∃ event, t' = { t with
    lifecycle := t'.lifecycle, result := t'.result, history := t.history ++ [event] }

end Sweep

/-! ### The moves -/

section Moves

variable {t t' : Task} {by' : Party} {now : Instant}

theorem Task.ownerWorkspace_eq_some {workspace : String} :
  t.ownerWorkspace = some workspace ↔ ∃ session, t.owner = some (.agent workspace session)
  := by
  rw [ownerWorkspace]
  split
  · next owner session howner => simp [howner]
  · next hnot =>
      constructor
      · intro h
        cases h
      · rintro ⟨session, howner⟩
        exact absurd howner (hnot workspace session)

theorem isStranded_iff {grace : Instant} {hasLiveAgent : String → Bool} :
  WorkStore.isStranded t now grace hasLiveAgent = true
    ↔ (Sweep.sweepStranded now grace hasLiveAgent).Matches t
  := by
  rw [WorkStore.isStranded, Sweep.Matches]
  by_cases hunderway : t.lifecycle = .underway
  · rw [if_neg (not_not.mpr hunderway)]
    cases hworkspace : t.ownerWorkspace with
    | none =>
      constructor
      · intro h
        cases h
      · rintro ⟨-, workspace, session, howner, -⟩
        rw [Task.ownerWorkspace_eq_some.mpr ⟨session, howner⟩] at hworkspace
        cases hworkspace
    | some workspace =>
      obtain ⟨session, howner⟩ := Task.ownerWorkspace_eq_some.mp hworkspace
      cases hlive : hasLiveAgent workspace with
      | true => simp [howner, hlive]
      | false =>
        cases hlast : t.history.getLast? with
        | none => simp [hlive]
        | some last => simp [howner, hunderway, hlive]
  · simp [hunderway]

/-- What the moves have in common: they finish a task that is open. -/
theorem finishedBy_of_failFromAgentExit (h : t.failFromAgentExit by' now = some t') :
  Sweep.FinishedBy t t'
  := by
  rw [Task.failFromAgentExit] at h
  split at h
  · cases h
  · next hunderway =>
      rw [not_not] at hunderway
      cases h
      exact ⟨by rw [hunderway]; rfl, rfl, _, rfl⟩

theorem finishedBy_of_completeLinked {link : Link} (h : completeLinked link by' now t = some t') :
  Sweep.FinishedBy t t'
  := by
  rw [completeLinked] at h
  split at h
  · cases h
  · next hopen =>
      have hopen : t.lifecycle.isTerminal = false := by
        rw [Bool.or_eq_true, not_or] at hopen
        simpa using hopen.2
      dsimp only at h
      rw [Task.complete, Task.transition, if_neg (by simp [hopen])] at h
      cases h
      exact ⟨hopen, rfl, _, rfl⟩

end Moves

namespace Sweep

variable {sweep : Sweep} {s : WorkStore} {t t' : Task}

theorem finishedBy_of_move (h : sweep.move t = some t') :
  FinishedBy t t'
  := by
  cases sweep with
  | completeLinkedTo link by' now => apply finishedBy_of_completeLinked h
  | failUnderwayForExit workspace by' now => apply finishedBy_of_failFromAgentExit h
  | sweepStranded now grace hasLiveAgent =>
    rw [move] at h
    split at h
    · apply finishedBy_of_failFromAgentExit h
    · cases h

theorem isSome_failFromAgentExit {by' : Party} {now : Instant} :
  (t.failFromAgentExit by' now).isSome ↔ t.lifecycle = .underway
  := by
  rw [Task.failFromAgentExit]
  split_ifs with hunderway
  · simp [hunderway]
  · simpa using hunderway

theorem isSome_completeLinked {link : Link} {by' : Party} {now : Instant} :
  (completeLinked link by' now t).isSome ↔ link ∈ t.links ∧ t.lifecycle.isTerminal = false
  := by
  rw [completeLinked, Task.linksTo]
  split_ifs with hnot
  · simp only [Bool.or_eq_true, Bool.not_eq_true', List.contains_eq_mem, decide_eq_false_iff_not]
      at hnot
    simp
    tauto
  · simp only [Bool.or_eq_true, not_or, Bool.not_eq_true', List.contains_eq_mem,
      Bool.not_eq_false, decide_eq_true_eq, Bool.not_eq_true] at hnot
    simp [hnot, Task.complete, Task.transition, Except.map, Except.toOption]

/-- A run moves the tasks that match. -/
theorem mem_reads_and_moves :
  t ∈ sweep.reads s ∧ (sweep.move t).isSome ↔ s.loadTask t.id = some t ∧ sweep.Matches t
  := by
  rw [← WorkStore.mem_allTasks]
  cases sweep with
  | completeLinkedTo link by' now =>
    rw [reads, move, Matches, isSome_completeLinked]
  | failUnderwayForExit workspace by' now =>
    rw [reads, move, Matches, isSome_failFromAgentExit, WorkStore.tasksOwnedBy, List.mem_filter,
      decide_eq_true_iff, Task.ownerWorkspace_eq_some]
    tauto
  | sweepStranded now grace hasLiveAgent =>
    rw [reads, move, ← isStranded_iff]
    split_ifs with hstranded
    · have hmatches := isStranded_iff.mp hstranded
      rw [isSome_failFromAgentExit]
      exact ⟨fun h => ⟨h.1, hstranded⟩, fun h => ⟨h.1, hmatches.1⟩⟩
    · simp [hstranded]

/-! ### A run -/

theorem distinct_reads (sweep : Sweep) (s : WorkStore) :
  ((sweep.reads s).map Task.id).Nodup
  := by
  cases sweep with
  | completeLinkedTo _ _ _ | sweepStranded _ _ _ => apply s.distinct_allTasks
  | failUnderwayForExit workspace by' now =>
    apply s.distinct_allTasks.sublist (List.filter_sublist.map _)

theorem moved_of_move (h : sweep.move t = some t') :
  Moved t t'
  := by
  obtain ⟨hopen, -, event, hentered⟩ := finishedBy_of_move h
  rw [hentered]
  exact ⟨⟨rfl, rfl, rfl⟩, hopen⟩

theorem mem_batch :
  t' ∈ (sweep.batch s).tasks ↔ ∃ t ∈ sweep.reads s, sweep.move t = some t'
  := by
  have hchanged : (sweep.batch s).tasks = changed (fun t => sweep.move t) (sweep.reads s) := by
    cases sweep with
    | completeLinkedTo _ _ _ | failUnderwayForExit _ _ _ | sweepStranded _ _ _ => rfl
  rw [hchanged]
  apply mem_changed _ (sweep.distinct_reads s)
  intro t t' h
  apply moved_of_move h

theorem mem_movedIds {id : WorkId} :
  id ∈ movedIds (fun t => sweep.move t) (sweep.reads s)
    ↔ ∃ t, s.loadTask id = some t ∧ sweep.Matches t
  := by
  rw [movedIds, List.mem_map]
  simp only [List.mem_filter, mem_reads_and_moves]
  constructor
  · rintro ⟨t, ⟨hload, hmatches⟩, rfl⟩
    use t
  · rintro ⟨t, hload, hmatches⟩
    obtain rfl := WorkStore.loadTask_id hload
    use t

/-- The tasks to write are those of the ids that moved. -/
theorem mem_map_batch {id : WorkId} :
  id ∈ (sweep.batch s).tasks.map Task.id
    ↔ id ∈ movedIds (fun t => sweep.move t) (sweep.reads s)
  := by
  simp only [movedIds, List.mem_map, List.mem_filter, mem_batch]
  constructor
  · rintro ⟨t', ⟨t, ht, hmove⟩, rfl⟩
    use t, ⟨ht, by rw [hmove]; rfl⟩
    rw [(moved_of_move hmove).same.id]
  · rintro ⟨t, ⟨ht, hmoves⟩, rfl⟩
    obtain ⟨t', hmove⟩ := Option.isSome_iff_exists.mp hmoves
    use t', ⟨t, ht, hmove⟩
    apply (moved_of_move hmove).same.id

/-- A run that goes well has moved the tasks that match, and has written them. -/
theorem of_run_eq_ok {faults : Faults} {moved : List WorkId}
    (h : (sweep.run faults s).1 = .ok moved) :
  moved = movedIds (fun t => sweep.move t) (sweep.reads s)
    ∧ (sweep.run faults s).2 = s.saveTasks (sweep.batch s).tasks
  := by
  rw [run] at h ⊢
  cases hread : faults.read with
  | some error =>
    rw [hread] at h
    cases h
  | none =>
    rw [hread] at h
    dsimp only at h ⊢
    split at h
    · next hempty =>
        rw [if_pos hempty]
        cases h
        have hbatch : (sweep.batch s).tasks = [] := by
          rw [List.eq_nil_iff_forall_not_mem]
          intro t' ht'
          have hmem := mem_map_batch.mp (List.mem_map_of_mem ht')
          rw [List.isEmpty_iff.mp hempty] at hmem
          cases hmem
        rw [hbatch]
        exact ⟨rfl, rfl⟩
    · next hnonempty =>
        rw [if_neg hnonempty]
        cases hwrite : faults.write with
        | some error =>
          rw [hwrite] at h
          cases h
        | none =>
          rw [hwrite] at h
          cases h
          exact ⟨rfl, rfl⟩

theorem run_of_error {faults : Faults} {error : String}
    (h : (sweep.run faults s).1 = .error error) :
  (sweep.run faults s).2 = s
  := by
  rw [run] at h ⊢
  cases hread : faults.read with
  | some error => rfl
  | none =>
    rw [hread] at h
    dsimp only at h ⊢
    split at h
    · cases h
    · next hnonempty =>
        rw [if_neg hnonempty]
        cases hwrite : faults.write with
        | some error => rfl
        | none =>
          rw [hwrite] at h
          cases h

/-- What a run does to the store. -/
structure Swept (sweep : Sweep) (s s' : WorkStore) (moved : List WorkId) : Prop where
  once : moved.Nodup
  matching : ∀ id, id ∈ moved ↔ ∃ t, s.loadTask id = some t ∧ sweep.Matches t
  finished : ∀ id ∈ moved,
    ∃ t t', s.loadTask id = some t ∧ s'.loadTask id = some t' ∧ FinishedBy t t'
  others : ∀ id, id ∉ moved → Keyed.lookup Prod.fst id s'.rows = Keyed.lookup Prod.fst id s.rows

theorem not_matches_of_terminal (h : t.lifecycle.isTerminal = true) :
  ¬ sweep.Matches t
  := by
  intro hmatches
  cases sweep with
  | completeLinkedTo link by' now =>
    rw [Matches, h] at hmatches
    cases hmatches.2
  | failUnderwayForExit workspace by' now =>
    rw [hmatches.1] at h
    cases h
  | sweepStranded now grace hasLiveAgent =>
    rw [hmatches.1] at h
    cases h

theorem swept (sweep : Sweep) (s : WorkStore) :
  sweep.Swept s (s.saveTasks (sweep.batch s).tasks)
    (movedIds (fun t => sweep.move t) (sweep.reads s))
  := by
  constructor
  · apply (sweep.distinct_reads s).sublist (List.filter_sublist.map _)
  · intro id
    apply mem_movedIds
  · intro id hid
    obtain ⟨t', ht', rfl⟩ := List.mem_map.mp (mem_map_batch.mpr hid)
    obtain ⟨t, ht, hmove⟩ := mem_batch.mp ht'
    have hread := (@mem_reads_and_moves sweep s t).mp ⟨ht, by rw [hmove]; rfl⟩
    use t, t'
    constructor
    · rw [(moved_of_move hmove).same.id]
      apply hread.1
    · constructor
      · rw [WorkStore.loadTask_saveTasks,
          (Keyed.lookup_eq_some_iff (sweep.batch s).distinct).mpr ⟨ht', rfl⟩]
        rfl
      · apply finishedBy_of_move hmove
  · intro id hid
    apply WorkStore.lookup_saveTasks
    rw [mem_map_batch]
    apply hid

/-- After a run, nothing matches any more. -/
theorem Swept.matches_nothing {s' : WorkStore} {moved : List WorkId}
    (h : sweep.Swept s s' moved) (hload : s'.loadTask t.id = some t) :
  ¬ sweep.Matches t
  := by
  intro hmatches
  by_cases hid : t.id ∈ moved
  · obtain ⟨_, t', -, hload', hfinished⟩ := h.finished t.id hid
    rw [hload] at hload'
    cases hload'
    apply not_matches_of_terminal hfinished.terminal hmatches
  · apply hid
    rw [h.matching]
    use t
    constructor
    · rw [WorkStore.loadTask, ← h.others t.id hid]
      apply hload
    · apply hmatches

theorem run_of_matches_nothing
    (h : ∀ t, s.loadTask t.id = some t → ¬ sweep.Matches t) (faults : Faults) :
  (sweep.run faults s).2 = s ∧ ∀ moved, (sweep.run faults s).1 = .ok moved → moved = []
  := by
  have hnone : movedIds (fun t => sweep.move t) (sweep.reads s) = [] := by
    rw [List.eq_nil_iff_forall_not_mem]
    intro id hid
    obtain ⟨t, hload, hmatches⟩ := mem_movedIds.mp hid
    obtain rfl := WorkStore.loadTask_id hload
    apply h t hload hmatches
  constructor
  · rw [run, hnone]
    cases faults.read with
    | some error => rfl
    | none => rfl
  · intro moved hmoved
    rw [(of_run_eq_ok hmoved).1, hnone]

/-- For every store, a run that fails leaves it as it was; a run that goes well moves each task that
matches, by one entry of its history, and leaves every other row as it was; and whatever goes wrong
with a run right after that one, it moves nothing. -/
theorem run_precise (sweep : Sweep) (faults : Faults) (s : WorkStore) :
  (∀ error, (sweep.run faults s).1 = .error error → (sweep.run faults s).2 = s)
    ∧ ∀ moved, (sweep.run faults s).1 = .ok moved →
        sweep.Swept s (sweep.run faults s).2 moved
          ∧ ∀ faults', (sweep.run faults' (sweep.run faults s).2).2 = (sweep.run faults s).2
              ∧ ∀ moved', (sweep.run faults' (sweep.run faults s).2).1 = .ok moved' → moved' = []
  := by
  constructor
  · intro error h
    apply run_of_error h
  · intro moved h
    obtain ⟨rfl, hstore⟩ := of_run_eq_ok h
    have hswept := sweep.swept s
    rw [← hstore] at hswept
    constructor
    · apply hswept
    · apply run_of_matches_nothing
      intro t hload
      apply hswept.matches_nothing hload

end Sweep

end Lazybox.Work
