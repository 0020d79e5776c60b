import Lazybox.Polling.Ops

/-!
# Nothing is sent that the ledger does not know was sent

At the moment a write is dispatched the stored ledger should hold its operation in phase `sent`.
The coordinator does not look at the outcome of recording that: a commit that fails, an operation
that was superseded meanwhile, or an entity that left the workspace all let the write through.
And between the record and the dispatch the ledger can be moved on by somebody else.

`Guarded` excludes these steps and no others.  Along runs of guarded steps every dispatch is
known to the stored ledger, an operation that left the ledger is never dispatched, and an
operation stored as accepted was never dispatched.
-/

namespace Lazybox

namespace Daemon

/-- The drive a step is of. -/
def Act.drive? : Act → Option ℕ
  | .take i _ | .build i _ _ _ | .mark i _ | .dispatch i | .answer i _ _ _
  | .refetched i _ _ _ => some i
  | .request _ _ _ _ | .cancel _ _ _ _ | .recover _ _ _ | .observe _ _ _ | .detach _
  | .crash => none

/-- Where the drive at a place stands. -/
def stageAt (d : Daemon) (i : ℕ) : Option Stage := (d.drives[i]?).map Drive.stage

/-- The operation a step records as sent. -/
def marking? (d : Daemon) : Act → Option PendingMutation
  | .mark i _ =>
      match d.stageAt i with
      | some (.built op) => some op
      | _ => none
  | .request _ _ _ _ | .cancel _ _ _ _ | .recover _ _ _ | .observe _ _ _ | .detach _ | .take _ _
  | .build _ _ _ _ | .dispatch _ | .answer _ _ _ _ | .refetched _ _ _ _ | .crash => none

/-- Whether the transition of a step is stored. -/
def Act.stored : Act → Bool
  | .request _ _ _ stored | .cancel _ _ _ stored | .recover _ _ stored | .observe _ _ stored
  | .build _ _ _ stored | .mark _ stored | .answer _ _ _ stored | .refetched _ _ _ stored => stored
  | .detach _ | .take _ _ | .dispatch _ | .crash => false

/-- The action a transition stores in the ledger. -/
def storedEvent (d : Daemon) (task : TaskId) (event : OpEvent) (stored : Bool) :
    Option Board.Act :=
  if stored && d.held task then some (.event task event) else none

/-- The action a step stores in the ledger. -/
def ledgerAct (d : Daemon) : Act → Option Board.Act
  | .request task desired now stored =>
      if desired.claimed = ∅ then none
      else d.storedEvent task (.requested task desired now) stored
  | .cancel task fields now stored => d.storedEvent task (.cancelled task fields now) stored
  | .recover now found stored => if found && stored then some (.recovered now) else none
  | .observe task now stored => if stored then some (.observed task now) else none
  | .build i failure now stored =>
      match d.stageAt i, failure with
      | some (.loaded op), some detail =>
          d.storedEvent op.task (.failed op.id .rejected detail now) stored
      | _, _ => none
  | .mark i stored =>
      match d.stageAt i with
      | some (.built op) => d.storedEvent op.task (.sent op.id) stored
      | _ => none
  | .answer i error now stored =>
      match d.stageAt i, error with
      | some (.inFlight _ (_ :: _)), none => none
      | some (.inFlight op _), error => d.storedEvent op.task (answerEvent op error now) stored
      | _, _ => none
  | .refetched i task now stored =>
      match d.stageAt i, task with
      | some (.refetching _), some task => if stored then some (.observed task now) else none
      | _, _ => none
  | .detach _ | .crash | .take _ _ | .dispatch _ => none

/-- The board after an action, if there is one. -/
def boardAfter (b : Board) : Option Board.Act → Board
  | none => b
  | some a => Board.machine.next b a

/-- The effects are those of the action the step stores in the ledger. -/
def Told (d : Daemon) (a : Act) (effects : List OpEffect) : Prop :=
  effects = [] ∨ ∃ t event, d.ledgerAct a = some (.event t event)
    ∧ effects = (d.board.step (.event t event)).2

/-- How a drive moves from stage to stage, and what is seen of it. -/
inductive StageStep (d : Daemon) (a : Act) : Stage → Stage → List Obs → Prop
  | ended (s : Stage) : StageStep d a s .idle []
  | told (s : Stage) {effects : List OpEffect} (h : Told d a effects) :
      StageStep d a s .idle [.transition effects]
  | refetches (s : Stage) (task : TaskId) : StageStep d a s (.refetching task) []
  | loads (s : Stage) {op : PendingMutation} (quiet : d.ledgerAct a = none)
      (h : op ∈ d.board.ops.pending) : StageStep d a s (.loaded op) []
  | builds (op : PendingMutation) : StageStep d a (.loaded op) (.built op) []
  | marks {op : PendingMutation} {effects : List OpEffect} {i : ℕ} {stored : Bool}
      (ha : a = .mark i stored) (hi : d.stageAt i = some (.built op)) (h : Told d a effects) :
      StageStep d a (.built op) (.marked op op.desired.writes) [.transition effects]
  | passes {op : PendingMutation} (quiet : d.ledgerAct a = none) :
      StageStep d a (.marked op []) (.inFlight op []) []
  | dispatches {op : PendingMutation} {field : MutationField} {left : List MutationField}
      (quiet : d.ledgerAct a = none) :
      StageStep d a (.marked op (field :: left)) (.inFlight op left)
        [.dispatched op field d.board.ops]
  | answered {op : PendingMutation} {field : MutationField} {left : List MutationField}
      (quiet : d.ledgerAct a = none) :
      StageStep d a (.inFlight op (field :: left)) (.marked op (field :: left)) []

/-- What a step can do: to the drives, and what is seen of it. -/
inductive Stepped (d : Daemon) (a : Act) : List Drive → List Obs → Prop
  | kept (quiet : a.drive? = none ∨ d.ledgerAct a = none) : Stepped d a d.drives []
  | crashed : Stepped d a [] []
  | started {queue : List OpEffect} {os : List Obs} (other : a.drive? = none)
      (h : ∀ o ∈ os, ∃ effects, Told d a effects ∧ o = .transition effects) :
      Stepped d a (d.drives ++ [⟨queue, .idle⟩]) os
  | drove {i : ℕ} {drive drive' : Drive} {os : List Obs} (mine : a.drive? = some i)
      (hi : d.drives[i]? = some drive) (h : StageStep d a drive.stage drive'.stage os) :
      Stepped d a (d.drives.set i drive') os

theorem transition_board (d : Daemon) (task : TaskId) (event : OpEvent) (stored : Bool) :
  (d.transition task event stored).1 = boardAfter d.board (d.storedEvent task event stored)
  := by
  rw [transition, storedEvent]
  split_ifs <;> rfl

variable {a : Act} {d : Daemon}

variable {event : OpEvent}

/-- The effects of a transition, when it is what the step stores. -/
theorem transition_told
    {task : TaskId} {stored : Bool} (h : d.ledgerAct a = d.storedEvent task event stored) :
  Told d a (d.transition task event stored).2
  := by
  rw [transition]
  split_ifs with hstored
  · right
    use task, event
    rw [h, storedEvent, if_pos hstored]
    exact ⟨rfl, rfl⟩
  · left
    rfl

theorem startDrive_stepped {task : TaskId} {stored : Bool}
    (h : d.ledgerAct a = d.storedEvent task event stored) (other : a.drive? = none) :
  (d.startDrive task event stored).1.board = boardAfter d.board (d.ledgerAct a)
    ∧ Stepped d a (d.startDrive task event stored).1.drives (d.startDrive task event stored).2
  := by
  constructor
  · rw [h]
    apply transition_board
  · apply Stepped.started other
    intro o ho
    rw [List.mem_singleton.mp ho]
    exact ⟨_, transition_told h, rfl⟩

variable {drive : Drive}

/-- Taking an effect reads the ledger and moves the drive. -/
theorem takeEffect_stepped (d : Daemon) (i : ℕ) (hi : d.drives[i]? = some drive) (effect : OpEffect)
    (rest : List OpEffect) (found : Bool) :
  (d.takeEffect i effect rest found).board = d.board
    ∧ Stepped d (.take i found) (d.takeEffect i effect rest found).drives []
  := by
  have hidle : Stepped d (.take i found) (d.drives.set i ⟨rest, .idle⟩) [] :=
    .drove rfl hi (.ended _)
  have hget {id : OperationId} {op : PendingMutation} (h : d.board.ops.get id = some op) :
      op ∈ d.board.ops.pending := (Keyed.lookup_eq_some h).1
  cases effect with
  | send id =>
    cases found with
    | false => exact ⟨rfl, hidle⟩
    | true =>
      simp only [takeEffect]
      cases hop : d.board.ops.get id with
      | none => exact ⟨rfl, hidle⟩
      | some op => exact ⟨rfl, .drove rfl hi (.loads _ rfl (hget hop))⟩
  | retry id notBefore =>
    cases found with
    | false => exact ⟨rfl, hidle⟩
    | true =>
      simp only [takeEffect]
      cases hop : d.board.ops.get id with
      | none => exact ⟨rfl, hidle⟩
      | some op => exact ⟨rfl, .drove rfl hi (.loads _ rfl (hget hop))⟩
  | reconcile id =>
    cases found with
    | false => exact ⟨rfl, hidle⟩
    | true =>
      simp only [takeEffect]
      cases hop : d.board.ops.get id with
      | none => exact ⟨rfl, hidle⟩
      | some op => exact ⟨rfl, .drove rfl hi (.refetches _ op.task)⟩
  | report id message => exact ⟨rfl, hidle⟩
  | settled id => exact ⟨rfl, hidle⟩

/-- A step of a drive which stands elsewhere does nothing. -/
theorem stays (quiet : d.ledgerAct a = none) :
  d.board = boardAfter d.board (d.ledgerAct a) ∧ Stepped d a d.drives []
  := by
  rw [quiet]
  exact ⟨rfl, .kept (.inr quiet)⟩

variable {drive' : Drive}

/-- A step of a drive which stores nothing. -/
theorem moves_quietly
    {i : ℕ} {os : List Obs} (mine : a.drive? = some i) (hi : d.drives[i]? = some drive)
    (quiet : d.ledgerAct a = none) (h : StageStep d a drive.stage drive'.stage os) :
  d.board = boardAfter d.board (d.ledgerAct a) ∧ Stepped d a (d.drives.set i drive') os
  := by
  constructor
  · rw [quiet]
    rfl
  · apply Stepped.drove mine hi h

/-- A step of a drive which stores an event. -/
theorem moves_storing {i : ℕ} {task : TaskId} {stored : Bool} (mine : a.drive? = some i)
    (hi : d.drives[i]? = some drive) (hact : d.ledgerAct a = d.storedEvent task event stored)
    (h : StageStep d a drive.stage drive'.stage [.transition (d.transition task event stored).2]) :
  (d.transition task event stored).1 = boardAfter d.board (d.ledgerAct a)
    ∧ Stepped d a (d.drives.set i drive') [.transition (d.transition task event stored).2]
  := by
  constructor
  · rw [hact]
    apply transition_board
  · apply Stepped.drove mine hi h

section DriveStep

variable {d : Daemon} {i : ℕ} {drive : Drive}

theorem stageAt_drive (hi : d.drives[i]? = some drive) :
  d.stageAt i = some drive.stage
  := by
  rw [stageAt, hi, Option.map_some]

theorem take_stepped (hi : d.drives[i]? = some drive) (found : Bool) :
  (d.driveStep i drive (.take i found)).1.board
      = boardAfter d.board (d.ledgerAct (.take i found))
    ∧ Stepped d (.take i found) (d.driveStep i drive (.take i found)).1.drives
      (d.driveStep i drive (.take i found)).2
  := by
  obtain ⟨queue, stage⟩ := drive
  cases stage with
  | idle =>
    cases queue with
    | nil => exact stays (d := d) rfl
    | cons effect rest => apply takeEffect_stepped d i hi
  | loaded | built | marked | inFlight | refetching => exact stays (d := d) rfl

theorem build_stepped
    (hi : d.drives[i]? = some drive) (failure : Option String) (now : Instant) (stored : Bool) :
  (d.driveStep i drive (.build i failure now stored)).1.board
      = boardAfter d.board (d.ledgerAct (.build i failure now stored))
    ∧ Stepped d (.build i failure now stored)
      (d.driveStep i drive (.build i failure now stored)).1.drives
      (d.driveStep i drive (.build i failure now stored)).2
  := by
  have hstage := stageAt_drive hi
  obtain ⟨queue, stage⟩ := drive
  dsimp only at hstage
  cases stage with
  | loaded op =>
    cases failure with
    | none =>
      apply moves_quietly rfl hi _ (.builds op)
      simp only [ledgerAct, hstage]
    | some detail =>
      have hact : d.ledgerAct (.build i (some detail) now stored)
          = d.storedEvent op.task (.failed op.id .rejected detail now) stored := by
        simp only [ledgerAct, hstage]
      exact moves_storing rfl hi hact (.told _ (transition_told hact))
  | idle | built | marked | inFlight | refetching =>
    exact stays (d := d) (by simp only [ledgerAct, hstage])

theorem mark_stepped (hi : d.drives[i]? = some drive) (stored : Bool) :
  (d.driveStep i drive (.mark i stored)).1.board
      = boardAfter d.board (d.ledgerAct (.mark i stored))
    ∧ Stepped d (.mark i stored) (d.driveStep i drive (.mark i stored)).1.drives
      (d.driveStep i drive (.mark i stored)).2
  := by
  have hstage := stageAt_drive hi
  obtain ⟨queue, stage⟩ := drive
  dsimp only at hstage
  cases stage with
  | built op =>
    have hact : d.ledgerAct (.mark i stored) = d.storedEvent op.task (.sent op.id) stored := by
      simp only [ledgerAct, hstage]
    exact moves_storing rfl hi hact (.marks rfl hstage (transition_told hact))
  | idle | loaded | marked | inFlight | refetching =>
    exact stays (d := d) (by simp only [ledgerAct, hstage])

theorem dispatch_stepped (hi : d.drives[i]? = some drive) :
  (d.driveStep i drive (.dispatch i)).1.board = boardAfter d.board (d.ledgerAct (.dispatch i))
    ∧ Stepped d (.dispatch i) (d.driveStep i drive (.dispatch i)).1.drives
      (d.driveStep i drive (.dispatch i)).2
  := by
  obtain ⟨queue, stage⟩ := drive
  cases stage with
  | marked op left =>
    cases left with
    | nil => exact moves_quietly rfl hi rfl (.passes rfl)
    | cons field left => exact moves_quietly rfl hi rfl (.dispatches rfl)
  | idle | loaded | built | inFlight | refetching => exact stays (d := d) rfl

theorem answer_stepped (hi : d.drives[i]? = some drive) (error : Option (Bool × String))
    (now : Instant) (stored : Bool) :
  (d.driveStep i drive (.answer i error now stored)).1.board
      = boardAfter d.board (d.ledgerAct (.answer i error now stored))
    ∧ Stepped d (.answer i error now stored)
      (d.driveStep i drive (.answer i error now stored)).1.drives
      (d.driveStep i drive (.answer i error now stored)).2
  := by
  have hstage := stageAt_drive hi
  obtain ⟨queue, stage⟩ := drive
  dsimp only at hstage
  cases stage with
  | inFlight op left =>
    cases left with
    | nil =>
      have hact : d.ledgerAct (.answer i error now stored)
          = d.storedEvent op.task (answerEvent op error now) stored := by
        cases error <;> simp only [ledgerAct, hstage]
      exact moves_storing rfl hi hact (.told _ (transition_told hact))
    | cons field left =>
      cases error with
      | none =>
        have hact : d.ledgerAct (.answer i none now stored) = none := by
          simp only [ledgerAct, hstage]
        exact moves_quietly rfl hi hact (.answered hact)
      | some error =>
        have hact : d.ledgerAct (.answer i (some error) now stored)
            = d.storedEvent op.task (answerEvent op (some error) now) stored := by
          simp only [ledgerAct, hstage]
        exact moves_storing rfl hi hact (.told _ (transition_told hact))
  | idle | loaded | built | marked | refetching =>
    exact stays (d := d) (by simp only [ledgerAct, hstage])

theorem refetched_stepped
    (hi : d.drives[i]? = some drive) (task : Option Task) (now : Instant) (stored : Bool) :
  (d.driveStep i drive (.refetched i task now stored)).1.board
      = boardAfter d.board (d.ledgerAct (.refetched i task now stored))
    ∧ Stepped d (.refetched i task now stored)
      (d.driveStep i drive (.refetched i task now stored)).1.drives
      (d.driveStep i drive (.refetched i task now stored)).2
  := by
  have hstage := stageAt_drive hi
  obtain ⟨queue, stage⟩ := drive
  dsimp only at hstage
  cases stage with
  | refetching t =>
    cases task with
    | none =>
      apply moves_quietly rfl hi _ (.ended _)
      simp only [ledgerAct, hstage]
    | some task =>
      have hdrives : (d.driveStep i ⟨queue, .refetching t⟩
          (.refetched i (some task) now stored)).1.drives
          = d.drives.set i ⟨queue, .idle⟩ := by
        cases stored <;> rfl
      constructor
      · simp only [ledgerAct, hstage]
        cases stored <;> rfl
      · rw [hdrives]
        exact .drove rfl hi (.ended _)
  | idle | loaded | built | marked | inFlight =>
    exact stays (d := d) (by simp only [ledgerAct, hstage])

/-- What a step of a drive can do. -/
theorem driveStep_stepped {a : Act} (hi : d.drives[i]? = some drive) (mine : a.drive? = some i) :
  (d.driveStep i drive a).1.board = boardAfter d.board (d.ledgerAct a)
    ∧ Stepped d a (d.driveStep i drive a).1.drives (d.driveStep i drive a).2
  := by
  cases a with
  | take _ found =>
    cases mine
    exact take_stepped hi found
  | build _ failure now stored =>
    cases mine
    exact build_stepped hi failure now stored
  | mark _ stored =>
    cases mine
    exact mark_stepped hi stored
  | dispatch =>
    cases mine
    exact dispatch_stepped hi
  | answer _ error now stored =>
    cases mine
    exact answer_stepped hi error now stored
  | refetched _ task now stored =>
    cases mine
    exact refetched_stepped hi task now stored
  | request | cancel | recover | observe | detach | crash => cases mine

end DriveStep

/-- A step of a drive that is not there does nothing. -/
theorem step_of_none {i : ℕ} (mine : a.drive? = some i) (hi : d.drives[i]? = none) :
  d.step a = (d, []) ∧ d.ledgerAct a = none
  := by
  cases a with
  | request | cancel | recover | observe | detach | crash => cases mine
  | take | build | mark | dispatch | answer | refetched =>
    cases mine
    simp only [step, ledgerAct, stageAt, hi, Option.map_none, and_self]

theorem step_of_some {i : ℕ} (mine : a.drive? = some i) (hi : d.drives[i]? = some drive) :
  d.step a = d.driveStep i drive a
  := by
  cases a with
  | request | cancel | recover | observe | detach | crash => cases mine
  | take | build | mark | dispatch | answer | refetched =>
    cases mine
    simp only [step, hi]

/-- What a step can do: what it stores in the ledger, and how the drives move. -/
theorem stepped (d : Daemon) (a : Act) :
  (machine.next d a).board = boardAfter d.board (d.ledgerAct a)
    ∧ Stepped d a (machine.next d a).drives (machine.emit d a)
  := by
  change (d.step a).1.board = _ ∧ Stepped d a (d.step a).1.drives (d.step a).2
  have hdrive {i : ℕ} (mine : a.drive? = some i) :
      (d.step a).1.board = boardAfter d.board (d.ledgerAct a)
        ∧ Stepped d a (d.step a).1.drives (d.step a).2 := by
    cases hi : d.drives[i]? with
    | none =>
      obtain ⟨hstep, hquiet⟩ := step_of_none mine hi
      rw [hstep]
      exact stays hquiet
    | some drive =>
      rw [step_of_some mine hi]
      exact driveStep_stepped hi mine
  cases a with
  | request task desired now stored =>
    rw [step]
    split_ifs with hempty
    · apply stays
      rw [ledgerAct, if_pos hempty]
    · apply startDrive_stepped _ rfl
      rw [ledgerAct, if_neg hempty]
  | cancel task fields now stored => exact startDrive_stepped rfl rfl
  | recover now found stored =>
    cases found with
    | false => exact ⟨rfl, .kept (.inl rfl)⟩
    | true =>
      constructor
      · cases stored <;> rfl
      · apply Stepped.started rfl
        intro o ho
        cases ho
  | observe task now stored =>
    cases stored <;> exact ⟨rfl, .kept (.inl rfl)⟩
  | detach task => exact ⟨rfl, .kept (.inl rfl)⟩
  | crash => exact ⟨rfl, .crashed⟩
  | take | build | mark | dispatch | answer | refetched => exact hdrive rfl

/-! ### What the stored ledger keeps -/

/-- The identity was given out, and its operation left the ledger. -/
def Gone (b : Board) (id : OperationId) : Prop :=
  id < b.ops.nextId ∧ ∀ op ∈ b.ops.pending, op.id ≠ id

/-- An operation read from the ledger earlier is the one the ledger has under its identity. -/
def Knows (b : Board) (op : PendingMutation) : Prop :=
  op.id < b.ops.nextId ∧ ∀ op' ∈ b.ops.pending, op'.id = op.id → SameClaim op op'

/-- The operation of an identity, if pending, was tried. -/
def Tried (b : Board) (id : OperationId) : Prop :=
  id < b.ops.nextId ∧ ∀ op ∈ b.ops.pending, op.id = id → op.phase ≠ .accepted

variable {b : Board}

theorem nextId_le (wf : b.ops.Wf) (a : Board.Act) :
  b.ops.nextId ≤ (Board.machine.next b a).ops.nextId
  := by
  rw [Board.step_ops wf]
  apply Nat.le_add_right

/-- An operation known before a step and pending after it was pending before. -/
theorem pending_before (wf : b.ops.Wf) {a : Board.Act} {op' : PendingMutation}
    (hop' : op' ∈ (Board.machine.next b a).ops.pending) (hid : op'.id < b.ops.nextId) :
  ∃ op ∈ b.ops.pending, b.fate a op = some op'
  := by
  rcases (Board.mem_pending_step wf).mp hop' with h | hnew
  · apply h
  · rcases b.admitted_cases a with hnone | ⟨op, hop, hnext⟩
    · simp [hnone] at hnew
    · rw [hop, List.mem_singleton] at hnew
      rw [hnew, hnext] at hid
      exact absurd hid (lt_irrefl _)

section BoardAfter

variable {b : Board} (wf : b.ops.Wf) (a : Option Board.Act)
include wf

theorem wf_boardAfter : (boardAfter b a).ops.Wf := by
  cases a with
  | none => apply wf
  | some a => apply Board.step_wf wf a

theorem Gone.boardAfter {id : OperationId} (h : Gone b id) : Gone (boardAfter b a) id := by
  cases a with
  | none => apply h
  | some a =>
      constructor
      · apply lt_of_lt_of_le h.1 (nextId_le wf a)
      · rintro op' hop' rfl
        obtain ⟨op, hop, hfate⟩ := pending_before wf hop' h.1
        apply h.2 op hop (Board.sameClaim_fate hfate).id.symm

theorem Knows.boardAfter {op : PendingMutation} (h : Knows b op) : Knows (boardAfter b a) op := by
  cases a with
  | none => apply h
  | some a =>
      constructor
      · apply lt_of_lt_of_le h.1 (nextId_le wf a)
      · intro op' hop' hid
        obtain ⟨op₀, hop₀, hfate⟩ := pending_before wf hop' (hid ▸ h.1)
        have hsame := Board.sameClaim_fate hfate
        have hknown := h.2 op₀ hop₀ (hsame.id.symm.trans hid)
        exact ⟨hsame.id.trans hknown.id, hsame.task.trans hknown.task,
          hsame.desired.trans hknown.desired, hsame.claimed.trans hknown.claimed,
          hsame.issuedAt.trans hknown.issuedAt⟩

theorem Tried.boardAfter {id : OperationId} (h : Tried b id) : Tried (boardAfter b a) id := by
  cases a with
  | none => apply h
  | some a =>
      constructor
      · apply lt_of_lt_of_le h.1 (nextId_le wf a)
      · rintro op' hop' rfl hphase
        obtain ⟨op, hop, hfate⟩ := pending_before wf hop' h.1
        have htried := h.2 op hop (Board.sameClaim_fate hfate).id.symm
        have hmoves := Board.moves_fate hfate
        rw [hphase] at hmoves
        generalize hafter : OpPhase.accepted = phase at hmoves
        cases hmoves with
        | kept => exact htried hafter.symm
        | sent t => cases hafter
        | acked t now => cases hafter
        | uncertain t detail now => cases hafter
        | retried t detail now notBefore => cases hafter
        | recovered now => cases hafter

end BoardAfter

/-- An operation settled by a stored transition left the ledger. -/
theorem gone_of_settled (wf : b.ops.Wf) {t : TaskId} {id : OperationId}
    (h : .settled id ∈ (b.step (.event t event)).2) :
  Gone (Board.machine.next b (.event t event)) id
  := by
  have hfate : ∃ op ∈ b.ops.pending, op.id = id ∧ b.ops.fate event op = none := by
    rw [Board.step_effects wf, List.mem_append] at h
    rcases h with htraces | hadmitted
    · obtain ⟨op, hop, htrace⟩ := List.mem_flatMap.mp htraces
      use op, hop
      cases event with
      | requested task desired now =>
        simp only [ProviderOps.traces] at htrace
        split_ifs at htrace with hsuperseded
        · rw [List.mem_singleton, OpEffect.settled.injEq] at htrace
          simp [ProviderOps.fate, hsuperseded, htrace]
        · simp at htrace
      | sent id' => simp [ProviderOps.traces] at htrace
      | acked id' now => simp [ProviderOps.traces] at htrace
      | failed id' failure detail now =>
        simp only [ProviderOps.traces] at htrace
        split_ifs at htrace with hid huncertain hstale htransient
        · simp at htrace
        · simp only [List.mem_singleton, OpEffect.settled.injEq] at htrace
          simp [ProviderOps.fate, hid, huncertain, hstale, htrace]
        · simp at htrace
        · simp only [List.mem_cons, OpEffect.settled.injEq, reduceCtorEq, List.not_mem_nil,
            or_false, false_or] at htrace
          simp [ProviderOps.fate, hid, huncertain, hstale, htransient, htrace]
        · simp at htrace
      | cancelled task fields now =>
        simp only [ProviderOps.traces] at htrace
        split_ifs at htrace with haffected hreached
        · simp at htrace
        · rw [List.mem_singleton, OpEffect.settled.injEq] at htrace
          simp [ProviderOps.fate, haffected, hreached, htrace]
        · simp at htrace
    · simp at hadmitted
  obtain ⟨op, hop, rfl, hnone⟩ := hfate
  constructor
  · apply lt_of_lt_of_le (wf.known op hop) (nextId_le wf _)
  · apply (Board.gone_iff wf (.event t event) hop).mpr hnone

/-! ### Guarded steps -/

/-- The action stored in the ledger leaves an operation recorded as sent as it is. -/
def Spares (b : Board) (op : PendingMutation) : Board.Act → Prop
  | .event _ (.acked id _) | .event _ (.failed id _ _ _) => id ≠ op.id
  | .event _ (.requested _ _ _) | .event _ (.cancelled _ _ _) | .event _ (.sent _) => True
  | .observed task now =>
      ∀ op' ∈ b.ops.pending, op'.id = op.id → op'.task = task.id →
        op'.settledBy task.updatedAt now = false
  | .recovered _ => False

instance (b : Board) (op : PendingMutation) : ∀ act : Board.Act, Decidable (Spares b op act)
  | .event _ (.acked id _) | .event _ (.failed id _ _ _) =>
      inferInstanceAs (Decidable (id ≠ op.id))
  | .event _ (.requested _ _ _) | .event _ (.cancelled _ _ _) | .event _ (.sent _) =>
      isTrue trivial
  | .observed task now => inferInstanceAs (Decidable
      (∀ op' ∈ b.ops.pending, op'.id = op.id → op'.task = task.id →
        op'.settledBy task.updatedAt now = false))
  | .recovered _ => isFalse not_false

/-- Recording a write as sent is stored, with the entity of the operation in the workspace and
the operation still in the ledger. -/
def Recorded (d : Daemon) (a : Act) : Prop :=
  ∀ op ∈ d.marking? a, a.stored = true ∧ d.held op.task = true
    ∧ ∃ op' ∈ d.board.ops.pending, op'.id = op.id

/-- A step moves the ledger on about no operation which another drive recorded as sent and has
writes of to dispatch. -/
def Spared (d : Daemon) (a : Act) : Prop :=
  ∀ j ∈ List.range d.drives.length, a.drive? ≠ some j → ∀ drive ∈ d.drives[j]?,
    ∀ op ∈ drive.stage.sending?, ∀ act ∈ d.ledgerAct a, Spares d.board op act

/-- The steps that keep the ledger ahead of the provider. -/
structure Guarded (d : Daemon) (a : Act) : Prop where
  recorded : d.Recorded a
  spared : d.Spared a

instance (d : Daemon) (a : Act) : Decidable (d.Recorded a) :=
  inferInstanceAs (Decidable (∀ op ∈ d.marking? a, a.stored = true ∧ d.held op.task = true
    ∧ ∃ op' ∈ d.board.ops.pending, op'.id = op.id))

instance (d : Daemon) (a : Act) : Decidable (d.Spared a) :=
  inferInstanceAs (Decidable (∀ j ∈ List.range d.drives.length, a.drive? ≠ some j →
    ∀ drive ∈ d.drives[j]?, ∀ op ∈ drive.stage.sending?, ∀ act ∈ d.ledgerAct a,
      Spares d.board op act))

instance (d : Daemon) (a : Act) : Decidable (d.Guarded a) :=
  decidable_of_iff (d.Recorded a ∧ d.Spared a) ⟨fun h => ⟨h.1, h.2⟩, fun h => ⟨h.1, h.2⟩⟩

/-- The ledger holds the operation in phase `sent`. -/
def HoldsSent (ops : ProviderOps) (id : OperationId) : Prop :=
  ∃ op ∈ ops.pending, op.id = id ∧ op.phase = .sent

/-- An operation held as sent stays so under an action that spares it. -/
theorem HoldsSent.spared (wf : b.ops.Wf) {op : PendingMutation} (h : HoldsSent b.ops op.id)
    {act : Board.Act} (spares : Spares b op act) :
  HoldsSent (Board.machine.next b act).ops op.id
  := by
  obtain ⟨op₁, hop₁, hid, hphase⟩ := h
  have hreached : op₁.phase.reachedProvider = true := by
    rw [hphase]
    rfl
  have hkept : ∃ op', b.fate act op₁ = some op' ∧ op'.phase = .sent := by
    cases act with
    | event t event =>
      cases event with
      | requested task desired now =>
        refine ⟨op₁, ?_, hphase⟩
        simp [Board.fate, ProviderOps.fate, ProviderOps.supersedes, hreached]
      | sent id =>
        by_cases hsame : op₁.id = id
        · refine ⟨{ op₁ with phase := .sent }, ?_, rfl⟩
          simp [Board.fate, ProviderOps.fate, hsame]
        · exact ⟨op₁, by simp [Board.fate, ProviderOps.fate, hsame], hphase⟩
      | acked id now =>
        have hne : op₁.id ≠ id := fun heq => spares (heq.symm.trans hid)
        exact ⟨op₁, by simp [Board.fate, ProviderOps.fate, hne], hphase⟩
      | failed id failure detail now =>
        have hne : op₁.id ≠ id := fun heq => spares (heq.symm.trans hid)
        exact ⟨op₁, by simp [Board.fate, ProviderOps.fate, hne], hphase⟩
      | cancelled task fields now =>
        refine ⟨op₁, ?_, hphase⟩
        simp [Board.fate, ProviderOps.fate, hreached]
    | observed task now =>
      by_cases htask : op₁.task = task.id
      · refine ⟨{ op₁ with previous := op₁.desired.observedCounterpart task }, ?_, hphase⟩
        simp [Board.fate, htask, spares op₁ hop₁ hid htask]
      · exact ⟨op₁, by simp [Board.fate, htask], hphase⟩
    | recovered now => exact spares.elim
  obtain ⟨op', hfate, hsent⟩ := hkept
  use op', (Board.mem_pending_step wf).mpr (.inl ⟨op₁, hop₁, hfate⟩)
  exact ⟨(Board.sameClaim_fate hfate).id.trans hid, hsent⟩

/-- Recording an operation of the ledger as sent makes the ledger hold it so. -/
theorem holdsSent_sent
    (wf : b.ops.Wf) (t : TaskId) {op' : PendingMutation} (hop' : op' ∈ b.ops.pending) :
  HoldsSent (Board.machine.next b (.event t (.sent op'.id))).ops op'.id
  := by
  have hfate : b.fate (.event t (.sent op'.id)) op' = some { op' with phase := .sent } := by
    simp [Board.fate, ProviderOps.fate]
  exact ⟨_, (Board.mem_pending_step wf).mpr (.inl ⟨op', hop', hfate⟩), rfl, rfl⟩

/-! ### The invariant -/

/-- A write is dispatched only after everything that settled its operation is ruled out. -/
def NeverSettled (before : List Obs) (o : Obs) : Prop :=
  ∀ op field ledger, o = .dispatched op field ledger → ∀ effects, .transition effects ∈ before →
    .settled op.id ∉ effects

/-- What holds along guarded runs. -/
structure Sound (d : Daemon) (os : List Obs) : Prop where
  wf : d.board.ops.Wf
  known : ∀ drive ∈ d.drives, ∀ op ∈ drive.stage.op?, Knows d.board op
  sending : ∀ drive ∈ d.drives, ∀ op ∈ drive.stage.sending?, HoldsSent d.board.ops op.id
  sent : ∀ op field ledger, .dispatched op field ledger ∈ os →
    ∃ op' ∈ ledger.pending, SameClaim op op' ∧ op'.phase = .sent
  tried : ∀ op field ledger, .dispatched op field ledger ∈ os → Tried d.board op.id
  gone : ∀ effects, .transition effects ∈ os → ∀ id, .settled id ∈ effects → Gone d.board id
  settled : AtEach NeverSettled os

/-- A drive that is sending is issuing the operation. -/
theorem op?_of_sending? {s : Stage} {op : PendingMutation} (h : op ∈ s.sending?) :
  op ∈ s.op?
  := by
  cases s with
  | inFlight op' left =>
    cases left with
    | nil => cases h
    | cons field left => exact h
  | marked op' left => exact h
  | idle => cases h
  | loaded op' => cases h
  | built op' => cases h
  | refetching task => cases h

/-- The drives after a step: unchanged ones, new ones, and the one that moved. -/
theorem mem_drives_step
    {drives : List Drive} {os : List Obs} (h : Stepped d a drives os) (hmem : drive' ∈ drives) :
  (∃ j, d.drives[j]? = some drive' ∧ (a.drive? ≠ some j ∨ d.ledgerAct a = none))
    ∨ drive'.stage = .idle
    ∨ ∃ drive ∈ d.drives, StageStep d a drive.stage drive'.stage os
  := by
  cases h with
  | kept quiet =>
    left
    obtain ⟨j, hj⟩ := List.mem_iff_getElem?.mp hmem
    use j, hj
    rcases quiet with hnone | hquiet
    · left
      rw [hnone]
      simp
    · exact .inr hquiet
  | crashed => cases hmem
  | started other _ =>
    rcases List.mem_append.mp hmem with hold | hnew
    · left
      obtain ⟨j, hj⟩ := List.mem_iff_getElem?.mp hold
      use j, hj
      left
      rw [other]
      simp
    · right
      left
      rw [List.mem_singleton.mp hnew]
  | drove mine hi hstage =>
    obtain ⟨j, hj⟩ := List.mem_iff_getElem?.mp hmem
    rw [List.getElem?_set] at hj
    split_ifs at hj with hij hlt
    · cases hj
      right
      right
      exact ⟨_, List.mem_of_getElem? hi, hstage⟩
    · left
      use j, hj
      left
      rw [mine]
      simpa using hij

section Step

variable {d : Daemon} {os : List Obs} (sound : Sound d os) {a : Act}
include sound

theorem Sound.wf_step : (machine.next d a).board.ops.Wf := by
  rw [(stepped d a).1]
  apply wf_boardAfter sound.wf

/-- What a drive is issuing after a step is known to the ledger. -/
theorem Sound.known_step :
  ∀ drive ∈ (machine.next d a).drives, ∀ op ∈ drive.stage.op?, Knows (machine.next d a).board op
  := by
  intro drive' hdrive' op hop
  rw [(stepped d a).1]
  have hold (drive : Drive) (hdrive : drive ∈ d.drives) (h : op ∈ drive.stage.op?) :
      Knows (boardAfter d.board (d.ledgerAct a)) op :=
    (sound.known drive hdrive op h).boardAfter sound.wf _
  rcases mem_drives_step (stepped d a).2 hdrive' with ⟨j, hj, -⟩ | hidle | ⟨drive, hdrive, hstage⟩
  · apply hold drive' (List.mem_of_getElem? hj) hop
  · rw [hidle] at hop
    cases hop
  · have hsound := hold drive hdrive
    generalize drive.stage = s at hstage hsound
    generalize drive'.stage = s' at hstage hop
    generalize machine.emit d a = es at hstage
    cases hstage with
    | ended => cases hop
    | told => cases hop
    | refetches => cases hop
    | loads _ quiet hmem =>
      cases hop
      rw [quiet]
      constructor
      · apply sound.wf.known _ hmem
      · intro op' hop' hid
        rw [List.inj_on_of_nodup_map sound.wf.distinct hop' hmem hid]
        apply SameClaim.refl
    | builds op' => exact hsound hop
    | marks => exact hsound hop
    | passes => exact hsound hop
    | dispatches => exact hsound hop
    | answered => exact hsound hop

/-- In a guarded step, what a drive recorded as sent and is sending stays so in the ledger. -/
theorem Sound.sending_step (guarded : d.Guarded a) :
  ∀ drive ∈ (machine.next d a).drives, ∀ op ∈ drive.stage.sending?,
    HoldsSent (machine.next d a).board.ops op.id
  := by
  intro drive' hdrive' op hop
  rw [(stepped d a).1]
  rcases mem_drives_step (stepped d a).2 hdrive' with
    ⟨j, hj, hother⟩ | hidle | ⟨drive, hdrive, hstage⟩
  · have hsent := sound.sending drive' (List.mem_of_getElem? hj) op hop
    cases hact : d.ledgerAct a with
    | none => apply hsent
    | some act =>
      apply hsent.spared sound.wf
      have hlt : j < d.drives.length := (List.getElem?_eq_some_iff.mp hj).1
      apply guarded.spared j (List.mem_range.mpr hlt) _ drive' hj op hop act hact
      rcases hother with hother | hquiet
      · apply hother
      · rw [hquiet] at hact
        cases hact
  · rw [hidle] at hop
    cases hop
  · have hsound := sound.sending drive hdrive
    generalize drive.stage = s at hstage hsound
    generalize drive'.stage = s' at hstage hop
    generalize machine.emit d a = es at hstage
    cases hstage with
    | ended => cases hop
    | told => cases hop
    | refetches => cases hop
    | loads => cases hop
    | builds => cases hop
    | @marks op₁ effects i stored ha hi htold =>
      cases hop
      subst ha
      have hmarking : d.marking? (.mark i stored) = some op := by
        simp only [marking?, hi]
      obtain ⟨hstored, hheld, op', hop', hid⟩ := guarded.recorded op hmarking
      have hact : d.ledgerAct (.mark i stored) = some (.event op.task (.sent op.id)) := by
        rw [Act.stored] at hstored
        simp [ledgerAct, hi, storedEvent, hstored, hheld]
      rw [hact, ← hid]
      apply holdsSent_sent sound.wf _ hop'
    | passes => cases hop
    | @dispatches op₁ field left quiet =>
      rw [quiet]
      cases left with
      | nil => cases hop
      | cons f left => exact hsound op hop
    | answered quiet =>
      rw [quiet]
      exact hsound op hop

omit sound in
/-- What is seen of a step: transitions, or the dispatch of a write by a drive that recorded it
as sent. -/
theorem emit_cases (d : Daemon) (a : Act) :
  (∀ o ∈ machine.emit d a, ∃ effects, Told d a effects ∧ o = .transition effects)
    ∨ ∃ drive ∈ d.drives, ∃ op field, op ∈ drive.stage.sending?
        ∧ machine.emit d a = [.dispatched op field d.board.ops] ∧ d.ledgerAct a = none
  := by
  have h := (stepped d a).2
  generalize (machine.next d a).drives = drives at h
  generalize machine.emit d a = es at h
  cases h with
  | kept => exact .inl (by simp)
  | crashed => exact .inl (by simp)
  | started _ h => exact .inl h
  | @drove i drive drive' _ _ hi hstage =>
    have hmem := List.mem_of_getElem? hi
    generalize hs : drive.stage = s at hstage
    generalize drive'.stage = s' at hstage
    cases hstage with
    | ended => exact .inl (by simp)
    | told _ htold =>
      left
      intro o ho
      exact ⟨_, htold, List.mem_singleton.mp ho⟩
    | refetches => exact .inl (by simp)
    | loads => exact .inl (by simp)
    | builds => exact .inl (by simp)
    | marks _ _ htold =>
      left
      intro o ho
      exact ⟨_, htold, List.mem_singleton.mp ho⟩
    | passes => exact .inl (by simp)
    | @dispatches op field left quiet =>
      right
      refine ⟨drive, hmem, op, field, ?_, rfl, quiet⟩
      rw [hs]
      rfl
    | answered => exact .inl (by simp)

variable {op : PendingMutation}

/-- An operation held as sent, of which a drive knows, is the drive's operation. -/
theorem Sound.held {drive : Drive} (hdrive : drive ∈ d.drives) (hop : op ∈ drive.stage.sending?) :
  ∃ op' ∈ d.board.ops.pending, SameClaim op op' ∧ op'.phase = .sent
  := by
  obtain ⟨op', hop', hid, hphase⟩ := sound.sending drive hdrive op hop
  refine ⟨op', hop', ?_, hphase⟩
  apply (sound.known drive hdrive op (op?_of_sending? hop)).2 op' hop' hid

/-- What was dispatched was tried, whatever is stored later. -/
theorem Sound.tried_step {field : MutationField} {ledger : ProviderOps}
    (h : .dispatched op field ledger ∈ os) :
  Tried (machine.next d a).board op.id
  := by
  rw [(stepped d a).1]
  apply (sound.tried op field ledger h).boardAfter sound.wf

/-- What was settled is gone, whatever is stored later. -/
theorem Sound.gone_step {effects : List OpEffect} (h : .transition effects ∈ os)
    {id : OperationId} (hid : .settled id ∈ effects) :
  Gone (machine.next d a).board id
  := by
  rw [(stepped d a).1]
  apply (sound.gone effects h id hid).boardAfter sound.wf

/-- A guarded step of which only transitions are seen keeps everything. -/
theorem Sound.step_told (guarded : d.Guarded a)
    (htold : ∀ o ∈ machine.emit d a, ∃ effects, Told d a effects ∧ o = .transition effects) :
  Sound (machine.next d a) (os ++ machine.emit d a)
  := by
  have hold : ∀ op field ledger, .dispatched op field ledger ∈ os ++ machine.emit d a →
      .dispatched op field ledger ∈ os := by
    intro op field ledger h
    apply (List.mem_append.mp h).resolve_right
    intro hnew
    obtain ⟨effects, -, heq⟩ := htold _ hnew
    cases heq
  constructor
  case wf => exact sound.wf_step
  case known => exact sound.known_step
  case sending => exact sound.sending_step guarded
  case sent => exact fun op field ledger h => sound.sent op field ledger (hold op field ledger h)
  case tried => exact fun op field ledger h => sound.tried_step (hold op field ledger h)
  case gone =>
    intro effects h id hid
    rcases List.mem_append.mp h with hold | hnew
    · apply sound.gone_step hold hid
    · obtain ⟨effects', htold', heq⟩ := htold _ hnew
      cases heq
      rcases htold' with rfl | ⟨t, event, hact, rfl⟩
      · cases hid
      · rw [(stepped d a).1, hact]
        apply gone_of_settled sound.wf hid
  case settled =>
    apply atEach_append sound.settled
    intro o ho before op field ledger heq
    obtain ⟨effects, -, heq'⟩ := htold o ho
    rw [heq] at heq'
    cases heq'

/-- A write that a drive dispatches is of an operation the ledger holds as sent. -/
theorem Sound.step_dispatched (guarded : d.Guarded a) {drive : Drive} (hdrive : drive ∈ d.drives)
    {field : MutationField} (hop : op ∈ drive.stage.sending?)
    (hemit : machine.emit d a = [.dispatched op field d.board.ops]) (hquiet : d.ledgerAct a = none)
    :
  Sound (machine.next d a) (os ++ machine.emit d a)
  := by
  obtain ⟨op', hop', hsame, hphase⟩ := sound.held hdrive hop
  have hboard : (machine.next d a).board = d.board := by
    rw [(stepped d a).1, hquiet]
    rfl
  rw [hemit]
  constructor
  case wf => exact sound.wf_step
  case known => exact sound.known_step
  case sending => exact sound.sending_step guarded
  case sent =>
    intro op₁ field₁ ledger h
    rcases List.mem_append.mp h with hold | hnew
    · apply sound.sent op₁ field₁ ledger hold
    · cases List.mem_singleton.mp hnew
      exact ⟨op', hop', hsame, hphase⟩
  case tried =>
    intro op₁ field₁ ledger h
    rcases List.mem_append.mp h with hold | hnew
    · apply sound.tried_step hold
    · cases List.mem_singleton.mp hnew
      rw [hboard]
      constructor
      · rw [← hsame.id]
        apply sound.wf.known op' hop'
      · intro op₂ hop₂ hid haccepted
        have heq : op₂ = op' := by
          apply List.inj_on_of_nodup_map sound.wf.distinct hop₂ hop'
          rw [hid, hsame.id]
        rw [heq, hphase] at haccepted
        cases haccepted
  case gone =>
    intro effects h id hid
    rcases List.mem_append.mp h with hold | hnew
    · apply sound.gone_step hold hid
    · cases List.mem_singleton.mp hnew
  case settled =>
    rw [atEach_concat]
    constructor
    · exact sound.settled
    · rintro op₁ field₁ ledger heq effects htransition hsettled
      cases heq
      apply (sound.gone effects htransition op.id hsettled).2 op' hop' hsame.id

/-- A guarded step keeps everything. -/
theorem Sound.step (guarded : d.Guarded a) :
  Sound (machine.next d a) (os ++ machine.emit d a)
  := by
  rcases emit_cases d a with htold | ⟨drive, hdrive, op, field, hop, hemit, hquiet⟩
  · exact sound.step_told guarded htold
  · exact sound.step_dispatched guarded hdrive hop hemit hquiet

end Step

/-- What a run knows about its dispatches: each found its operation held as sent, none was of an
operation that had left the ledger, and none was of an operation stored as accepted. -/
structure Durable (d : Daemon) (os : List Obs) : Prop where
  sent : ∀ op field ledger, .dispatched op field ledger ∈ os →
    ∃ op' ∈ ledger.pending, SameClaim op op' ∧ op'.phase = .sent
  dropped : AtEach NeverSettled os
  accepted : ∀ op ∈ d.board.ops.pending, op.phase = .accepted →
    ∀ op' field ledger, .dispatched op' field ledger ∈ os → op'.id ≠ op.id

/-- Along every run of guarded steps nothing is dispatched that the stored ledger does not hold
as sent. -/
theorem dispatched_is_sent
    (entities : { e : TaskId → Task // ∀ t, (e t).id = t }) (held : TaskId → Bool)
    (acts : List Act) (guarded : machine.Along Guarded (new entities held) acts) :
  Durable (machine.final (new entities held) acts) (machine.trace (new entities held) acts)
  := by
  have sound : Sound (machine.final (new entities held) acts)
      (machine.trace (new entities held) acts) := by
    apply machine.invariant (P := Guarded) (I := Sound) _ _ guarded
    · exact ⟨Board.wf_new entities, by simp [new], by simp [new], by simp, by simp, by simp,
        atEach_nil _⟩
    · intro d os a hguarded hsound
      apply hsound.step hguarded
  refine ⟨sound.sent, sound.settled, ?_⟩
  intro op hop haccepted op' field ledger h hid
  apply (sound.tried op' field ledger h).2 op hop hid.symm haccepted

/-- One request, driven to its acknowledgement. -/
theorem dispatched_is_sent_once :
  Durable
    (machine.final (new Board.blankTasks fun _ => true)
      [.request ⟨"linear", "ENG-1"⟩ { assignees := some ["ana"] } 0 true, .take 0 true,
        .build 0 none 1 true, .mark 0 true, .dispatch 0, .answer 0 none 2 true])
    (machine.trace (new Board.blankTasks fun _ => true)
      [.request ⟨"linear", "ENG-1"⟩ { assignees := some ["ana"] } 0 true, .take 0 true,
        .build 0 none 1 true, .mark 0 true, .dispatch 0, .answer 0 none 2 true])
  := by
  apply dispatched_is_sent
  decide

/-- A request superseded while its client is being built is dispatched after the request that
superseded it, though the ledger does not have it any more. -/
theorem superseded_write_dispatched :
  ¬ Durable
    (machine.final (new Board.blankTasks fun _ => true)
      [.request ⟨"linear", "ENG-1"⟩ { assignees := some ["ana"] } 0 true, .take 0 true,
        .request ⟨"linear", "ENG-1"⟩ { assignees := some ["bo"] } 1 true,
        .build 0 none 2 true, .mark 0 true, .dispatch 0])
    (machine.trace (new Board.blankTasks fun _ => true)
      [.request ⟨"linear", "ENG-1"⟩ { assignees := some ["ana"] } 0 true, .take 0 true,
        .request ⟨"linear", "ENG-1"⟩ { assignees := some ["bo"] } 1 true,
        .build 0 none 2 true, .mark 0 true, .dispatch 0])
  := by
  intro durable
  have hunknown : (machine.trace (new Board.blankTasks fun _ => true)
      [.request ⟨"linear", "ENG-1"⟩ { assignees := some ["ana"] } 0 true, .take 0 true,
        .request ⟨"linear", "ENG-1"⟩ { assignees := some ["bo"] } 1 true,
        .build 0 none 2 true, .mark 0 true, .dispatch 0]).any (fun
          | .dispatched op _ ledger => (ledger.get op.id).isNone
          | .transition _ => false) = true := by
    decide
  obtain ⟨o, ho, hnone⟩ := List.any_eq_true.mp hunknown
  cases o with
  | transition effects => cases hnone
  | dispatched op field ledger =>
      obtain ⟨op', hop', hsame, -⟩ := durable.sent op field ledger ho
      apply Keyed.lookup_eq_none.mp (Option.isNone_iff_eq_none.mp hnone) op' hop' hsame.id

end Daemon

end Lazybox
