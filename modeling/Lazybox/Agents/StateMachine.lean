import Mathlib.Data.List.Basic

/-!
# The agent state machine

The lifecycle states of an agent, the table of transitions between them, and the policy
`AgentStateMachine` applies to readings of an agent's screen: the hooks-primary gate, the
boot latch, the promotion of a settled turn, the stickiness of blocked states, and the
streak of progressing readings that leaves `done`.

A reading is folded into the state cached for the agent, which is `none` until one was
reported.  The machine itself keeps the boot latch and the streak.
-/

namespace Lazybox

inductive AgentState where
  | working
  | inputNeeded
  | idle
  | done
  | exited (code : Option Int32)
  | limitReached
  | creditExhausted
  | awaitingReset
  | stalled
deriving DecidableEq, Repr

/-- Milliseconds after which a lifecycle hook is stale. -/
def HOOK_STALENESS : ℕ := 30000

/-- The order of the latest hook and of the screen a reading was taken from. -/
inductive HookAuthority where
  | none
  | hookNewer
  | ptyNewer
deriving DecidableEq, Repr

/-- How quiet the terminal was when a reading was taken. -/
inductive Liveness where
  | streaming
  | silent
  | stalled
  | watchdog
deriving DecidableEq, Repr

structure PtyReading where
  state : AgentState
  clear : Bool
  progress : Bool
  liveness : Liveness
  readyForPrompt : Bool
deriving DecidableEq, Repr

structure Reading where
  state : AgentState
  clear : Bool
  progress : Bool
deriving DecidableEq, Repr

def PtyReading.reading (pty : PtyReading) (clear : Bool) : Reading where
  state := pty.state
  clear := clear
  progress := pty.progress

/-- How many progressing readings re-open a finished turn. -/
def DONE_EXIT_PROGRESS_STREAK : ℕ := 3

/-- Whether the machine permits a move from `start` to a different state `target`. -/
def transitionAllowed (start target : AgentState) : Bool :=
  match start, target with
  | .exited _, _ => false
  | .done, .idle => false
  | .working, .idle => false
  | _, _ => true

/-- The states in which an agent is parked with no output flowing. -/
def isBlocked : AgentState → Bool
  | .inputNeeded | .limitReached | .creditExhausted | .awaitingReset | .stalled => true
  | .working | .idle | .done | .exited _ => false

/-- Whether the state cached for an agent is a blocked one. -/
def currentBlocked (current : Option AgentState) : Bool :=
  current.any isBlocked

inductive Outcome where
  | committed (target : AgentState)
  | unchanged
  | rejected
  | damped
  | gated
deriving DecidableEq, Repr

structure AgentStateMachine where
  booted : Bool
  doneProgressStreak : ℕ
deriving DecidableEq, Repr

namespace AgentStateMachine

/-- The machine of a terminal just spawned. -/
def new : AgentStateMachine where
  booted := false
  doneProgressStreak := 0

/-- The machine of a terminal whose state was restored from the store. -/
def restored (state : AgentState) : AgentStateMachine where
  booted := decide (state ≠ .idle)
  doneProgressStreak := 0

def markBooted (m : AgentStateMachine) : AgentStateMachine :=
  { m with booted := true }

/-- The move from `start` to `target`, when it is legal and changes the state. -/
def transition (start : Option AgentState) (target : AgentState) : Option AgentState :=
  match start with
  | some current =>
      if current = target then none
      else if !transitionAllowed current target then none
      else some target
  | none => some target

def suppressInputNeededExit (current : Option AgentState) (reading : Reading) : Bool :=
  currentBlocked current && decide (some reading.state ≠ current) && !reading.clear

/-- What a clear reading of a working agent says: that a turn ended, unless the agent is
blocked. -/
def settle (current : Option AgentState) (reading : Reading) : Reading :=
  if current = some .working ∧ reading.clear ∧ ¬ isBlocked reading.state then
    { state := .done, clear := true, progress := false }
  else reading

/-- Fold a reading that is not held back at its start: by now the streak and the boot latch
are up to date, and the end of a turn is settled. -/
def foldReading (m : AgentStateMachine) (current : Option AgentState) (reading : Reading) :
    AgentStateMachine × Outcome :=
  if reading.state = .done ∧ current ≠ some .working then
    (m, if current = some .done then .unchanged else .rejected)
  else if current = some .done ∧ reading.state = .working ∧ ¬ reading.clear then
    if reading.progress then
      let m := { m with doneProgressStreak := m.doneProgressStreak + 1 }
      if m.doneProgressStreak ≥ DONE_EXIT_PROGRESS_STREAK then
        ({ m with doneProgressStreak := 0 }, .committed .working)
      else (m, .damped)
    else (m, .damped)
  else if suppressInputNeededExit current reading then (m, .damped)
  else
    match transition current reading.state with
    | some target => (m, .committed target)
    | none => (m, if current = some reading.state then .unchanged else .rejected)

/-- The streak counts readings while `done` only. -/
def restartStreak (m : AgentStateMachine) (current : Option AgentState) : AgentStateMachine :=
  if current ≠ some .done then { m with doneProgressStreak := 0 } else m

/-- A clear reading proves the agent booted and restarts the streak. -/
def noteClear (m : AgentStateMachine) (reading : Reading) : AgentStateMachine :=
  if reading.clear then { booted := true, doneProgressStreak := 0 } else m

/-- Fold a reading into the state cached for the agent. -/
def onReading (m : AgentStateMachine) (current : Option AgentState) (reading : Reading) :
    AgentStateMachine × Outcome :=
  if reading.state = .working ∧ ¬ reading.clear ∧ current = none ∧ ¬ m.booted then
    -- boot output is not work
    (m.restartStreak current, .damped)
  else if current = some .awaitingReset ∧ reading.state = .limitReached then
    -- the banner of a limit already being waited out
    (m.restartStreak current, .damped)
  else ((m.restartStreak current).noteClear reading).foldReading current (settle current reading)

/-- Whether a reading may be folded for a terminal that hooks report on. -/
def hooksGateAllowsCausal (current : Option AgentState) (reading : PtyReading)
    (ptyIsNewer : Bool) (supersedesDialog : Bool) : Bool :=
  if (reading.liveness = .silent ∨ reading.liveness = .watchdog) ∧ current = some .working then
    true
  else if ptyIsNewer then
    let demotesBlocked := currentBlocked current && decide (reading.state = .working)
    !demotesBlocked || supersedesDialog
  else
    isBlocked reading.state
      || (decide (reading.state = .idle) && reading.readyForPrompt && !currentBlocked current)

/-- Whether the gate lets a reading through, given the order of hook and screen. -/
def gateOpen (current : Option AgentState) (pty : PtyReading) (authority : HookAuthority)
    (supersedesDialog : Bool) : Bool :=
  match authority with
  | .none => true
  | .hookNewer => hooksGateAllowsCausal current pty false supersedesDialog
  | .ptyNewer => hooksGateAllowsCausal current pty true supersedesDialog

/-- Whether a reading that passed the gate counts as clear: a `working` reading that passed it
while the agent was blocked did so on the evidence that the prompt was answered. -/
def gatedClear (current : Option AgentState) (pty : PtyReading) (authority : HookAuthority) :
    Bool :=
  pty.clear || (decide (authority = .ptyNewer) && currentBlocked current
    && decide (pty.state = .working))

/-- Fold a reading through the gate and the machine, by the order of hook and screen. -/
def onPtyReadingCausal (m : AgentStateMachine) (current : Option AgentState) (pty : PtyReading)
    (authority : HookAuthority) (supersedesDialog : Bool) : AgentStateMachine × Outcome :=
  if gateOpen current pty authority supersedesDialog then
    m.onReading current (pty.reading (gatedClear current pty authority))
  else (m, .gated)

/-- The order of hook and screen that the age of the latest hook, in milliseconds, stands
for. -/
def authorityOfAge : Option ℕ → HookAuthority
  | none => .none
  | some since => if HOOK_STALENESS ≤ since then .ptyNewer else .hookNewer

def onPtyReading (m : AgentStateMachine) (current : Option AgentState) (pty : PtyReading)
    (sinceLastHook : Option ℕ) (supersedesDialog : Bool) : AgentStateMachine × Outcome :=
  m.onPtyReadingCausal current pty (authorityOfAge sinceLastHook) supersedesDialog

end AgentStateMachine

end Lazybox
