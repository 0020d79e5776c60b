import Lazybox.Agents.StateMachine
import Lazybox.Library.Run
import Mathlib.Data.List.Chain
import Mathlib.Data.List.DropRight

/-!
# Runs of the agent lifecycle

The state cached for an agent moves by direct commits, which hooks, user answers and the exit
of the process offer through the transition table, and by readings of the screen, which are
folded through the machine.  Every offer is made and stored under one lock, so it is one step
here.  A move the machine or the table allows may still not be stored, when persisting it
fails; the cached state then stays as it was.
-/

namespace Lazybox

open AgentStateMachine

/-- One reading offered to the machine, with the order of hook and screen, whether the screen
shows the dialog superseded, and whether a committed move is stored. -/
structure PtyCall where
  pty : PtyReading
  authority : HookAuthority
  supersedesDialog : Bool
  stored : Bool
deriving DecidableEq, Repr

/-- The state cached for an agent, and the agent's machine. -/
structure Lifecycle where
  machine : AgentStateMachine
  current : Option AgentState
deriving DecidableEq, Repr

namespace Lifecycle

/-- What can happen to an agent's state. -/
inductive Act where
  | direct (target : AgentState) (stored : Bool)
  | markBooted
  | causal (call : PtyCall)
  | timed (pty : PtyReading) (sinceLastHook : Option ℕ) (supersedesDialog stored : Bool)
deriving DecidableEq, Repr

/-- The reading an action offers, by the order of hook and screen. -/
def Act.call? : Act → Option PtyCall
  | .causal call => some call
  | .timed pty sinceLastHook supersedesDialog stored =>
      some ⟨pty, authorityOfAge sinceLastHook, supersedesDialog, stored⟩
  | .direct _ _ | .markBooted => none

def Act.stored : Act → Bool
  | .direct _ stored => stored
  | .markBooted => false
  | .causal call => call.stored
  | .timed _ _ _ stored => stored

/-- The state an outcome asks to commit. -/
def Outcome.target? : Outcome → Option AgentState
  | .committed target => some target
  | .unchanged | .rejected | .damped | .gated => none

/-- The machine after an action, and the state the action asks to commit. -/
def offer (l : Lifecycle) : Act → AgentStateMachine × Option AgentState
  | .direct target _ => (l.machine, transition l.current target)
  | .markBooted => (l.machine.markBooted, none)
  | .causal call =>
      let (m, outcome) :=
        l.machine.onPtyReadingCausal l.current call.pty call.authority call.supersedesDialog
      (m, Outcome.target? outcome)
  | .timed pty sinceLastHook supersedesDialog _ =>
      let (m, outcome) := l.machine.onPtyReading l.current pty sinceLastHook supersedesDialog
      (m, Outcome.target? outcome)

/-- The state an action commits. -/
def committed (l : Lifecycle) (a : Act) : Option AgentState :=
  if a.stored then (l.offer a).2 else none

/-- What is observed of a step: the state before it, its action, and what it committed. -/
structure Obs where
  before : Lifecycle
  act : Act
  committed : Option AgentState
deriving DecidableEq, Repr

def machineOf : Machine Lifecycle Act Obs where
  step l a :=
    (⟨(l.offer a).1, (l.committed a).or l.current⟩, [⟨l, a, l.committed a⟩])

/-- A terminal just spawned: nothing was reported of its agent. -/
def new : Lifecycle := ⟨AgentStateMachine.new, none⟩

/-- A surviving terminal whose agent's state was loaded from the store. -/
def restored (state : AgentState) : Lifecycle := ⟨AgentStateMachine.restored state, some state⟩

/-! ### What a reading can commit -/

theorem transition_eq_some_iff (start : Option AgentState) (target target' : AgentState) :
  transition start target = some target'
    ↔ target = target' ∧ ∀ s ∈ start, s ≠ target ∧ transitionAllowed s target = true
  := by
  cases start with
  | none => simp [transition]
  | some s =>
    by_cases hs : s = target
    · simp [transition, hs]
    · cases hallowed : transitionAllowed s target
      · simp [transition, hs, hallowed]
      · simp [transition, hs, hallowed]

variable {target : AgentState} {current : Option AgentState} {m : AgentStateMachine}

/-- Folding a reading commits `working`, out of `done`, when the reading completes the streak,
and otherwise a legal successor of the current state. -/
theorem foldReading_committed
    {reading : Reading} (h : (m.foldReading current reading).2 = .committed target) :
  (current = some .done ∧ target = .working ∧ reading.state = .working ∧ reading.clear = false
      ∧ reading.progress = true ∧ DONE_EXIT_PROGRESS_STREAK ≤ m.doneProgressStreak + 1)
    ∨ (transition current target = some target ∧ target = reading.state
        ∧ ¬ (current = some .done ∧ reading.state = .working ∧ reading.clear = false)
        ∧ suppressInputNeededExit current reading = false)
  := by
  rw [foldReading] at h
  split at h
  · -- a `done` reading of an agent that was not working commits nothing
    split at h <;> cases h
  · split at h
    · next hresume =>
        obtain ⟨hdone, hworking, hclear⟩ := hresume
        split at h
        · next hprogress =>
            dsimp only at h
            split at h
            · next hstreak =>
                cases h
                exact .inl ⟨hdone, rfl, hworking, by simpa using hclear, hprogress, hstreak⟩
            · cases h
        · cases h
    · next hresume =>
        split at h
        · cases h
        · next hsuppress =>
            split at h
            · next t ht =>
                cases h
                obtain ⟨rfl, -⟩ := (transition_eq_some_iff _ _ _).mp ht
                exact .inr ⟨ht, rfl, by simpa using hresume, by simpa using hsuppress⟩
            · split at h <;> cases h

/-- What a reading commits: `working`, out of `done`, when it completes the streak; or a legal
successor of the current state, which from a blocked state only a clear reading reaches, and
which from `awaitingReset` is never `limitReached`. -/
theorem onReading_committed
    {reading : Reading} (h : (m.onReading current reading).2 = .committed target) :
  (current = some .done ∧ target = .working ∧ reading.state = .working ∧ reading.clear = false
      ∧ reading.progress = true ∧ DONE_EXIT_PROGRESS_STREAK ≤ m.doneProgressStreak + 1)
    ∨ (transition current target = some target
        ∧ (current = some .done → reading.clear = false → target ≠ .working)
        ∧ (currentBlocked current = true → target = reading.state ∧ reading.clear = true)
        ∧ ¬ (current = some .awaitingReset ∧ target = .limitReached))
  := by
  rw [onReading] at h
  split at h
  · cases h
  · split at h
    · cases h
    · next hcalm =>
        have hsettle : current ≠ some .working → settle current reading = reading := by
          intro hcurrent
          rw [settle, if_neg (fun hs => hcurrent hs.1)]
        obtain ⟨hdone, rfl, hworking, hclear, hprogress, hstreak⟩
          | ⟨htransition, htarget, hresume, hsuppress⟩ := foldReading_committed h
        · left
          subst hdone
          rw [hsettle (by simp)] at hworking hclear hprogress
          simp only [noteClear, hclear, restartStreak] at hstreak
          exact ⟨rfl, rfl, hworking, hclear, hprogress, by simpa using hstreak⟩
        · right
          refine ⟨htransition, ?_, ?_, ?_⟩
          · rintro rfl hclear rfl
            rw [hsettle (by simp)] at htarget hresume
            exact hresume ⟨rfl, htarget.symm, hclear⟩
          · intro hblocked
            have hne : current ≠ some .working := by
              rintro rfl
              simp [currentBlocked, isBlocked] at hblocked
            rw [hsettle hne] at htarget hsuppress
            subst htarget
            refine ⟨rfl, ?_⟩
            obtain ⟨-, hs⟩ := (transition_eq_some_iff _ _ _).mp htransition
            have hdiff : some reading.state ≠ current := by
              rintro rfl
              exact (hs _ rfl).1 rfl
            simpa [suppressInputNeededExit, hblocked, hdiff] using hsuppress
          · rintro ⟨rfl, rfl⟩
            rw [hsettle (by simp)] at htarget
            exact hcalm ⟨rfl, htarget.symm⟩

/-- A reading that passed the gate is folded with the clearness the gate gives it. -/
theorem onPtyReadingCausal_committed
    {pty : PtyReading} {authority : HookAuthority} {supersedesDialog : Bool}
    (h : (m.onPtyReadingCausal current pty authority supersedesDialog).2 = .committed target) :
  gateOpen current pty authority supersedesDialog = true
    ∧ (m.onReading current (pty.reading (gatedClear current pty authority))).2
      = .committed target
  := by
  rw [onPtyReadingCausal] at h
  split at h
  · next hgate => exact ⟨hgate, h⟩
  · cases h

/-- Every state a reading commits is a legal successor of the current one, also when the
streak commits it without asking the table. -/
theorem onPtyReadingCausal_legal
    {pty : PtyReading} {authority : HookAuthority} {supersedesDialog : Bool}
    (h : (m.onPtyReadingCausal current pty authority supersedesDialog).2 = .committed target) :
  transition current target = some target
  := by
  obtain ⟨-, hreading⟩ := onPtyReadingCausal_committed h
  obtain ⟨rfl, rfl, -⟩ | ⟨hlegal, -⟩ := onReading_committed hreading
  · rfl
  · apply hlegal

/-! ### Legal histories -/

/-- The moves between states a history may contain. -/
def Legal (s t : AgentState) : Prop :=
  s ≠ t ∧ ¬ (s = .working ∧ t = .idle) ∧ ¬ (s = .done ∧ t = .idle) ∧ ∀ code, s ≠ .exited code

variable {s : AgentState}

theorem legal_of_transition {t : AgentState} (h : transition (some s) t = some t) :
  Legal s t
  := by
  obtain ⟨-, hs⟩ := (transition_eq_some_iff _ _ _).mp h
  obtain ⟨hne, hallowed⟩ := hs s rfl
  refine ⟨hne, ?_, ?_, ?_⟩
  · rintro ⟨rfl, rfl⟩
    cases hallowed
  · rintro ⟨rfl, rfl⟩
    cases hallowed
  · rintro code rfl
    cases hallowed

theorem target?_eq_some {outcome : Outcome} (h : Outcome.target? outcome = some target) :
  outcome = .committed target
  := by
  cases outcome with
  | committed t =>
    cases h
    rfl
  | unchanged => cases h
  | rejected => cases h
  | damped => cases h
  | gated => cases h

variable {a : Act} {l : Lifecycle}

/-- Every state an action asks to commit is a legal successor of the current one. -/
theorem offer_legal (h : (l.offer a).2 = some target) :
  transition l.current target = some target
  := by
  cases a with
  | direct t stored =>
    obtain ⟨rfl, -⟩ := (transition_eq_some_iff _ _ _).mp h
    apply h
  | markBooted => cases h
  | causal call => apply onPtyReadingCausal_legal (target?_eq_some h)
  | timed pty sinceLastHook supersedesDialog stored =>
    apply onPtyReadingCausal_legal (target?_eq_some h)

theorem committed_eq_some (h : l.committed a = some target) :
  a.stored = true ∧ (l.offer a).2 = some target
  := by
  rw [committed] at h
  split at h
  · next hstored => exact ⟨hstored, h⟩
  · cases h

/-- The states committed along a run, after the one the agent started in. -/
def history (start : Lifecycle) (os : List Obs) : List AgentState :=
  start.current.toList ++ os.filterMap Obs.committed

variable {os : List Obs}

/-- The history so far is legal and ends in the state cached for the agent. -/
theorem history_next {start : Lifecycle} (a : Act)
    (h : (history start os).IsChain Legal ∧ (history start os).getLast? = l.current) :
  (history start (os ++ machineOf.emit l a)).IsChain Legal
    ∧ (history start (os ++ machineOf.emit l a)).getLast? = (machineOf.next l a).current
  := by
  obtain ⟨hchain, hlast⟩ := h
  have hemit : machineOf.emit l a = [⟨l, a, l.committed a⟩] := rfl
  have hnext : (machineOf.next l a).current = (l.committed a).or l.current := rfl
  rw [hemit, hnext, history, List.filterMap_append, ← List.append_assoc, ← history]
  cases hc : l.committed a with
  | none => simpa [hc] using ⟨hchain, hlast⟩
  | some target =>
    have hlegal := offer_legal (committed_eq_some hc).2
    refine ⟨?_, by simp⟩
    apply List.IsChain.append hchain (List.isChain_singleton target)
    intro s hs t ht
    rw [hlast] at hs
    obtain rfl : t = target := by simpa using ht.symm
    rw [hs] at hlegal
    apply legal_of_transition hlegal

/-- Whatever the order of direct commits, boots and readings, the committed states never
repeat, never go from `working` or `done` to `idle`, and never leave an exit; and whatever a
reading commits, the table allows. -/
theorem lifecycle_legal :
  (∀ (start : Lifecycle) (acts : List Act),
      (history start (machineOf.trace start acts)).IsChain Legal
        ∧ (history start (machineOf.trace start acts)).getLast?
          = (machineOf.final start acts).current)
    ∧ (∀ (m : AgentStateMachine) (current : Option AgentState) (pty : PtyReading)
        (authority : HookAuthority) (supersedesDialog : Bool) (target : AgentState),
      (m.onPtyReadingCausal current pty authority supersedesDialog).2 = .committed target →
        transition current target = some target)
    ∧ (∀ (m : AgentStateMachine) (current : Option AgentState) (pty : PtyReading)
        (sinceLastHook : Option ℕ) (supersedesDialog : Bool) (target : AgentState),
      (m.onPtyReading current pty sinceLastHook supersedesDialog).2 = .committed target →
        transition current target = some target)
  := by
  refine ⟨?_, ?_, ?_⟩
  · intro start acts
    apply machineOf.invariant (P := fun _ _ => True)
      (I := fun l os => (history start os).IsChain Legal ∧ (history start os).getLast? = l.current)
    · cases hc : start.current with
      | none => simp [history, hc]
      | some s => simp [history, hc]
    · intro l os a _ h
      apply history_next a h
    · apply machineOf.along_of_forall
      intro _ _
      trivial
  · intro m current pty authority supersedesDialog target
    apply onPtyReadingCausal_legal
  · intro m current pty sinceLastHook supersedesDialog target
    apply onPtyReadingCausal_legal

/-! ### Blocked agents -/

/-- The reading affirms that the agent moved on: it is clear, or it is a `working` reading of
a screen newer than the latest hook, which shows the dialog superseded. -/
def Affirms (call : PtyCall) : Prop :=
  call.pty.clear = true
    ∨ (call.pty.state = .working ∧ call.authority = .ptyNewer ∧ call.supersedesDialog = true)

instance (call : PtyCall) : Decidable (Affirms call) :=
  inferInstanceAs (Decidable (_ ∨ _))

variable {call : PtyCall}

/-- The gate lets only blocked readings of a blocked agent through while the hook is newer. -/
theorem isBlocked_of_gateOpen (hs : isBlocked s = true)
    (hgate : gateOpen (some s) call.pty .hookNewer call.supersedesDialog = true) :
  isBlocked call.pty.state = true
  := by
  have hworking : some s ≠ some AgentState.working := by
    rintro ⟨⟩
    cases hs
  have hblocked : currentBlocked (some s) = true := by
    simpa [currentBlocked] using hs
  simpa [gateOpen, hooksGateAllowsCausal, hworking, hblocked] using hgate

/-- A reading that passed the gate as a clear one affirms that a blocked agent moved on. -/
theorem affirms_of_gateOpen (hs : isBlocked s = true)
    (hgate : gateOpen (some s) call.pty call.authority call.supersedesDialog = true)
    (hclear : gatedClear (some s) call.pty call.authority = true) :
  Affirms call
  := by
  by_cases hc : call.pty.clear = true
  · exact .inl hc
  · have hblocked : currentBlocked (some s) = true := by
      simpa [currentBlocked] using hs
    obtain ⟨hauthority, hworking⟩ :
        call.authority = .ptyNewer ∧ call.pty.state = .working := by
      simpa [gatedClear, hc, hblocked] using hclear
    have hne : some s ≠ some AgentState.working := by
      rintro ⟨⟩
      cases hs
    refine .inr ⟨hworking, hauthority, ?_⟩
    rw [hauthority] at hgate
    simpa [gateOpen, hooksGateAllowsCausal, hne, hblocked, hworking] using hgate

/-- What one reading does to a blocked agent. -/
structure BlockedStep (s : AgentState) (call : PtyCall) (after : Option AgentState) : Prop where
  /-- Only a reading that affirms the agent moved on changes the state at all. -/
  affirms : after ≠ some s → Affirms call
  /-- While the hook is newer, only a blocked reading changes the state. -/
  hookNewer : call.authority = .hookNewer → after ≠ some s → isBlocked call.pty.state = true
  /-- The state is the one before, or the one read. -/
  after_eq : after = some s ∨ after = some call.pty.state
  /-- A limit that is being waited out does not alert again. -/
  calm : s = .awaitingReset → after ≠ some .limitReached

theorem blockedStep (hs : isBlocked s = true) (hl : l.current = some s) (call : PtyCall) :
  BlockedStep s call (machineOf.next l (.causal call)).current
  := by
  have hafter : (machineOf.next l (.causal call)).current
      = (l.committed (.causal call)).or (some s) := by
    rw [← hl]
    rfl
  have hblocked : currentBlocked (some s) = true := by
    simpa [currentBlocked] using hs
  rw [hafter]
  cases hc : l.committed (.causal call) with
  | none =>
    constructor
    · simp
    · simp
    · simp
    · rintro rfl
      simp
  | some target =>
    have hoffer := target?_eq_some (committed_eq_some hc).2
    rw [hl] at hoffer
    obtain ⟨hgate, hreading⟩ := onPtyReadingCausal_committed hoffer
    obtain ⟨hdone, -⟩ | ⟨-, -, htarget, hcalm⟩ := onReading_committed hreading
    · cases hdone
      cases hs
    · obtain ⟨rfl, hclear⟩ := htarget hblocked
      constructor
      · intro _
        apply affirms_of_gateOpen hs hgate hclear
      · intro hauthority _
        rw [hauthority] at hgate
        apply isBlocked_of_gateOpen hs hgate
      · right
        rfl
      · rintro rfl heq
        exact hcalm ⟨rfl, by simpa using heq⟩

/-- The actions that offer a list of readings. -/
def readings (calls : List PtyCall) : List Act :=
  calls.map Act.causal

/-- Readings none of which affirms that a blocked agent moved on leave its state as it is. -/
theorem final_current_of_not_affirms (hs : isBlocked s = true) (hl : l.current = some s)
    {calls : List PtyCall} (hcalls : ∀ call ∈ calls, ¬ Affirms call) :
  (machineOf.final l (readings calls)).current = some s
  := by
  induction calls generalizing l with
  | nil => apply hl
  | cons call calls ih =>
    apply ih
    · by_contra hne
      exact hcalls call List.mem_cons_self ((blockedStep hs hl call).affirms hne)
    · intro call' hmem
      apply hcalls call' (List.mem_cons_of_mem _ hmem)

/-- Readings taken while the hook is newer keep a blocked agent blocked. -/
theorem final_blocked_of_hookNewer (hs : isBlocked s = true) (hl : l.current = some s)
    {calls : List PtyCall} (hcalls : ∀ call ∈ calls, call.authority = .hookNewer) :
  currentBlocked (machineOf.final l (readings calls)).current = true
  := by
  induction calls generalizing l s with
  | nil =>
    change currentBlocked l.current = true
    rw [hl]
    simpa [currentBlocked] using hs
  | cons call calls ih =>
    have hstep := blockedStep hs hl call
    have hrest : ∀ call' ∈ calls, call'.authority = .hookNewer := by
      intro call' hmem
      apply hcalls call' (List.mem_cons_of_mem _ hmem)
    by_cases hsame : (machineOf.next l (.causal call)).current = some s
    · apply ih hs hsame hrest
    · have hread := hstep.hookNewer (hcalls call List.mem_cons_self) hsame
      apply ih hread (hstep.after_eq.resolve_left hsame) hrest

/-- A blocked agent stays blocked without affirmative evidence.  At every point of a run of
readings where the agent is blocked: the next reading leaves the blocked states only if it is
clear, or a `working` reading newer than the hook whose dialog is superseded; while the hook is
newer only a blocked reading changes the state; an ambiguous reading changes nothing; and
`awaitingReset` does not become `limitReached`.  So no number of ambiguous readings changes the
state, and no number of readings older than the hook leaves the blocked states. -/
theorem blocked_needs_evidence
    (l : Lifecycle) (s : AgentState) (hs : isBlocked s = true) (hl : l.current = some s)
    (calls : List PtyCall) :
  (∀ (before : List PtyCall) (call : PtyCall) (rest : List PtyCall) (s' : AgentState),
      calls = before ++ call :: rest →
      (machineOf.final l (readings before)).current = some s' → isBlocked s' = true →
      let after := (machineOf.final l (readings (before ++ [call]))).current
      (currentBlocked after = false → Affirms call)
        ∧ (call.authority = .hookNewer → after ≠ some s' → isBlocked call.pty.state = true)
        ∧ (¬ Affirms call → after = some s')
        ∧ (s' = .awaitingReset → after ≠ some .limitReached))
    ∧ ((∀ call ∈ calls, ¬ Affirms call) →
        (machineOf.final l (readings calls)).current = some s)
    ∧ ((∀ call ∈ calls, call.authority = .hookNewer) →
        currentBlocked (machineOf.final l (readings calls)).current = true)
  := by
  refine ⟨?_, final_current_of_not_affirms hs hl, final_blocked_of_hookNewer hs hl⟩
  intro before call rest s' _ hcurrent hs' after
  have hstep := blockedStep hs' hcurrent call
  have hafter : after
      = (machineOf.next (machineOf.final l (readings before)) (.causal call)).current := by
    simp only [after, readings, List.map_append, Machine.final_append]
    rfl
  rw [hafter]
  refine ⟨?_, hstep.hookNewer, ?_, hstep.calm⟩
  · intro hleft
    apply hstep.affirms
    intro hsame
    rw [hsame] at hleft
    simp [currentBlocked, hs'] at hleft
  · intro hnot
    by_contra hne
    exact hnot (hstep.affirms hne)

/-- An agent parked on a prompt, read as working and then as limited, both ambiguously, and
then as limited while a hook is newer. -/
theorem blocked_needs_evidence_parked :
  let l : Lifecycle := ⟨⟨true, 0⟩, some .inputNeeded⟩
  let calls : List PtyCall :=
    [⟨⟨.working, false, true, .streaming, false⟩, .none, false, true⟩,
      ⟨⟨.limitReached, false, false, .streaming, false⟩, .hookNewer, false, true⟩]
  isBlocked .inputNeeded = true ∧ (machineOf.final l (readings calls)).current = some .inputNeeded
  := by
  intro l calls
  refine ⟨rfl, (blocked_needs_evidence l .inputNeeded rfl rfl calls).2.1 ?_⟩
  decide

/-! ### Leaving `done` on progress -/

/-- The step is a clear reading. -/
def Obs.clears (o : Obs) : Bool :=
  o.act.call?.any fun call => call.pty.clear

/-- The step is an ambiguous reading of a working agent. -/
def Obs.ambiguous (o : Obs) : Bool :=
  o.act.call?.any fun call => !call.pty.clear && decide (call.pty.state = .working)

/-- The step is an ambiguous reading of a working agent that made progress, and it passed the
gate. -/
def Obs.progresses (o : Obs) : Bool :=
  o.act.call?.any fun call =>
    !call.pty.clear && decide (call.pty.state = .working) && call.pty.progress
      && gateOpen o.before.current call.pty call.authority call.supersedesDialog

/-- The step is taken in `done` and is not a clear reading. -/
def Obs.restsInDone (o : Obs) : Bool :=
  decide (o.before.current = some .done) && !o.clears

/-- The step re-opens a finished turn: an ambiguous reading takes the agent from `done` to
`working`. -/
def Obs.resumes (o : Obs) : Bool :=
  decide (o.before.current = some .done) && o.ambiguous && decide (o.committed = some .working)

/-- The steps taken since the agent last entered `done`, from the last clear reading on. -/
def sinceDone (os : List Obs) : List Obs :=
  os.rtakeWhile Obs.restsInDone

/-- Every re-opening of a finished turn is the third progressing reading, or a later one, since
the agent last entered `done`, with no clear reading in between. -/
def StreaksInOneEpisode (os : List Obs) : Prop :=
  AtEach (fun before o => o.resumes = true →
    DONE_EXIT_PROGRESS_STREAK ≤ (sinceDone (before ++ [o])).countP Obs.progresses) os

/-- The action is a direct commit that enters `done`. -/
def entersDone (l : Lifecycle) : Act → Bool
  | .direct .done _ => decide (transition l.current .done = some .done)
  | _ => false

/-- The action is a clear reading of an agent that is `done`, and the gate suppresses it. -/
def suppressesClear (l : Lifecycle) (a : Act) : Bool :=
  decide (l.current = some .done) && a.call?.any fun call =>
    call.pty.clear && !gateOpen l.current call.pty call.authority call.supersedesDialog

/-- The step finds no streak left over: neither a direct commit that enters `done`, nor a clear
reading that the gate suppresses in `done`, meets a streak. -/
def FindsNoStreak (l : Lifecycle) (a : Act) : Prop :=
  (entersDone l a || suppressesClear l a) = true → l.machine.doneProgressStreak = 0

instance (l : Lifecycle) (a : Act) : Decidable (FindsNoStreak l a) :=
  inferInstanceAs (Decidable (_ → _))

/-- Two progressing readings in one `done`, hooks that open and finish a turn, and one more
progressing reading, which re-opens the second `done`. -/
def streakAcrossEpisodes : List Act :=
  let progressing : PtyCall := ⟨⟨.working, false, true, .streaming, false⟩, .none, false, true⟩
  [.causal progressing, .causal progressing, .direct .working true, .direct .done true,
    .causal progressing]

/-- The streak survives hooks that leave `done` and enter it again. -/
theorem streak_across_episodes :
  ¬ ∀ (state : AgentState) (acts : List Act),
      StreaksInOneEpisode (machineOf.trace (restored state) acts)
  := by
  intro h
  let os := machineOf.trace (restored .done) streakAcrossEpisodes
  have hos : os = os.take 4 ++ os.get ⟨4, by decide⟩ :: [] := by decide
  have hlen := h .done streakAcrossEpisodes _ _ _ hos (by decide)
  exact absurd hlen (by decide)

/-- Folding leaves the machine as it is, but for a progressing reading of a `done` agent, which
adds at most one to the streak. -/
theorem foldReading_machine
    (m : AgentStateMachine) (current : Option AgentState) (reading : Reading) :
  (m.foldReading current reading).1 = m
    ∨ (current = some .done ∧ reading.state = .working ∧ reading.clear = false
        ∧ reading.progress = true
        ∧ (m.foldReading current reading).1.doneProgressStreak ≤ m.doneProgressStreak + 1)
  := by
  rw [foldReading]
  split
  · left
    rfl
  · split
    · next hresume =>
        obtain ⟨hdone, hworking, hclear⟩ := hresume
        split
        · next hprogress =>
            right
            refine ⟨hdone, hworking, by simpa using hclear, hprogress, ?_⟩
            dsimp only
            split
            · apply Nat.zero_le
            · rfl
        · left
          rfl
    · left
      split
      · rfl
      · split <;> rfl

/-- What a reading makes of the streak of an agent that is `done`: a clear one restarts it, and
only a progressing one adds to it. -/
theorem onReading_streak_le (m : AgentStateMachine) (reading : Reading) :
  (m.onReading (some .done) reading).1.doneProgressStreak
    ≤ if reading.clear then 0
      else if reading.state = .working ∧ reading.progress = true then m.doneProgressStreak + 1
      else m.doneProgressStreak
  := by
  have hsettle : settle (some .done) reading = reading := by
    rw [settle, if_neg (by simp)]
  have hrestart : m.restartStreak (some .done) = m := by simp [restartStreak]
  rw [onReading, if_neg (by simp), if_neg (by simp), hsettle, hrestart]
  obtain hsame | ⟨-, hworking, hclear, hprogress, hle⟩ :=
    foldReading_machine (m.noteClear reading) (some .done) reading
  · rw [hsame, noteClear]
    split
    · rfl
    · split
      · apply Nat.le_succ
      · rfl
  · have hnote : m.noteClear reading = m := by simp [noteClear, hclear]
    rw [hnote] at hle ⊢
    simpa [hclear, hworking, hprogress] using hle

/-- Outside `done` a reading leaves no streak. -/
theorem onReading_streak_of_ne
    (m : AgentStateMachine) (h : current ≠ some .done) (reading : Reading) :
  (m.onReading current reading).1.doneProgressStreak = 0
  := by
  have hrestart : (m.restartStreak current).doneProgressStreak = 0 := by
    rw [restartStreak, if_pos h]
  rw [onReading]
  split
  · apply hrestart
  · split
    · apply hrestart
    · obtain hsame | ⟨hdone, -⟩ := foldReading_machine
        ((m.restartStreak current).noteClear reading) current (settle current reading)
      · rw [hsame, noteClear]
        split
        · rfl
        · apply hrestart
      · exact absurd hdone h

/-! ### The streak of a run -/

/-- The streak of an agent that is `done` is made of progressing readings taken since it last
entered `done`. -/
def StreakCounted (l : Lifecycle) (os : List Obs) : Prop :=
  l.current = some .done →
    l.machine.doneProgressStreak ≤ (sinceDone os).countP Obs.progresses

/-- The step an action takes, as observed. -/
def obs (l : Lifecycle) (a : Act) : Obs := ⟨l, a, l.committed a⟩

theorem sinceDone_concat (os : List Obs) (o : Obs) :
  sinceDone (os ++ [o]) = if o.restsInDone then sinceDone os ++ [o] else []
  := List.rtakeWhile_concat _ _ _

/-- The offer an action makes is that of the reading it stands for. -/
theorem offer_of_call (h : a.call? = some call) (l : Lifecycle) :
  l.offer a = l.offer (.causal call)
  := by
  cases a with
  | direct target stored => cases h
  | markBooted => cases h
  | causal call' =>
    cases h
    rfl
  | timed pty sinceLastHook supersedesDialog stored =>
    cases h
    rfl

/-- An action that offers no reading leaves the streak as it is. -/
theorem offer_streak_of_no_call (h : a.call? = none) (l : Lifecycle) :
  (l.offer a).1.doneProgressStreak = l.machine.doneProgressStreak
  := by
  cases a with
  | direct target stored => rfl
  | markBooted => rfl
  | causal call => cases h
  | timed pty sinceLastHook supersedesDialog stored => cases h

/-- A reading that passes the gate moves the machine as `onReading` does. -/
theorem offer_machine_of_gateOpen (h : a.call? = some call)
    (hgate : gateOpen l.current call.pty call.authority call.supersedesDialog = true) :
  (l.offer a).1 = (l.machine.onReading l.current
    (call.pty.reading (gatedClear l.current call.pty call.authority))).1
  := by
  rw [offer_of_call h, offer, onPtyReadingCausal, if_pos hgate]

/-- A reading the gate suppresses moves nothing. -/
theorem offer_of_gateClosed (h : a.call? = some call)
    (hgate : gateOpen l.current call.pty call.authority call.supersedesDialog = false) :
  l.offer a = (l.machine, none)
  := by
  rw [offer_of_call h, offer, onPtyReadingCausal, if_neg (by simp [hgate])]
  rfl

theorem gatedClear_done (pty : PtyReading) (authority : HookAuthority) :
  gatedClear (some .done) pty authority = pty.clear
  := by
  simp [gatedClear, currentBlocked, isBlocked]

/-- Within one `done`, a step that is not a clear reading adds itself to the count if it is a
progressing reading. -/
theorem countP_sinceDone_obs
    (os : List Obs) (hl : l.current = some .done) (hclears : (obs l a).clears = false) :
  (sinceDone (os ++ [obs l a])).countP Obs.progresses
    = (sinceDone os).countP Obs.progresses + if (obs l a).progresses then 1 else 0
  := by
  have hrests : (obs l a).restsInDone = true := by
    simp only [Obs.restsInDone, hclears, Bool.not_false, Bool.and_true, decide_eq_true_eq]
    apply hl
  rw [sinceDone_concat, if_pos hrests, List.countP_append, List.countP_singleton]

/-- While the agent is `done`, its streak stays made of readings of this `done`. -/
theorem streak_le_of_done
    (hl : l.current = some .done) (hfinds : FindsNoStreak l a) (h : StreakCounted l os) :
  (l.offer a).1.doneProgressStreak
    ≤ (sinceDone (os ++ [obs l a])).countP Obs.progresses
  := by
  have hcounted := h hl
  cases hcall : a.call? with
  | none =>
    have hclears : (obs l a).clears = false := by simp [Obs.clears, obs, hcall]
    rw [countP_sinceDone_obs os hl hclears, offer_streak_of_no_call hcall]
    apply hcounted.trans (Nat.le_add_right _ _)
  | some call =>
    have hclears : (obs l a).clears = call.pty.clear := by simp [Obs.clears, obs, hcall]
    cases hgate : gateOpen l.current call.pty call.authority call.supersedesDialog with
    | false =>
      rw [offer_of_gateClosed hcall hgate]
      cases hclear : call.pty.clear with
      | true =>
        -- a clear reading the gate suppresses does not restart the streak
        have hsuppresses : suppressesClear l a = true := by
          simp [suppressesClear, hl, hcall, hclear, hl ▸ hgate]
        rw [hfinds (by rw [hsuppresses, Bool.or_true])]
        apply Nat.zero_le
      | false =>
        rw [countP_sinceDone_obs os hl (hclears.trans hclear)]
        apply hcounted.trans (Nat.le_add_right _ _)
    | true =>
      have hle := onReading_streak_le l.machine (call.pty.reading call.pty.clear)
      rw [offer_machine_of_gateOpen hcall hgate, hl, gatedClear_done]
      apply hle.trans
      cases hclear : call.pty.clear with
      | true =>
        simp only [PtyReading.reading, if_true]
        apply Nat.zero_le
      | false =>
        rw [countP_sinceDone_obs os hl (hclears.trans hclear)]
        change (if call.pty.state = .working ∧ call.pty.progress = true then _ else _) ≤ _
        by_cases hprogress : call.pty.state = .working ∧ call.pty.progress = true
        · have hp : (obs l a).progresses = true := by
            simp [Obs.progresses, obs, hcall, hclear, hprogress, hgate]
          rw [if_pos hprogress, if_pos hp]
          apply Nat.add_le_add_right hcounted
        · rw [if_neg hprogress]
          apply hcounted.trans (Nat.le_add_right _ _)

/-- An agent that enters `done` enters it without a streak. -/
theorem streak_of_enters_done
    (hl : l.current ≠ some .done) (hfinds : FindsNoStreak l a) (hc : l.committed a = some .done) :
  (l.offer a).1.doneProgressStreak = 0
  := by
  have hoffer := (committed_eq_some hc).2
  cases hcall : a.call? with
  | none =>
    rw [offer_streak_of_no_call hcall]
    cases a with
    | direct target stored =>
      obtain ⟨rfl, -⟩ := (transition_eq_some_iff _ _ _).mp hoffer
      have henters : entersDone l (.direct .done stored) = true := decide_eq_true hoffer
      apply hfinds (by rw [henters, Bool.true_or])
    | markBooted => cases hoffer
    | causal call => cases hcall
    | timed pty sinceLastHook supersedesDialog stored => cases hcall
  | some call =>
    cases hgate : gateOpen l.current call.pty call.authority call.supersedesDialog with
    | false =>
      rw [offer_of_gateClosed hcall hgate] at hoffer
      cases hoffer
    | true =>
      rw [offer_machine_of_gateOpen hcall hgate]
      apply onReading_streak_of_ne _ hl

/-- A reading that re-opens a finished turn completes a streak of this `done`. -/
theorem resumes_counted (h : StreakCounted l os) (hresumes : (obs l a).resumes = true) :
  DONE_EXIT_PROGRESS_STREAK ≤ (sinceDone (os ++ [obs l a])).countP Obs.progresses
  := by
  simp only [Obs.resumes, Bool.and_eq_true, decide_eq_true_eq] at hresumes
  obtain ⟨⟨hl, hambiguous⟩, hcommitted⟩ := hresumes
  obtain ⟨call, hcall, hreading⟩ := (Option.any_eq_true _ _).mp hambiguous
  simp only [Bool.and_eq_true, Bool.not_eq_true', decide_eq_true_eq] at hreading
  obtain ⟨hclear, hworking⟩ := hreading
  have hoffer := (committed_eq_some hcommitted).2
  have hl' : l.current = some .done := hl
  have hcall' : a.call? = some call := hcall
  rw [offer_of_call hcall'] at hoffer
  obtain ⟨hgate, hread⟩ := onPtyReadingCausal_committed (target?_eq_some hoffer)
  rw [hl', gatedClear_done] at hread
  obtain ⟨-, -, -, -, hprogress, hstreak⟩ | ⟨-, hnot, -⟩ := onReading_committed hread
  · have hp : (obs l a).progresses = true := by
      have hprogress' : call.pty.progress = true := hprogress
      simp [Obs.progresses, obs, hcall', hclear, hworking, hgate, hprogress']
    have hclears : (obs l a).clears = false := by
      simp [Obs.clears, obs, hcall', hclear]
    rw [countP_sinceDone_obs os hl' hclears, if_pos hp]
    apply hstreak.trans
    apply Nat.add_le_add_right (h hl')
  · exact absurd rfl (hnot rfl hclear)

/-- A step that finds no streak left over keeps every streak within one `done`. -/
theorem streaks_next
    (a : Act) (hfinds : FindsNoStreak l a) (h : StreaksInOneEpisode os ∧ StreakCounted l os) :
  StreaksInOneEpisode (os ++ machineOf.emit l a)
    ∧ StreakCounted (machineOf.next l a) (os ++ machineOf.emit l a)
  := by
  obtain ⟨hstreaks, hcounted⟩ := h
  have hemit : machineOf.emit l a = [obs l a] := rfl
  rw [hemit]
  constructor
  · exact atEach_concat.mpr ⟨hstreaks, resumes_counted hcounted⟩
  · intro hnext
    change (l.offer a).1.doneProgressStreak ≤ _
    by_cases hl : l.current = some .done
    · apply streak_le_of_done hl hfinds hcounted
    · have hc : l.committed a = some .done := by
        change (l.committed a).or l.current = some .done at hnext
        cases hc : l.committed a with
        | none =>
          rw [hc] at hnext
          exact absurd hnext hl
        | some target =>
          rw [hc] at hnext
          apply hnext
      rw [streak_of_enters_done hl hfinds hc]
      apply Nat.zero_le

/-- In every run in which no direct commit enters `done`, and no clear reading is suppressed in
`done`, while a streak is left over, an agent leaves `done` on ambiguous readings only after
three progressing ones since it entered `done`, with no clear reading in between. -/
theorem done_streak_in_one_episode
    (start : Lifecycle) (hstart : start.machine.doneProgressStreak = 0) (acts : List Act)
    (hacts : machineOf.Along FindsNoStreak start acts) :
  StreaksInOneEpisode (machineOf.trace start acts)
  := by
  have h := machineOf.invariant (P := FindsNoStreak)
    (I := fun l os => StreaksInOneEpisode os ∧ StreakCounted l os)
    ?_ ?_ hacts
  · apply h.1
  · refine ⟨atEach_nil _, ?_⟩
    intro _
    rw [hstart]
    apply Nat.zero_le
  · intro l os a hfinds h
    apply streaks_next a hfinds h

/-- Three progressing readings of a `done` agent, with a hook opening and finishing a turn before
them. -/
theorem done_streak_in_one_episode_resumed :
  let progressing : PtyCall := ⟨⟨.working, false, true, .streaming, false⟩, .none, false, true⟩
  let acts : List Act := [.direct .working true, .direct .done true, .causal progressing,
    .causal progressing, .causal progressing]
  StreaksInOneEpisode (machineOf.trace (restored .done) acts)
    ∧ (machineOf.final (restored .done) acts).current = some .working
  := by
  intro progressing acts
  exact ⟨done_streak_in_one_episode (restored .done) rfl acts (by decide), by decide⟩

end Lifecycle

end Lazybox
