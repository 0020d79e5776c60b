import Lazybox.Agents.StateMachine
import Lazybox.Ipc.Protocol
import Lazybox.Library.Run
import Mathlib.Data.Finset.Basic

/-!
# The wait on a usage limit

With the policy on, the prompt an agent shows at its usage limit is accepted, and the agent's
terminal is kept until the wait clears, when the agent is told to continue.  The terminals that are
kept are the only memory.  What the policy, the registries and the recovery answer may change
between any two events.

A limit which is reached again while the policy is off does not end the earlier wait.  Its terminal
is still kept, so that a block which the user handles is told to continue once the policy is back
on.
-/

namespace Lazybox.AutoWait

inductive TerminalKind where
  | agent (id : String)
  | shell
  | logTail (path : String)
deriving DecidableEq, Repr

/-- What is asked of an agent. -/
structure Agent where
  supportsUsageLimitWait : Bool
deriving DecidableEq, Repr

/-- What is received from the bus. -/
inductive Received where
  | agentState (terminalId : TerminalId) (state : AgentState)
  | terminalReplaced (oldTerminalId terminalId : TerminalId)
  | terminalExited (terminalId : TerminalId)
  | other
  | lagged
deriving DecidableEq, Repr

/-- What is answered while an event is handled: whether the policy is on, the kind of the event's
terminal, and whether its agent is in the detour of an expired login. -/
structure Answers where
  enabled : Bool
  kind : Option TerminalKind
  authPending : Bool
deriving DecidableEq, Repr

inductive Response where
  | nothing
  | press (terminalId : TerminalId)
  | resume (terminalId : TerminalId)
deriving DecidableEq, Repr

section Watcher

variable (agents : String → Option Agent)

def supportsWait : Option TerminalKind → Bool
  | some (.agent id) => (agents id).any Agent.supportsUsageLimitWait
  | some .shell | some (.logTail _) | none => false

def wantsResumeNudge (state : AgentState) : Bool :=
  state = .idle ∨ state = .done

/-- The body of the loop of `run`. -/
def onReceived (pendingResume : Finset TerminalId) (answers : Answers) :
    Received → Finset TerminalId × Response
  | .agentState terminalId .limitReached =>
      if answers.enabled ∧ supportsWait agents answers.kind then
        (insert terminalId pendingResume, .press terminalId)
      else (pendingResume, .nothing)
  | .agentState _ .awaitingReset => (pendingResume, .nothing)
  | .agentState terminalId state =>
      if terminalId ∉ pendingResume then (pendingResume, .nothing)
      else if answers.authPending then (pendingResume, .nothing)
      else if wantsResumeNudge state then
        (pendingResume.erase terminalId,
          if answers.enabled then .resume terminalId else .nothing)
      else
        match state with
        | .working | .exited _ => (pendingResume.erase terminalId, .nothing)
        | _ => (pendingResume, .nothing)
  | .terminalReplaced oldTerminalId terminalId =>
      (if oldTerminalId ∈ pendingResume then insert terminalId (pendingResume.erase oldTerminalId)
        else pendingResume, .nothing)
  | .terminalExited terminalId => (pendingResume.erase terminalId, .nothing)
  | .other | .lagged => (pendingResume, .nothing)

/-! ### Runs -/

/-- Something that was received, with the answers and what was done. -/
structure Entry where
  received : Received
  answers : Answers
  response : Response
deriving DecidableEq, Repr

/-- The terminals that are kept, and what was received, the latest first. -/
structure Watch where
  pendingResume : Finset TerminalId
  log : List Entry

def Watch.new : Watch := ⟨∅, []⟩

def Watch.next (w : Watch) (event : Received × Answers) : Watch :=
  let (pendingResume, response) := onReceived agents w.pendingResume event.2 event.1
  ⟨pendingResume, ⟨event.1, event.2, response⟩ :: w.log⟩

def autoWait : Machine Watch (Received × Answers) Empty :=
  ⟨fun w event => (w.next agents event, [])⟩

end Watcher

/-! ### What was pressed -/

/-- What was received of the terminals, and before their replacements of those they replaced, the
latest first. -/
def story : List Entry → Finset TerminalId → List Entry
  | [], _ => []
  | entry :: log, ts =>
      match entry.received with
      | .agentState t _ | .terminalExited t =>
          if t ∈ ts then entry :: story log ts else story log ts
      | .terminalReplaced old t => story log (if t ∈ ts then insert old ts else ts)
      | .other | .lagged => story log ts

def Received.reachesLimit : Received → Bool
  | .agentState _ .limitReached => true
  | .agentState _ _ | .terminalReplaced _ _ | .terminalExited _ | .other | .lagged => false

/-- The agent works, or it is gone. -/
def Entry.clears (entry : Entry) : Bool :=
  match entry.received with
  | .agentState _ .working | .agentState _ (.exited _) => !entry.answers.authPending
  | .terminalExited _ => true
  | .agentState _ _ | .terminalReplaced _ _ | .other | .lagged => false

def Response.resumes : Response → Bool
  | resume _ => true
  | nothing | press _ => false

def Response.presses : Response → Bool
  | press _ => true
  | nothing | resume _ => false

/-- The latest limit of a story was pressed, and the wait was not over since. -/
def Waits (entries : List Entry) : Prop :=
  ∃ since limit before, entries = since ++ limit :: before
    ∧ limit.received.reachesLimit = true ∧ limit.response.presses = true
    ∧ ∀ entry ∈ since, entry.received.reachesLimit = false ∧ entry.clears = false
      ∧ entry.response.resumes = false

/-- Whatever is received next, an agent is told to continue with the policy on, outside the detour
of a login, and in a wait that was pressed. -/
def ResumesPressed (agents : String → Option Agent) (w : Watch) : Prop :=
  ∀ received answers t, (onReceived agents w.pendingResume answers received).2 = .resume t →
    answers.enabled = true ∧ answers.authPending = false ∧ Waits (story w.log {t})

/-- A limit which is reached on a terminal that is kept is pressed, and where one of a terminal and
its replacement is kept, the latest limit of both was pressed in a wait that is not over. -/
def KeepsPressed (agents : String → Option Agent) (w : Watch) : Received × Answers → Prop
  | (.agentState t .limitReached, answers) =>
      t ∈ w.pendingResume → answers.enabled = true ∧ supportsWait agents answers.kind = true
  | (.terminalReplaced old t, _) =>
      old ∈ w.pendingResume ∨ t ∈ w.pendingResume → Waits (story w.log {old, t})
  | (.agentState _ _, _) | (.terminalExited _, _) | (.other, _) | (.lagged, _) => True

/-! ### Stories -/

theorem waits_cons (entry : Entry) (entries : List Entry) :
  Waits (entry :: entries) ↔
    (entry.received.reachesLimit = true ∧ entry.response.presses = true)
      ∨ (entry.received.reachesLimit = false ∧ entry.clears = false
          ∧ entry.response.resumes = false ∧ Waits entries)
  := by
  constructor
  · rintro ⟨since, limit, before, h, hlimit, hpress, hsince⟩
    cases since with
    | nil =>
      obtain ⟨rfl, rfl⟩ := List.cons.inj h
      left
      exact ⟨hlimit, hpress⟩
    | cons first since =>
      obtain ⟨rfl, rfl⟩ := List.cons.inj h
      obtain ⟨hreach, hclear, hresume⟩ := hsince _ List.mem_cons_self
      right
      use hreach, hclear, hresume, since, limit, before
      use rfl, hlimit, hpress
      intro later hlater
      apply hsince later (List.mem_cons_of_mem _ hlater)
  · rintro (⟨hlimit, hpress⟩ | ⟨hreach, hclear, hresume, since, limit, before, rfl, hlimit,
      hpress, hsince⟩)
    · use [], entry, entries
      simp [hlimit, hpress]
    · use entry :: since, limit, before
      use rfl, hlimit, hpress
      intro later hlater
      obtain rfl | hlater := List.mem_cons.mp hlater
      · exact ⟨hreach, hclear, hresume⟩
      · apply hsince later hlater

def Received.terminals : Received → List TerminalId
  | .agentState t _ | .terminalExited t => [t]
  | .terminalReplaced old t => [old, t]
  | .other | .lagged => []

section Steps

variable {agents : String → Option Agent} {w : Watch}

/-- Every terminal that is kept is in a wait that was pressed. -/
def Sound (w : Watch) : Prop :=
  ∀ t ∈ w.pendingResume, Waits (story w.log {t})

/-- An event of one terminal. -/
theorem sound_next_iff
    (sound : Sound w) {received : Received} {answers : Answers} {t : TerminalId}
    (own : ∀ response log ts, story (⟨received, answers, response⟩ :: log) ts
      = if t ∈ ts then ⟨received, answers, response⟩ :: story log ts else story log ts)
    {response : Response} {pendingResume : Finset TerminalId}
    (h : onReceived agents w.pendingResume answers received = (pendingResume, response))
    (others : ∀ t' ∈ pendingResume, t' ≠ t → t' ∈ w.pendingResume) :
  Sound (w.next agents (received, answers))
    ↔ (t ∈ pendingResume → Waits (⟨received, answers, response⟩ :: story w.log {t}))
  := by
  simp only [Sound, Watch.next, h, own, Finset.mem_singleton]
  constructor
  · intro hsound ht
    simpa using hsound t ht
  · intro hown t' ht'
    obtain rfl | hne := eq_or_ne t t'
    · simpa using hown ht'
    · rw [if_neg hne]
      apply sound t' (others t' ht' hne.symm)

/-- An event which is not a mark of its terminal, and leaves what is kept. -/
theorem sound_next_quiet
    (sound : Sound w) {received : Received} {answers : Answers} {t : TerminalId}
    (own : ∀ response log ts, story (⟨received, answers, response⟩ :: log) ts
      = if t ∈ ts then ⟨received, answers, response⟩ :: story log ts else story log ts)
    (h : onReceived agents w.pendingResume answers received = (w.pendingResume, .nothing))
    (hreach : received.reachesLimit = false)
    (hclear : t ∈ w.pendingResume → Entry.clears ⟨received, answers, .nothing⟩ = false) :
  Sound (w.next agents (received, answers))
  := by
  rw [sound_next_iff sound own h fun t' ht' _ => ht']
  intro ht
  rw [waits_cons]
  right
  exact ⟨hreach, hclear ht, rfl, sound t ht⟩

/-- An event after which its terminal is not kept. -/
theorem sound_next_erase
    (sound : Sound w) {received : Received} {answers : Answers} {t : TerminalId}
    (own : ∀ response log ts, story (⟨received, answers, response⟩ :: log) ts
      = if t ∈ ts then ⟨received, answers, response⟩ :: story log ts else story log ts)
    {response : Response}
    (h : onReceived agents w.pendingResume answers received
      = (w.pendingResume.erase t, response)) :
  Sound (w.next agents (received, answers))
  := by
  rw [sound_next_iff sound own h fun t' ht' _ => Finset.mem_of_mem_erase ht']
  intro ht
  simp at ht

theorem sound_reachesLimit_iff (sound : Sound w) (answers : Answers) (t : TerminalId) :
  Sound (w.next agents (.agentState t .limitReached, answers))
    ↔ KeepsPressed agents w (.agentState t .limitReached, answers)
  := by
  by_cases hpress : answers.enabled = true ∧ supportsWait agents answers.kind = true
  · have h : onReceived agents w.pendingResume answers (.agentState t .limitReached)
        = (insert t w.pendingResume, .press t) := if_pos hpress
    rw [sound_next_iff sound (fun _ _ _ => rfl) h
      fun t' ht' hne => Finset.mem_of_mem_insert_of_ne ht' hne]
    constructor
    · intro _ _
      exact hpress
    · intro _ _
      rw [waits_cons]
      left
      exact ⟨rfl, rfl⟩
  · have h : onReceived agents w.pendingResume answers (.agentState t .limitReached)
        = (w.pendingResume, .nothing) := if_neg hpress
    rw [sound_next_iff sound (fun _ _ _ => rfl) h fun t' ht' _ => ht']
    simp [waits_cons, KeepsPressed, hpress, Received.reachesLimit, Response.presses]

theorem sound_terminalReplaced_iff (sound : Sound w) (answers : Answers) (old t : TerminalId) :
  Sound (w.next agents (.terminalReplaced old t, answers))
    ↔ KeepsPressed agents w (.terminalReplaced old t, answers)
  := by
  have hkept (t') : t' ∈ (w.next agents (.terminalReplaced old t, answers)).pendingResume
      → t' = t ∨ t' ∈ w.pendingResume := by
    simp only [Watch.next, onReceived]
    split_ifs
    · rw [Finset.mem_insert, Finset.mem_erase]
      tauto
    · exact .inr
  have hnew : t ∈ (w.next agents (.terminalReplaced old t, answers)).pendingResume
      ↔ old ∈ w.pendingResume ∨ t ∈ w.pendingResume := by
    simp only [Watch.next, onReceived]
    split_ifs with hold
    · simp [hold]
    · simp [hold]
  have hstory (t') : story (w.next agents (.terminalReplaced old t, answers)).log {t'}
      = story w.log (if t = t' then {old, t} else {t'}) := by
    simp only [Watch.next, onReceived, story, Finset.mem_singleton]
    split_ifs with heq
    · rw [heq]
    · rfl
  rw [KeepsPressed, ← hnew]
  constructor
  · intro hsound ht
    have hwaits := hsound t ht
    rwa [hstory, if_pos rfl] at hwaits
  · intro hjoin t' ht'
    rw [hstory]
    obtain rfl | hne := eq_or_ne t t'
    · rw [if_pos rfl]
      apply hjoin ht'
    · rw [if_neg hne]
      apply sound t' ((hkept t' ht').resolve_left hne.symm)

variable {state : AgentState}

/-- What ends the wait of a terminal, outside the detour of a login. -/
theorem onReceived_ends {answers : Answers} {t : TerminalId} (ht : t ∈ w.pendingResume)
    (hauth : answers.authPending = false)
    (hends : state = .idle ∨ state = .done ∨ state = .working ∨ ∃ code, state = .exited code) :
  ∃ response, onReceived agents w.pendingResume answers (.agentState t state)
    = (w.pendingResume.erase t, response)
  := by
  obtain rfl | rfl | rfl | ⟨code, rfl⟩ := hends <;>
    simp [onReceived, ht, hauth, wantsResumeNudge]

/-- Every other reading leaves what is kept. -/
theorem onReceived_holds
    {answers : Answers} {t : TerminalId} (hlimit : state ≠ .limitReached)
    (hholds : t ∈ w.pendingResume → answers.authPending = false →
      ¬(state = .idle ∨ state = .done ∨ state = .working ∨ ∃ code, state = .exited code)) :
  onReceived agents w.pendingResume answers (.agentState t state) = (w.pendingResume, .nothing)
  := by
  by_cases ht : t ∈ w.pendingResume
  · cases hauth : answers.authPending with
    | true => cases state <;> simp_all [onReceived]
    | false =>
      have hends := hholds ht hauth
      cases state <;> simp_all [onReceived, wantsResumeNudge]
  · cases state <;> simp_all [onReceived]

/-- A reading other than that the limit is reached. -/
theorem sound_reading
    (sound : Sound w) (answers : Answers) (t : TerminalId) (hlimit : state ≠ .limitReached) :
  Sound (w.next agents (.agentState t state, answers))
  := by
  by_cases hends : t ∈ w.pendingResume ∧ answers.authPending = false
    ∧ (state = .idle ∨ state = .done ∨ state = .working ∨ ∃ code, state = .exited code)
  · obtain ⟨ht, hauth, hends⟩ := hends
    obtain ⟨response, h⟩ := @onReceived_ends agents _ _ _ _ ht hauth hends
    apply sound_next_erase sound (fun _ _ _ => rfl) h
  · have hholds := fun ht hauth hstate => hends ⟨ht, hauth, hstate⟩
    apply sound_next_quiet sound (fun _ _ _ => rfl) (onReceived_holds hlimit hholds)
    · cases state <;> simp_all [Received.reachesLimit]
    · intro ht
      cases hauth : answers.authPending with
      | true => cases state <;> simp [Entry.clears, hauth]
      | false =>
        have hstate := hholds ht hauth
        cases state <;> simp_all [Entry.clears]

theorem sound_next (sound : Sound w) (event : Received × Answers) :
  Sound (w.next agents event) ↔ KeepsPressed agents w event
  := by
  obtain ⟨received, answers⟩ := event
  cases received with
  | agentState t state =>
    by_cases hlimit : state = .limitReached
    · subst hlimit
      apply sound_reachesLimit_iff sound
    · simp only [sound_reading sound answers t hlimit, true_iff]
      cases state <;> trivial
  | terminalReplaced old t => apply sound_terminalReplaced_iff sound
  | terminalExited t =>
    simp only [KeepsPressed, iff_true]
    apply @sound_next_erase _ _ sound _ _ t (fun _ _ _ => rfl) _ rfl
  | other | lagged =>
    simp only [KeepsPressed, iff_true]
    apply sound

theorem sound_new :
  Sound Watch.new
  := by
  intro t ht
  simp [Watch.new] at ht

/-- A resume is made of a terminal that is kept. -/
theorem of_resumes {answers : Answers} {received : Received} {t : TerminalId}
    (h : (onReceived agents w.pendingResume answers received).2 = .resume t) :
  answers.enabled = true ∧ answers.authPending = false ∧ t ∈ w.pendingResume
  := by
  cases received with
  | agentState t' state =>
    cases state <;> simp only [onReceived] at h <;> grind
  | terminalReplaced old t' => simp [onReceived] at h
  | terminalExited t' => simp [onReceived] at h
  | other | lagged => simp [onReceived] at h

/-- What is kept is resumed when it comes to rest. -/
theorem resumesPressed_iff (w : Watch) :
  ResumesPressed agents w ↔ Sound w
  := by
  constructor
  · intro h t ht
    have hresume : (onReceived agents w.pendingResume ⟨true, none, false⟩ (.agentState t .idle)).2
        = .resume t := by simp [onReceived, ht, wantsResumeNudge]
    obtain ⟨-, -, hwaits⟩ := h _ _ _ hresume
    apply hwaits
  · intro sound received answers t h
    obtain ⟨henabled, hauth, ht⟩ := of_resumes h
    exact ⟨henabled, hauth, sound t ht⟩

end Steps

/-- A wait is resumed when it was pressed, exactly where no limit goes without its press. -/
theorem resumes_pressed_iff (agents : String → Option Agent) (events : List (Received × Answers)) :
  (∀ before after, events = before ++ after →
      ResumesPressed agents ((autoWait agents).final .new before))
    ↔ (autoWait agents).Along (KeepsPressed agents) .new events
  := by
  simp only [resumesPressed_iff]
  apply (autoWait agents).forall_reached_iff (J := fun _ => True) sound_new trivial
  · intro _ _ _ h
    exact h
  · intro w event _ _ sound
    apply sound_next sound
  · apply (autoWait agents).along_of_forall fun _ _ => trivial

/-- The policy is off when the replacement of a terminal that is kept is at the limit again. -/
theorem resumed_unpressed :
  ¬∀ (agents : String → Option Agent) (events : List (Received × Answers)),
    ∀ before after, events = before ++ after →
      ResumesPressed agents ((autoWait agents).final .new before)
  := by
  intro h
  let agents : String → Option Agent := fun _ => some ⟨true⟩
  let on : Answers := ⟨true, some (.agent "claude"), false⟩
  let events : List (Received × Answers) :=
    [(.agentState ⟨1⟩ .limitReached, on), (.agentState ⟨1⟩ .awaitingReset, on),
      (.terminalReplaced ⟨1⟩ ⟨2⟩, on),
      (.agentState ⟨2⟩ .limitReached, { on with enabled := false })]
  obtain ⟨-, -, hwaits⟩ := h agents events events [] rfl (.agentState ⟨2⟩ .idle) on ⟨2⟩ rfl
  have hstory : story ((autoWait agents).final .new events).log {⟨2⟩}
      = [⟨.agentState ⟨2⟩ .limitReached, { on with enabled := false }, .nothing⟩,
        ⟨.agentState ⟨1⟩ .awaitingReset, on, .nothing⟩,
        ⟨.agentState ⟨1⟩ .limitReached, on, .press ⟨1⟩⟩] := rfl
  rw [hstory, waits_cons] at hwaits
  simp [Received.reachesLimit, Response.presses] at hwaits

end Lazybox.AutoWait
