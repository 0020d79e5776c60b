import Lazybox.EventForward.State
import Lazybox.Library.Run

/-!
# Runs of an event forwarder

A forwarder routes raw events and delivers buffered items, in any order, until its connection
breaks.  What routing one event and delivering one item can do is said once here, by `Routed` and
`Delivered`.
-/

namespace Lazybox

/-- The replays an event carries: terminals, and the sequence numbers they are replayed through. -/
def Event.replays {π : Type} : Event π → List (TerminalId × ℕ)
  | snapshot terminals _ =>
      (terminals.filter (·.replayAvailable)).map fun t => (t.terminalId, t.lastSeq)
  | terminalResync terminalId _ seq _ | agentAuthReplay terminalId seq _ => [(terminalId, seq)]
  | _ => []

/-- The terminal whose exit an event reports. -/
def Event.exited? {π : Type} : Event π → Option TerminalId
  | terminalExited terminalId _ => some terminalId
  | _ => none

namespace ForwardState

variable {π : Type}

/-! ### What the operations leave alone -/

/-- The queue of lossless events and its counts are the same. -/
structure SameQueue (s s' : ForwardState π) : Prop where
  pending : s'.pending = s.pending
  streamRefs : s'.pendingStreamRefs = s.pendingStreamRefs
  globalRefs : s'.pendingGlobalRefs = s.pendingGlobalRefs

/-- What is owed and what is covered are the same. -/
structure SameDebts (s s' : ForwardState π) : Prop where
  queue : s'.resyncQueue = s.resyncQueue
  set : s'.resyncSet = s.resyncSet
  debt : s'.resyncDebt = s.resyncDebt
  covered : s'.coveredSeq = s.coveredSeq

variable {s s' : ForwardState π}

theorem SameQueue.trans {s'' : ForwardState π} (h : SameQueue s s') (h' : SameQueue s' s'') :
  SameQueue s s''
  where
  pending := h'.pending.trans h.pending
  streamRefs := h'.streamRefs.trans h.streamRefs
  globalRefs := h'.globalRefs.trans h.globalRefs

theorem scheduleResync_sameQueue (s : ForwardState π) (t : TerminalId) (k : ℕ) :
  SameQueue s (s.scheduleResync t k)
  := by
  rw [scheduleResync]
  split <;> exact ⟨rfl, rfl, rfl⟩

theorem dropResync_sameQueue (s : ForwardState π) (t : TerminalId) :
  SameQueue s (s.dropResync t)
  := by
  rw [dropResync]
  split <;> exact ⟨rfl, rfl, rfl⟩

theorem noteReplay_sameQueue (s : ForwardState π) (t : TerminalId) (k : ℕ) :
  SameQueue s (s.noteReplay t k)
  := by
  apply SameQueue.trans _ (dropResync_sameQueue _ _)
  exact ⟨rfl, rfl, rfl⟩

theorem pushPending_sameDebts (s : ForwardState π) (evt : Event π) :
  SameDebts s (s.pushPending evt)
  := by
  rw [pushPending]
  split <;> exact ⟨rfl, rfl, rfl, rfl⟩

variable {evt : Event π}

theorem popPending_sameDebts (h : s.popPending = some (evt, s')) :
  SameDebts s s'
  := by
  rw [popPending] at h
  split at h
  · cases h
  · dsimp only at h
    split at h <;> cases h <;> exact ⟨rfl, rfl, rfl, rfl⟩

theorem announceUnavailable_sameQueue (s : ForwardState π) (t : TerminalId) :
  SameQueue s (s.announceUnavailable t).1
  := by
  rw [announceUnavailable]
  split <;> exact ⟨rfl, rfl, rfl⟩

theorem announceUnavailable_sameDebts (s : ForwardState π) (t : TerminalId) :
  SameDebts s (s.announceUnavailable t).1
  := by
  rw [announceUnavailable]
  split <;> exact ⟨rfl, rfl, rfl, rfl⟩

theorem popPending_eq_none_iff (s : ForwardState π) :
  s.popPending = none ↔ s.pending = []
  := by
  rw [popPending]
  split
  · next h => simp [h]
  · next h =>
      dsimp only
      split <;> simp [h]

theorem popPending_eq_some (h : s.popPending = some (evt, s')) :
  s.pending = evt :: s'.pending
  := by
  rw [popPending] at h
  split at h
  · cases h
  · next hpending =>
      dsimp only at h
      split at h <;> cases h <;> exact hpending

/-! ### Debts and covered sequence numbers -/

@[simp]
theorem scheduleResync_resyncDebt (s : ForwardState π) (t : TerminalId) (k : ℕ) :
  (s.scheduleResync t k).resyncDebt
    = Function.update s.resyncDebt t (some (max ((s.resyncDebt t).getD 0) k))
  := by
  rw [scheduleResync]
  split <;> rfl

@[simp]
theorem scheduleResync_coveredSeq (s : ForwardState π) (t : TerminalId) (k : ℕ) :
  (s.scheduleResync t k).coveredSeq = s.coveredSeq
  := by
  rw [scheduleResync]
  split <;> rfl

@[simp]
theorem dropResync_resyncDebt (s : ForwardState π) (t : TerminalId) :
  (s.dropResync t).resyncDebt = Function.update s.resyncDebt t none
  := by
  rw [dropResync]
  split <;> rfl

@[simp]
theorem dropResync_coveredSeq (s : ForwardState π) (t : TerminalId) :
  (s.dropResync t).coveredSeq = s.coveredSeq
  := by
  rw [dropResync]
  split <;> rfl

/-- Note a list of replays, one after the other. -/
def noteReplays (s : ForwardState π) (replays : List (TerminalId × ℕ)) : ForwardState π :=
  replays.foldl (fun s r => s.noteReplay r.1 r.2) s

/-- What is noted of an event that is not an exit is its replays. -/
theorem noteLossless_eq_noteReplays (s : ForwardState π) (h : evt.exited? = none) :
  s.noteLossless evt = s.noteReplays evt.replays
  := by
  cases evt with
  | snapshot terminals payload =>
    rw [noteLossless, noteReplays, Event.replays, List.foldl_map, List.foldl_filter]
  | terminalExited t payload => cases h
  | _ => rfl

theorem noteReplays_sameQueue (s : ForwardState π) (replays : List (TerminalId × ℕ)) :
  SameQueue s (s.noteReplays replays)
  := by
  induction replays generalizing s with
  | nil => exact ⟨rfl, rfl, rfl⟩
  | cons r replays ih => apply (noteReplay_sameQueue s r.1 r.2).trans (ih _)

theorem noteLossless_sameQueue (s : ForwardState π) (evt : Event π) :
  SameQueue s (s.noteLossless evt)
  := by
  cases h : evt.exited? with
  | none =>
    rw [noteLossless_eq_noteReplays s h]
    apply noteReplays_sameQueue
  | some t =>
    cases evt with
    | terminalExited t payload =>
      apply (dropResync_sameQueue s t).trans
      exact ⟨rfl, rfl, rfl⟩
    | _ => cases h

/-- Replays leave no debt of the terminals they replay. -/
theorem noteReplays_resyncDebt
    (s : ForwardState π) (replays : List (TerminalId × ℕ)) (t : TerminalId) :
  (s.noteReplays replays).resyncDebt t
    = if t ∈ replays.map Prod.fst then none else s.resyncDebt t
  := by
  induction replays generalizing s with
  | nil => rfl
  | cons r replays ih =>
    change ((s.noteReplay r.1 r.2).noteReplays replays).resyncDebt t = _
    rw [ih, noteReplay, dropResync_resyncDebt, List.map_cons]
    by_cases ht : t = r.1
    · simp [ht]
    · have hmem : t ∈ r.1 :: replays.map Prod.fst ↔ t ∈ replays.map Prod.fst := by
        rw [List.mem_cons, or_iff_right ht]
      rw [Function.update_of_ne ht, if_congr hmem rfl rfl]
      rfl

variable {t : TerminalId}

/-- What a replay newly covers, it reaches. -/
theorem markCovered_isSuperseded
    {t' : TerminalId} {seq k : ℕ} (h : (s.markCovered t' seq).isSuperseded t k = true) :
  s.isSuperseded t k = true ∨ (t = t' ∧ k ≤ seq)
  := by
  rw [isSuperseded, markCovered] at h
  by_cases ht : t = t'
  · subst ht
    simp only [Function.update_self, Option.any_some, decide_eq_true_eq, le_max_iff] at h
    obtain hk | hk := h
    · cases hcovered : s.coveredSeq t with
      | none =>
        rw [hcovered] at hk
        right
        exact ⟨rfl, hk.trans (Nat.zero_le _)⟩
      | some covered =>
        rw [hcovered] at hk
        left
        simpa [isSuperseded, hcovered] using hk
    · right
      exact ⟨rfl, hk⟩
  · left
    dsimp only at h
    rwa [Function.update_of_ne ht] at h

/-- What replays newly cover, one of them reaches. -/
theorem noteReplays_isSuperseded {replays : List (TerminalId × ℕ)} {k : ℕ}
    (h : (s.noteReplays replays).isSuperseded t k = true) :
  s.isSuperseded t k = true ∨ ∃ seq, (t, seq) ∈ replays ∧ k ≤ seq
  := by
  induction replays generalizing s with
  | nil =>
    left
    apply h
  | cons r replays ih =>
    obtain h | ⟨seq, hseq, hk⟩ := ih (s := s.noteReplay r.1 r.2) h
    · rw [noteReplay, isSuperseded, dropResync_coveredSeq] at h
      obtain h | ⟨rfl, hk⟩ := markCovered_isSuperseded h
      · left
        apply h
      · right
        exact ⟨r.2, List.mem_cons_self, hk⟩
    · right
      exact ⟨seq, List.mem_cons_of_mem _ hseq, hk⟩

/-! ### What routing and delivering can do -/

/-- What routing `evt` can come to: the next state, the event if it was sent, and whether to go
on. -/
inductive Routed (s : ForwardState π) (evt : Event π) :
    ForwardState π → Option (Event π) → ControlFlow → Prop where
  /-- An output that a replay already carried. -/
  | superseded {t : TerminalId} {k : ℕ} (output : evt.output? = some (t, k))
      (covered : s.isSuperseded t k = true) : Routed s evt s none .continue
  /-- An output that is dropped; the terminal owes a replay. -/
  | dropped {t : TerminalId} {k : ℕ} (output : evt.output? = some (t, k))
      (live : s.isSuperseded t k = false) : Routed s evt (s.scheduleResync t k) none .continue
  /-- An output that is sent. -/
  | forwarded {t : TerminalId} {k : ℕ} (output : evt.output? = some (t, k))
      (live : s.isSuperseded t k = false) (clear : s.quarantines t = false) :
      Routed s evt s (some evt) .continue
  /-- An output for a channel that is closed. -/
  | closed {t : TerminalId} {k : ℕ} (output : evt.output? = some (t, k)) :
      Routed s evt s none .break
  /-- A lossless event that is sent at once. -/
  | sent (lossless : evt.output? = none) (empty : s.pending = []) :
      Routed s evt (s.noteLossless evt) (some evt) .continue
  /-- A lossless event that is queued. -/
  | queued (lossless : evt.output? = none) :
      Routed s evt ((s.noteLossless evt).pushPending evt) none .continue
  /-- A lossless event for a channel that is closed, or for a queue that is full. -/
  | lost (lossless : evt.output? = none) : Routed s evt (s.noteLossless evt) none .break

theorem route_routed (s : ForwardState π) (channel : TrySend) (evt : Event π) :
  Routed s evt (s.route channel evt).1 (s.route channel evt).2.1 (s.route channel evt).2.2
  := by
  rw [route]
  split
  · next t k houtput =>
      split
      · next hcovered => apply Routed.superseded houtput hcovered
      · next hlive =>
          have hlive := Bool.eq_false_of_not_eq_true hlive
          split
          · apply Routed.dropped houtput hlive
          · next hclear =>
              cases channel with
              | ok => apply Routed.forwarded houtput hlive (Bool.eq_false_of_not_eq_true hclear)
              | full => apply Routed.dropped houtput hlive
              | closed => apply Routed.closed houtput
  · next hlossless =>
      dsimp only
      split
      · next hempty =>
          rw [List.isEmpty_iff, (noteLossless_sameQueue s evt).pending] at hempty
          cases channel with
          | ok => apply Routed.sent hlossless hempty
          | full => apply Routed.queued hlossless
          | closed => apply Routed.lost hlossless
      · split
        · apply Routed.lost hlossless
        · apply Routed.queued hlossless

/-- What delivering one item can come to: the next state, and the event that was sent. -/
inductive Delivered (s : ForwardState π) : ForwardState π → Option (Sent π) → Prop where
  /-- The oldest lossless event is sent. -/
  | relayed {evt : Event π} {s' : ForwardState π} (popped : s.popPending = some (evt, s')) :
      Delivered s s' (some (.relayed evt))
  /-- Nothing is ready to be sent. -/
  | idle (empty : s.pending = []) : Delivered s s none
  /-- A replay that reaches the debt of a terminal is sent. -/
  | replayed {t : TerminalId} {s' : ForwardState π} {now : ℕ} {snapshot : ReplaySnapshot}
      (empty : s.pending = []) (ready : s.takeReady now = some (t, s'))
      (reaches : (s'.resyncDebt t).getD 0 ≤ snapshot.lastSeq) :
      Delivered s (s'.settleDebt t now snapshot.lastSeq) (some (.recovery
        (.terminalResync t snapshot.replay snapshot.lastSeq snapshot.sizes)))
  /-- No replay of a terminal is to be had. -/
  | unavailable {t : TerminalId} {s' : ForwardState π} {now : ℕ}
      (empty : s.pending = []) (ready : s.takeReady now = some (t, s')) :
      Delivered s (s'.announceUnavailable t).1 (s'.announceUnavailable t).2

theorem resyncReplay_reaches {requiredSeq : ℕ} {reply : SnapshotReply} {snapshot : ReplaySnapshot}
    (h : resyncReplay requiredSeq reply = some snapshot) :
  requiredSeq ≤ snapshot.lastSeq
  := by
  cases reply with
  | snapshot snapshot' =>
    rw [resyncReplay] at h
    split at h
    · cases h
    · next hreaches =>
        cases h
        omega
  | _ => cases h

theorem deliverOne_delivered (s : ForwardState π) (now : ℕ) (reply : SnapshotReply) :
  Delivered s (s.deliverOne now reply).1 (s.deliverOne now reply).2
  := by
  rw [deliverOne]
  split
  · next hpopped => apply Delivered.relayed hpopped
  · next hempty =>
      rw [popPending_eq_none_iff] at hempty
      split
      · apply Delivered.idle hempty
      · next hready =>
          dsimp only
          split
          · apply Delivered.unavailable hempty hready
          · next hreplay =>
              split
              · apply Delivered.unavailable hempty hready
              · apply Delivered.replayed hempty hready (resyncReplay_reaches hreplay)

theorem takeReady_sameQueue {now : ℕ} (h : s.takeReady now = some (t, s')) :
  SameQueue s s'
  := by
  rw [takeReady] at h
  split at h
  · cases h
  · cases h
    exact ⟨rfl, rfl, rfl⟩

theorem takeReady_resyncDebt {now : ℕ} (h : s.takeReady now = some (t, s')) :
  s'.resyncDebt = s.resyncDebt
  := by
  rw [takeReady] at h
  split at h <;> cases h
  rfl

theorem takeReady_coveredSeq {now : ℕ} (h : s.takeReady now = some (t, s')) :
  s'.coveredSeq = s.coveredSeq
  := by
  rw [takeReady] at h
  split at h <;> cases h
  rfl

end ForwardState

/-! ### The forwarder of a connection -/

/-- A forwarder, and whether its connection still stands. -/
structure Forwarder (π : Type) where
  state : ForwardState π
  connected : Bool

namespace Forwarder

variable {π : Type}

/-- A step of a forwarder: a raw event with what `try_send` finds of the channel, or a free slot
with the time and what the backend answers. -/
inductive Act (π : Type) where
  | route (channel : TrySend) (evt : Event π)
  | deliverOne (now : ℕ) (reply : SnapshotReply)
deriving DecidableEq, Repr

/-- What is observed of a step: the state before it, its action, what was sent to the client, and
whether the connection stands. -/
structure Obs (π : Type) where
  before : ForwardState π
  act : Act π
  sent : Option (Sent π)
  flow : ControlFlow

/-- The state after an action, and what is observed of it. -/
def act (s : ForwardState π) : Act π → ForwardState π × Obs π
  | .route channel evt =>
      let (s', sent, flow) := s.route channel evt
      (s', ⟨s, .route channel evt, sent.map .relayed, flow⟩)
  | .deliverOne now reply =>
      let (s', sent) := s.deliverOne now reply
      (s', ⟨s, .deliverOne now reply, sent, .continue⟩)

/-- A forwarder acts until its connection breaks. -/
def machine : Machine (Forwarder π) (Act π) (Obs π) where
  step f a :=
    if f.connected then
      let (s, o) := act f.state a
      (⟨s, decide (o.flow = .continue)⟩, [o])
    else
      (f, [])

def new (metrics : EventMetrics) : Forwarder π := ⟨ForwardState.new metrics, true⟩

/-- A property of the forwarder and of what was observed so far which holds at the start and which
every action meeting `P` preserves while the connection stands holds at the end of every run whose
steps meet `P`. -/
theorem run_invariant
    {P : Forwarder π → Act π → Prop} {I : Forwarder π → List (Obs π) → Prop}
    {f : Forwarder π} {acts : List (Act π)} (start : I f [])
    (preserved : ∀ s os a, P ⟨s, true⟩ a → I ⟨s, true⟩ os →
      I ⟨(act s a).1, decide ((act s a).2.flow = .continue)⟩ (os ++ [(act s a).2]))
    (along : machine.Along P f acts) :
  I (machine.final f acts) (machine.trace f acts)
  := by
  apply machine.invariant start _ along
  rintro ⟨s, connected⟩ os a ha h
  cases connected with
  | true => apply preserved s os a ha h
  | false =>
    change I ⟨s, false⟩ (os ++ [])
    rwa [List.append_nil]

end Forwarder

end Lazybox
