import Lazybox.Ipc.Protocol
import Lazybox.Library.RefCount
import Lazybox.Pty.DaemonPty
import Mathlib.Data.Finset.Basic

/-!
# The state of an event forwarder

One forwarder stands between the raw events of the daemon and the bounded channel of one
client.  Output of a terminal is sent only if it fits; what does not fit is dropped, and the
terminal then owes the client a replay of its ring.  Every other event is sent in order, from a
queue if the channel is full.

A hash map is its lookup function, and an instant is a number of nanoseconds.
-/

namespace Lazybox

/-- Which terminals' streams a lossless event mutates on the client. -/
inductive StreamScope where
  | free
  | terminals (ids : List TerminalId)
  | global
deriving DecidableEq, Repr

namespace Event

variable {π : Type}

/-- The terminal and the sequence number of an output event. -/
def output? : Event π → Option (TerminalId × ℕ)
  | terminalOutput terminalId seq _ | agentAuthOutput terminalId seq _ => some (terminalId, seq)
  | _ => none

def streamScope : Event π → StreamScope
  | snapshot _ _ => .global
  | terminalSpawned terminalId _
  | terminalResync terminalId _ _ _
  | terminalResyncUnavailable terminalId
  | terminalDelta terminalId _
  | terminalDeltaUnavailable terminalId
  | terminalExited terminalId _
  | terminalScrollback terminalId _
  | agentAuthReplay terminalId _ _ => .terminals [terminalId]
  | terminalReplaced oldTerminalId terminalId _ => .terminals [oldTerminalId, terminalId]
  | _ => .free

end Event

/-- The counters of `EventMetrics` the forwarder increments. -/
structure EventMetrics where
  terminalOutputDropped : ℕ
  terminalResyncs : ℕ
deriving DecidableEq, Repr

def MAX_PENDING_STRUCTURED_EVENTS : ℕ := RAW_EVENT_CHANNEL_CAPACITY

/-- Two seconds, in nanoseconds. -/
def RESYNC_DEBOUNCE : ℕ := 2 * 1000000000

def SNAPSHOT_REPLAY_BUDGET : ℕ := MAX_FRAME_BYTES / 2

structure ForwardState (π : Type) where
  pending : List (Event π)
  resyncQueue : List TerminalId
  resyncSet : Finset TerminalId
  /-- The highest dropped sequence number that a terminal's next replay must cover. -/
  resyncDebt : TerminalId → Option ℕ
  resyncUnavailableAnnounced : Finset TerminalId
  /-- How many references to a terminal's stream are queued. -/
  pendingStreamRefs : TerminalId → Option ℕ
  pendingGlobalRefs : ℕ
  resyncPacedUntil : TerminalId → Option ℕ
  /-- The highest sequence number of a terminal that a replay carried to the client. -/
  coveredSeq : TerminalId → Option ℕ
  metrics : EventMetrics

/-- What `try_send` finds of the client's channel. -/
inductive TrySend where
  | ok
  | full
  | closed
deriving DecidableEq, Repr

inductive ControlFlow where
  | continue
  | break
deriving DecidableEq, Repr

/-- What comes of asking the backend for the snapshot of a terminal. -/
inductive SnapshotReply where
  | unbound
  | failed
  | timedOut
  | snapshot (snapshot : ReplaySnapshot)
deriving DecidableEq, Repr

/-- An event sent to the client: one that was routed, or one of the forwarder's own. -/
inductive Sent (π : Type) where
  | relayed (evt : Event π)
  | recovery (evt : Event π)
deriving DecidableEq, Repr

namespace ForwardState

variable {π : Type}

def new (metrics : EventMetrics) : ForwardState π where
  pending := []
  resyncQueue := []
  resyncSet := ∅
  resyncDebt _ := none
  resyncUnavailableAnnounced := ∅
  pendingStreamRefs _ := none
  pendingGlobalRefs := 0
  resyncPacedUntil _ := none
  coveredSeq _ := none
  metrics := metrics

/-! ### The queue of lossless events -/

def pushPending (s : ForwardState π) (evt : Event π) : ForwardState π :=
  let s :=
    match evt.streamScope with
    | .free => s
    | .global => { s with pendingGlobalRefs := s.pendingGlobalRefs + 1 }
    | .terminals ids =>
        { s with pendingStreamRefs := ids.foldl RefCount.acquire s.pendingStreamRefs }
  { s with pending := s.pending ++ [evt] }

def popPending (s : ForwardState π) : Option (Event π × ForwardState π) :=
  match s.pending with
  | [] => none
  | evt :: pending =>
      let s := { s with pending := pending }
      match evt.streamScope with
      | .free => some (evt, s)
      | .global => some (evt, { s with pendingGlobalRefs := s.pendingGlobalRefs - 1 })
      | .terminals ids =>
          some (evt,
            { s with pendingStreamRefs := ids.foldl RefCount.release s.pendingStreamRefs })

def pendingBlocksOutput (s : ForwardState π) (terminalId : TerminalId) : Bool :=
  0 < s.pendingGlobalRefs || (s.pendingStreamRefs terminalId).isSome

/-! ### Replays that are owed and replays that were made -/

def resyncReady (s : ForwardState π) (terminalId : TerminalId) (now : ℕ) : Bool :=
  (s.resyncPacedUntil terminalId).all fun until_ => until_ ≤ now

def markCovered (s : ForwardState π) (terminalId : TerminalId) (seq : ℕ) : ForwardState π :=
  { s with
    coveredSeq :=
      Function.update s.coveredSeq terminalId (some (max ((s.coveredSeq terminalId).getD 0) seq)) }

def isSuperseded (s : ForwardState π) (terminalId : TerminalId) (seq : ℕ) : Bool :=
  (s.coveredSeq terminalId).any fun covered => seq ≤ covered

def scheduleResync (s : ForwardState π) (terminalId : TerminalId) (requiredSeq : ℕ) :
    ForwardState π :=
  let s := { s with
    metrics.terminalOutputDropped := s.metrics.terminalOutputDropped + 1
    resyncDebt := Function.update s.resyncDebt terminalId
      (some (max ((s.resyncDebt terminalId).getD 0) requiredSeq)) }
  if terminalId ∈ s.resyncSet then
    s
  else
    { s with
      resyncSet := insert terminalId s.resyncSet
      resyncQueue := s.resyncQueue ++ [terminalId]
      metrics.terminalResyncs := s.metrics.terminalResyncs + 1 }

def dropResync (s : ForwardState π) (terminalId : TerminalId) : ForwardState π :=
  let s :=
    if terminalId ∈ s.resyncSet then
      { s with
        resyncSet := s.resyncSet.erase terminalId
        resyncQueue := s.resyncQueue.filter (· ≠ terminalId) }
    else
      s
  { s with
    resyncDebt := Function.update s.resyncDebt terminalId none
    resyncUnavailableAnnounced := s.resyncUnavailableAnnounced.erase terminalId }

/-! ### Routing -/

/-- A replay of `terminalId` through `seq` is on its way to the client. -/
def noteReplay (s : ForwardState π) (terminalId : TerminalId) (seq : ℕ) : ForwardState π :=
  (s.markCovered terminalId seq).dropResync terminalId

/-- What a lossless event changes of what is owed and covered, before it is sent or queued. -/
def noteLossless (s : ForwardState π) : Event π → ForwardState π
  | .snapshot terminals _ =>
      terminals.foldl
        (fun s t => if t.replayAvailable then s.noteReplay t.terminalId t.lastSeq else s) s
  | .terminalResync terminalId _ seq _ | .agentAuthReplay terminalId seq _ =>
      s.noteReplay terminalId seq
  | .terminalExited terminalId _ =>
      let s := s.dropResync terminalId
      { s with
        coveredSeq := Function.update s.coveredSeq terminalId none
        resyncPacedUntil := Function.update s.resyncPacedUntil terminalId none }
  | _ => s

/-- Output of this terminal waits for a queued event, or for a replay that is owed. -/
def quarantines (s : ForwardState π) (terminalId : TerminalId) : Bool :=
  s.pendingBlocksOutput terminalId || decide (terminalId ∈ s.resyncSet)
    || (s.resyncDebt terminalId).isSome

/-- Route one raw event: the next state, the event if it was sent, and whether to go on. -/
def route (s : ForwardState π) (channel : TrySend) (evt : Event π) :
    ForwardState π × Option (Event π) × ControlFlow :=
  match evt.output? with
  | some (terminalId, seq) =>
      if s.isSuperseded terminalId seq then
        (s, none, .continue)
      else if s.quarantines terminalId then
        (s.scheduleResync terminalId seq, none, .continue)
      else
        match channel with
        | .ok => (s, some evt, .continue)
        | .full => (s.scheduleResync terminalId seq, none, .continue)
        | .closed => (s, none, .break)
  | none =>
      let s := s.noteLossless evt
      if s.pending.isEmpty then
        match channel with
        | .ok => (s, some evt, .continue)
        | .full => (s.pushPending evt, none, .continue)
        | .closed => (s, none, .break)
      else if MAX_PENDING_STRUCTURED_EVENTS ≤ s.pending.length then
        (s, none, .break)
      else
        (s.pushPending evt, none, .continue)

/-! ### Delivering into a free slot -/

/-- The snapshot of a terminal, if it reaches `requiredSeq`. -/
def resyncReplay (requiredSeq : ℕ) : SnapshotReply → Option ReplaySnapshot
  | .unbound | .failed | .timedOut => none
  | .snapshot snapshot => if snapshot.lastSeq < requiredSeq then none else some snapshot

/-- Announce once for each recovery that no replay of `terminalId` is to be had. -/
def announceUnavailable (s : ForwardState π) (terminalId : TerminalId) :
    ForwardState π × Option (Sent π) :=
  if terminalId ∈ s.resyncUnavailableAnnounced then
    (s, none)
  else
    ({ s with
        resyncUnavailableAnnounced := insert terminalId s.resyncUnavailableAnnounced },
      some (.recovery (.terminalResyncUnavailable terminalId)))

/-- Take the first terminal that owes a replay and is past its pacing floor off the queue. -/
def takeReady (s : ForwardState π) (now : ℕ) : Option (TerminalId × ForwardState π) :=
  match s.resyncQueue.find? fun t => s.resyncReady t now with
  | none => none
  | some terminalId =>
      some (terminalId, { s with
        resyncQueue := s.resyncQueue.eraseP fun t => s.resyncReady t now
        resyncSet := s.resyncSet.erase terminalId })

/-- The debt of `terminalId` is settled by a replay through `seq`. -/
def settleDebt (s : ForwardState π) (terminalId : TerminalId) (now seq : ℕ) : ForwardState π :=
  let s := s.markCovered terminalId seq
  { s with
    resyncDebt := Function.update s.resyncDebt terminalId none
    resyncUnavailableAnnounced := s.resyncUnavailableAnnounced.erase terminalId
    resyncPacedUntil :=
      Function.update s.resyncPacedUntil terminalId (some (now + RESYNC_DEBOUNCE)) }

/-- Deliver one buffered item into a free slot of the channel.  The backend answers with
`reply` if it is asked for a snapshot. -/
def deliverOne (s : ForwardState π) (now : ℕ) (reply : SnapshotReply) :
    ForwardState π × Option (Sent π) :=
  match s.popPending with
  | some (evt, s) => (s, some (.relayed evt))
  | none =>
      match s.takeReady now with
      | none => (s, none)
      | some (terminalId, s) =>
          let requiredSeq := (s.resyncDebt terminalId).getD 0
          match resyncReplay requiredSeq reply with
          | none => s.announceUnavailable terminalId
          | some snapshot =>
              if SNAPSHOT_REPLAY_BUDGET < snapshot.replay.length then
                s.announceUnavailable terminalId
              else
                (s.settleDebt terminalId now snapshot.lastSeq,
                  some (.recovery (.terminalResync terminalId snapshot.replay snapshot.lastSeq
                    snapshot.sizes)))

end ForwardState

end Lazybox
