import Lazybox.Pty.ReplayRing

/-!
# Events and limits of the protocol

The events of the daemon that are told apart on their way to a client.  What is not read of an event
on that way is its payload, of type `π`; the events that are not told apart are `other`.
-/

namespace Lazybox

structure TerminalId where
  id : UInt64
deriving DecidableEq, Repr

/-- What the forwarder reads of a terminal in a snapshot. -/
structure TerminalSnapshot where
  terminalId : TerminalId
  lastSeq : ℕ
  replayAvailable : Bool
deriving DecidableEq, Repr

inductive Event (π : Type) where
  | snapshot (terminals : List TerminalSnapshot) (payload : π)
  | terminalSpawned (terminalId : TerminalId) (payload : π)
  | terminalOutput (terminalId : TerminalId) (seq : ℕ) (payload : π)
  | terminalResync (terminalId : TerminalId) (replay : List UInt8) (seq : ℕ)
      (sizes : List ReplaySizeSpan)
  | terminalResyncUnavailable (terminalId : TerminalId)
  | terminalDelta (terminalId : TerminalId) (payload : π)
  | terminalDeltaUnavailable (terminalId : TerminalId)
  | terminalExited (terminalId : TerminalId) (payload : π)
  | terminalScrollback (terminalId : TerminalId) (payload : π)
  | terminalReplaced (oldTerminalId terminalId : TerminalId) (payload : π)
  | agentAuthOutput (terminalId : TerminalId) (seq : ℕ) (payload : π)
  | agentAuthReplay (terminalId : TerminalId) (seq : ℕ) (payload : π)
  | other (payload : π)
deriving DecidableEq, Repr

/-- The largest frame the transport carries, 64 MiB. -/
def MAX_FRAME_BYTES : ℕ := 64 * 1024 * 1024

/-- `FlowControl::RAW_EVENT_CAPACITY`: four drain quanta of `1024` events. -/
def RAW_EVENT_CHANNEL_CAPACITY : ℕ := 1024 * 2 * 2

end Lazybox
