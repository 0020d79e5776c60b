import Lazybox.Ipc.Protocol
import Lazybox.Library.Run

/-!
# Reconnection of the socket client

A client keeps one session over many connections.  The caller's commands pass through a bounded
channel to the chunker, which splits large writes, and through a second bounded channel to the
supervisor, which writes them on the connection there is.  When the connection drops, the
supervisor redials, and throws away what comes while it waits.  On a connection it established
again it throws away what it finds queued, asks for a fresh snapshot, and goes on.

The caller, the chunker and the supervisor take turns in any order.  Every command is numbered by
the order the caller sent it in; the chunks of a write have the number of the write.
-/

namespace Lazybox

def MAX_COMMAND_FRAME_BYTES : ℕ := 256 * 1024

def MAX_WRITE_CHUNK_BYTES : ℕ := MAX_COMMAND_FRAME_BYTES / 2

def COMMAND_CHANNEL_CAPACITY : ℕ := 256

inductive TerminalInputIntent where
  | compose | submit | view
deriving DecidableEq, Repr

/-- A command.  Those that are not told apart here are `other`. -/
inductive Command (π : Type) where
  | subscribe
  | write (terminalId : TerminalId) (bytes : List UInt8) (intent : TerminalInputIntent)
  | other (payload : π)
deriving DecidableEq, Repr

/-- The writes of the chunks of a large write.  What is meant by it stands on the last one. -/
def chunkWrites {π : Type} (terminalId : TerminalId) (intent : TerminalInputIntent) :
    List (List UInt8) → List (Command π)
  | [] => []
  | [chunk] => [.write terminalId chunk intent]
  | chunk :: chunks =>
      .write terminalId chunk .compose :: chunkWrites terminalId intent chunks

def writeChunked {π : Type} (terminalId : TerminalId) (bytes : List UInt8)
    (intent : TerminalInputIntent) : List (Command π) :=
  if bytes.length ≤ MAX_WRITE_CHUNK_BYTES then [.write terminalId bytes intent]
  else chunkWrites terminalId intent (bytes.toChunks MAX_WRITE_CHUNK_BYTES)

def Command.intoWriteChunks {π : Type} : Command π → List (Command π)
  | .write terminalId bytes intent => writeChunked terminalId bytes intent
  | .subscribe => [.subscribe]
  | .other payload => [.other payload]

inductive ConnectionStatus where
  | connected
  | reconnecting
  | failed (message : String)
deriving DecidableEq, Repr

structure ConnectionState where
  status : ConnectionStatus
  daemonBuild : String
deriving DecidableEq, Repr

/-- A command on its way, with its number. -/
structure Numbered (π : Type) where
  index : ℕ
  command : Command π
deriving DecidableEq, Repr

/-- Where the supervisor stands. -/
inductive Phase where
  | serving
  /-- It waits before it redials. -/
  | backoff
  | redialing
  /-- A connection was established again. -/
  | established
  /-- It throws away so many queued commands. -/
  | draining (left : ℕ)
  /-- It asks for a fresh snapshot. -/
  | subscribing
  | stopped
deriving DecidableEq, Repr

/-- How an attempt to redial ends. -/
inductive Redialed where
  | connected (build : String)
  | retryable
  | fatal (message : String)

structure Session (π : Type) where
  /-- How many commands the caller has sent. -/
  sent : ℕ
  commands : List (Numbered π)
  callerGone : Bool
  /-- What the chunker has still to pass on of the command it took. -/
  chunks : List (Numbered π)
  chunkerDone : Bool
  wire : List (Numbered π)
  phase : Phase
  /-- The number of the connection, and of the commands sent when it was established. -/
  conn : ℕ
  mark : ℕ
  daemonBuild : String
deriving DecidableEq, Repr

namespace Session

variable {π : Type}

inductive Act (π : Type) where
  /-- The caller sends a command. -/
  | send (command : Command π)
  /-- The caller drops the client. -/
  | drop
  /-- The chunker takes the next command. -/
  | take
  /-- The chunker passes the next chunk on. -/
  | push
  /-- The supervisor receives a command while it waits. -/
  | discard
  /-- The wait is over. -/
  | elapse
  | redialed (outcome : Redialed)
  /-- The supervisor counts the queued commands. -/
  | count
  /-- It throws one of them away. -/
  | drain
  | subscribe (written : Bool)
  /-- The connection is closed by the other side. -/
  | readerEnds
  /-- The supervisor receives a command and writes it. -/
  | serve (written : Bool)

/-- What is seen: the state of the connection, a connection that was established again while so
many commands had been sent, and a frame that is written, of a numbered command or of none. -/
inductive Obs (π : Type) where
  | state (state : ConnectionState)
  | established (conn sent : ℕ)
  | frame (conn : ℕ) (source : Option ℕ) (command : Command π)
deriving DecidableEq, Repr

/-- A session on its first connection. -/
def new (build : String) : Session π where
  sent := 0
  commands := []
  callerGone := false
  chunks := []
  chunkerDone := false
  wire := []
  phase := .serving
  conn := 0
  mark := 0
  daemonBuild := build

/-- A full channel or a chunker that is gone refuses the command. -/
def send (s : Session π) (command : Command π) : Session π :=
  if s.callerGone || s.chunkerDone || COMMAND_CHANNEL_CAPACITY ≤ s.commands.length then s
  else { s with sent := s.sent + 1, commands := s.commands ++ [⟨s.sent, command⟩] }

/-- One turn of the chunker's loop, up to the chunks of a command. -/
def take (s : Session π) : Session π :=
  if s.chunkerDone || !s.chunks.isEmpty then s
  else match s.commands with
  | next :: rest =>
      { s with commands := rest, chunks := next.command.intoWriteChunks.map (⟨next.index, ·⟩) }
  | [] => if s.callerGone then { s with chunkerDone := true } else s

def push (s : Session π) : Session π :=
  match s.chunks with
  | [] => s
  | chunk :: rest =>
      if s.phase = .stopped then { s with chunks := [], chunkerDone := true }
      else if s.wire.length < COMMAND_CHANNEL_CAPACITY then
        { s with chunks := rest, wire := s.wire ++ [chunk] }
      else s

/-- The supervisor waits and redials, and tells so. -/
def dropped (s : Session π) : Session π × List (Obs π) :=
  ({ s with phase := .backoff }, [.state ⟨.reconnecting, s.daemonBuild⟩])

/-- A command received while waiting is thrown away; that there is none any more means that the
caller is gone. -/
def discard (s : Session π) : Session π :=
  match s.wire with
  | _ :: rest => { s with wire := rest }
  | [] => if s.chunkerDone then { s with phase := .stopped } else s

def redialed (s : Session π) : Redialed → Session π × List (Obs π)
  | .connected build =>
      ({ s with phase := .established, conn := s.conn + 1, mark := s.sent, daemonBuild := build },
        [.state ⟨.connected, build⟩, .established (s.conn + 1) s.sent])
  | .retryable => ({ s with phase := .backoff }, [])
  | .fatal message => ({ s with phase := .stopped }, [.state ⟨.failed message, s.daemonBuild⟩])

def drain (s : Session π) : ℕ → Session π
  | 0 => { s with phase := .subscribing }
  | left + 1 =>
      match s.wire with
      | [] => { s with phase := .subscribing }
      | _ :: rest => { s with wire := rest, phase := .draining left }

def subscribe (s : Session π) (written : Bool) : Session π × List (Obs π) :=
  let frame := .frame s.conn none .subscribe
  if written then ({ s with phase := .serving }, [frame])
  else (s.dropped.1, frame :: s.dropped.2)

def serve (s : Session π) (written : Bool) : Session π × List (Obs π) :=
  match s.wire with
  | [] => if s.chunkerDone then ({ s with phase := .stopped }, []) else (s, [])
  | next :: rest =>
      let s := { s with wire := rest }
      let frame := .frame s.conn (some next.index) next.command
      if written then (s, [frame]) else (s.dropped.1, frame :: s.dropped.2)

def step (s : Session π) : Act π → Session π × List (Obs π)
  | .send command => (s.send command, [])
  | .drop => ({ s with callerGone := true }, [])
  | .take => (s.take, [])
  | .push => (s.push, [])
  | .discard => if s.phase = .backoff then (s.discard, []) else (s, [])
  | .elapse => if s.phase = .backoff then ({ s with phase := .redialing }, []) else (s, [])
  | .redialed outcome => if s.phase = .redialing then s.redialed outcome else (s, [])
  | .count =>
      if s.phase = .established then ({ s with phase := .draining s.wire.length }, [])
      else (s, [])
  | .drain =>
      match s.phase with
      | .draining left => (s.drain left, [])
      | _ => (s, [])
  | .subscribe written => if s.phase = .subscribing then s.subscribe written else (s, [])
  | .readerEnds =>
      if s.phase = .serving then
        if s.callerGone then ({ s with phase := .stopped }, []) else s.dropped
      else (s, [])
  | .serve written => if s.phase = .serving then s.serve written else (s, [])

/-- The runs of a session. -/
def machine : Machine (Session π) (Act π) (Obs π) where
  step := step

end Session

end Lazybox
