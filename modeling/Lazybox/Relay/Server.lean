import Lazybox.Library.Run

/-!
# The relay

Boxes dial out to a relay and hold a control connection under a box id.  A client asks for a box
id; the relay announces it to the box over the control connection, the box dials a data connection
back, and the relay splices the two.

Every connection is a task.  The tasks share the table of boxes and the table of clients that wait
for a data connection, and wait for something between any look into a table and the next change of
one.  A step is what one task does between two waits; timeouts, failed writes, the answers about
the subscription and the messages of the peers are part of the action.
-/

namespace Lazybox.Relay

/-! ### The proof of a registration -/

/-- A UUID, as its bytes. -/
structure Uuid where
  bytes : List UInt8
  length_eq : bytes.length = 16
deriving DecidableEq

def bytesOf (s : String) : List UInt8 := s.toUTF8.data.toList

/-- The bytes of a number of 32 bits, the highest first. -/
def toBeBytes (n : ℕ) : List UInt8 :=
  [UInt8.ofNat (n / 16777216), UInt8.ofNat (n / 65536), UInt8.ofNat (n / 256), UInt8.ofNat n]

def registrationDomain : List UInt8 := bytesOf "lazybox-relay-register-v1" ++ [0]

/-- What a box signs to register. -/
def registrationPayload (nonce : Uuid) (boxId boxPublicKey : String) : List UInt8 :=
  registrationDomain ++ nonce.bytes
    ++ (toBeBytes (bytesOf boxId).length ++ bytesOf boxId)
    ++ (toBeBytes (bytesOf boxPublicKey).length ++ bytesOf boxPublicKey)

/-- A public key, a message and a signature of it. -/
abbrev Verify := String → List UInt8 → List UInt8 → Bool

/-- A box id and the key whose possession was proven for it. -/
structure Proven (verify : Verify) where
  boxId : String
  boxPublicKey : String
  nonce : Uuid
  signature : List UInt8
  valid : verify boxPublicKey (registrationPayload nonce boxId boxPublicKey) signature = true

/-! ### The tasks -/

section Tasks

variable (verify : Verify)

/-- A control connection. -/
inductive Registration where
  | unknown
  | challenged (boxId boxPublicKey : String) (nonce : Uuid)
  | proven (own : Proven verify)
  | acknowledged (own : Proven verify)
  /-- In the loop that forwards announcements; they are queued by session. -/
  | serving (own : Proven verify) (announcements : List ℕ)
  /-- Out of the loop and not yet torn down. -/
  | draining (own : Proven verify) (announcements : List ℕ)
  | ended

end Tasks

/-- A registered box.  Its control channel is that of the connection which registered it. -/
structure BoxHandle where
  toBox : ℕ
  account : String
deriving DecidableEq

/-- What a client that waits for a data connection asked for, the control channel it announces
itself on, and its session. -/
structure Parked where
  boxId : String
  toBox : ℕ
  sessionId : ℕ
deriving DecidableEq

/-- A connection of a client. -/
inductive Client where
  | unknown
  | found (boxId : String) (target : BoxHandle)
  | accepted (boxId : String) (target : BoxHandle)
  /-- The client is in the table and announces itself. -/
  | announcing (own : Parked)
  | waiting (own : Parked)
  /-- The client is about to leave the table, and may still hold its end of the hand-over. -/
  | leaving (own : Parked) (listens : Bool)
  | spliced (own : Parked) (boxData : ℕ)
  | turnedAway
  | returned (own : Parked) (boxData : Option ℕ)
deriving DecidableEq

/-- A data connection that presented a session. -/
inductive BoxData where
  | unknown
  /-- The sender of a client was taken out of the table. -/
  | claimed (sessionId client : ℕ)
  | handed (sessionId client : ℕ)
  | refused (sessionId : ℕ)
deriving DecidableEq

structure Server (verify : Verify) where
  boxes : String → Option BoxHandle
  /-- The client whose sender waits under a session. -/
  pending : ℕ → Option ℕ
  registrations : ℕ → Registration verify
  clients : ℕ → Client
  boxData : ℕ → BoxData
  /-- The data connection in the hand-over to a client. -/
  handOver : ℕ → Option ℕ
  /-- The sessions that were given out. -/
  sessions : List ℕ

inductive Act where
  /-- A box asks to register; the challenge may fail to be written. -/
  | registerBox (r : ℕ) (boxId boxPublicKey : String) (nonce : Uuid) (written : Bool)
  /-- The answer to the challenge arrives, or nothing does in time. -/
  | prove (r : ℕ) (signature : Option (List UInt8))
  | entitleBox (r : ℕ) (active written : Bool)
  | insertBox (r : ℕ)
  | forward (r : ℕ) (written : Bool)
  | closeControl (r : ℕ)
  | tearDown (r : ℕ)
  | connectClient (c : ℕ) (boxId : String)
  | entitleClient (c : ℕ) (active written : Bool)
  | park (c sessionId : ℕ)
  | announce (c : ℕ)
  | announceTimeout (c : ℕ)
  | receive (c : ℕ)
  | dataTimeout (c : ℕ)
  | leave (c : ℕ)
  | endSplice (c : ℕ)
  | presentData (d sessionId : ℕ)
  | handOver (d : ℕ)

inductive Obs where
  /-- A client put its session on the control channel of a connection. -/
  | announced (c r sessionId : ℕ)
  /-- The session was written to a control connection. -/
  | told (r sessionId : ℕ)
  | presented (d sessionId : ℕ)
  | spliced (c d : ℕ)
deriving DecidableEq

/-- What becomes of a session that is sent on a control channel: the channel takes it, it is
closed, or it is full. -/
inductive Sent (verify : Verify) where
  | taken (task : Registration verify)
  | closed
  | full

namespace Server

variable {verify : Verify} (s : Server verify)

def new : Server verify where
  boxes := fun _ => none
  pending := fun _ => none
  registrations := fun _ => .unknown
  clients := fun _ => .unknown
  boxData := fun _ => .unknown
  handOver := fun _ => none
  sessions := []

def setRegistration (r : ℕ) (task : Registration verify) : Server verify :=
  { s with registrations := Function.update s.registrations r task }

def setClient (c : ℕ) (task : Client) : Server verify :=
  { s with clients := Function.update s.clients c task }

def setBoxData (d : ℕ) (task : BoxData) : Server verify :=
  { s with boxData := Function.update s.boxData d task }

def setBox (boxId : String) (handle : Option BoxHandle) : Server verify :=
  { s with boxes := Function.update s.boxes boxId handle }

def setPending (sessionId : ℕ) (sender : Option ℕ) : Server verify :=
  { s with pending := Function.update s.pending sessionId sender }

def setHandOver (c : ℕ) (d : Option ℕ) : Server verify :=
  { s with handOver := Function.update s.handOver c d }

/-- A control channel holds sixteen announcements, as long as its receiver is there. -/
def sendAnnouncement (r sessionId : ℕ) : Sent verify :=
  match s.registrations r with
  | .serving own queue =>
      if queue.length < 16 then .taken (.serving own (queue ++ [sessionId])) else .full
  | .draining own queue =>
      if queue.length < 16 then .taken (.draining own (queue ++ [sessionId])) else .full
  | _ => .closed

theorem boxes_setBox_of_ne {boxId boxId' : String} (handle : Option BoxHandle)
    (h : boxId' ≠ boxId) :
  (s.setBox boxId handle).boxes boxId' = s.boxes boxId'
  := Function.update_of_ne h ..

theorem registrations_setRegistration_of_ne {r r' : ℕ} (task : Registration verify) (h : r' ≠ r) :
  (s.setRegistration r task).registrations r' = s.registrations r'
  := Function.update_of_ne h ..

/-! ### The control connections -/

def stepBox : Act → Server verify × List Obs
  | .registerBox r boxId boxPublicKey nonce written =>
      match s.registrations r with
      | .unknown =>
          (s.setRegistration r
            (if written then .challenged boxId boxPublicKey nonce else .ended), [])
      | _ => (s, [])
  | .prove r signature =>
      match s.registrations r, signature with
      | .challenged boxId boxPublicKey nonce, some signature =>
          if valid : verify boxPublicKey (registrationPayload nonce boxId boxPublicKey) signature
          then (s.setRegistration r (.proven ⟨boxId, boxPublicKey, nonce, signature, valid⟩), [])
          else (s.setRegistration r .ended, [])
      | .challenged _ _ _, none => (s.setRegistration r .ended, [])
      | _, _ => (s, [])
  | .entitleBox r active written =>
      match s.registrations r with
      | .proven own =>
          (s.setRegistration r (if active && written then .acknowledged own else .ended), [])
      | _ => (s, [])
  | .insertBox r =>
      match s.registrations r with
      | .acknowledged own =>
          ((s.setBox own.boxId (some ⟨r, own.boxPublicKey⟩)).setRegistration r (.serving own []),
            [])
      | _ => (s, [])
  | .forward r written =>
      match s.registrations r with
      | .serving own (sessionId :: queue) =>
          if written then (s.setRegistration r (.serving own queue), [.told r sessionId])
          else (s.setRegistration r (.draining own queue), [])
      | _ => (s, [])
  | .closeControl r =>
      match s.registrations r with
      | .serving own queue => (s.setRegistration r (.draining own queue), [])
      | _ => (s, [])
  | .tearDown r =>
      match s.registrations r with
      | .draining own _ =>
          let s := s.setRegistration r .ended
          (if (s.boxes own.boxId).any fun handle => handle.toBox = r then s.setBox own.boxId none
            else s, [])
      | _ => (s, [])
  | _ => (s, [])

/-! ### The clients and the data connections -/

def stepClient : Act → Server verify × List Obs
  | .connectClient c boxId =>
      match s.clients c with
      | .unknown =>
          match s.boxes boxId with
          | some handle => (s.setClient c (.found boxId handle), [])
          | none => (s.setClient c .turnedAway, [])
      | _ => (s, [])
  | .entitleClient c active written =>
      match s.clients c with
      | .found boxId target =>
          (s.setClient c (if active && written then .accepted boxId target else .turnedAway), [])
      | _ => (s, [])
  | .park c sessionId =>
      match s.clients c with
      | .accepted boxId target =>
          -- a session is drawn fresh
          if sessionId ∈ s.sessions then (s, [])
          else
            ({ (s.setPending sessionId (some c)).setClient c
                (.announcing ⟨boxId, target.toBox, sessionId⟩) with
              sessions := sessionId :: s.sessions }, [])
      | _ => (s, [])
  | .announce c =>
      match s.clients c with
      | .announcing own =>
          match s.sendAnnouncement own.toBox own.sessionId with
          | .taken task =>
              ((s.setRegistration own.toBox task).setClient c (.waiting own),
                [.announced c own.toBox own.sessionId])
          | .closed => (s.setClient c (.leaving own true), [])
          | .full => (s, [])
      | _ => (s, [])
  | .announceTimeout c =>
      match s.clients c with
      | .announcing own => (s.setClient c (.leaving own true), [])
      | _ => (s, [])
  | .receive c =>
      match s.clients c, s.handOver c with
      | .waiting own, some d =>
          ((s.setHandOver c none).setClient c (.spliced own d), [.spliced c d])
      | _, _ => (s, [])
  | .dataTimeout c =>
      match s.clients c with
      -- a data connection that came too late is dropped with the receiver
      | .waiting own => ((s.setHandOver c none).setClient c (.leaving own false), [])
      | _ => (s, [])
  | .leave c =>
      match s.clients c with
      | .leaving own _ =>
          (((s.setPending own.sessionId none).setHandOver c none).setClient c
            (.returned own none), [])
      | _ => (s, [])
  | .endSplice c =>
      match s.clients c with
      | .spliced own d => (s.setClient c (.returned own (some d)), [])
      | _ => (s, [])
  | _ => (s, [])

/-- The receiver of the hand-over to a client is there. -/
def listens (c : ℕ) : Bool :=
  match s.clients c with
  | .announcing _ | .waiting _ | .leaving _ true => true
  | _ => false

def stepData : Act → Server verify × List Obs
  | .presentData d sessionId =>
      match s.boxData d with
      | .unknown =>
          match s.pending sessionId with
          | some c =>
              ((s.setPending sessionId none).setBoxData d (.claimed sessionId c),
                [.presented d sessionId])
          | none => (s.setBoxData d (.refused sessionId), [.presented d sessionId])
      | _ => (s, [])
  | .handOver d =>
      match s.boxData d with
      | .claimed sessionId c =>
          let s := s.setBoxData d (.handed sessionId c)
          (if s.listens c then s.setHandOver c (some d) else s, [])
      | _ => (s, [])
  | _ => (s, [])

def step (a : Act) : Server verify × List Obs :=
  match a with
  | .presentData .. | .handOver .. => s.stepData a
  | .connectClient .. | .entitleClient .. | .park .. | .announce .. | .announceTimeout ..
  | .receive .. | .dataTimeout .. | .leave .. | .endSplice .. => s.stepClient a
  | _ => s.stepBox a

/-- The runs of the relay. -/
def machine (verify : Verify) : Machine (Server verify) Act Obs := ⟨step⟩

end Server

end Lazybox.Relay
