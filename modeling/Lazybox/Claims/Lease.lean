import Lazybox.Library.Run
import Lazybox.Core.ProviderOps
import Lazybox.Core.WorkingClaim

/-!
# The lease of a working claim

A box that works on a task claims it upstream, and keeps a record of its claim.  The claim lapses
unless it is renewed: a heartbeat that is due takes the lease on, saves the record as not applied,
has the note written upstream, and marks the record as applied.  A release has the note
closed, and deletes the record.

What a holder does with its record it does under one lock.  The machine follows one record.  What
the environment answers is part of an action; a write upstream that was reported as failed may have
landed all the same.
-/

namespace Lazybox.Claims

open WorkingClaim (Text WorkingClaimNote)

def workingClaimTtl : ℤ := seconds (60 * 60)

def workingClaimHeartbeat : ℤ := seconds (15 * 60)

/-! ### Records -/

inductive ClaimHolder where
  | pty (backendKey : String)
  | structured (key : String)
deriving DecidableEq, Repr

structure WorkingClaimTarget where
  id : TaskId
  repo : String
deriving DecidableEq, Repr

structure WorkingClaimRecord where
  holder : ClaimHolder
  workspaceKey : Text
  sessionId : Option ℕ
  /-- The thirty-two hexadecimal digits of the session. -/
  claimSession : Text
  ownerId : Text
  target : WorkingClaimTarget
  /-- A label an older build attached upstream. -/
  legacyLabel : Option String
  startedAt : Option Instant
  claimCommentId : Option ℕ
  agent : Option Text
  model : Option Text
  expiresAt : Instant
  applied : Bool
deriving DecidableEq

def isLowerHexDigit (c : Char) : Bool := c.isDigit || ('a' ≤ c && c ≤ 'f')

/-- The device and the session of a lease. -/
def workingClaimIdentity (boxId claimSession : Text) : Option (Text × Text) :=
  if boxId.length < 20 ∨ !boxId.all isLowerHexDigit then none
  else some (boxId.take 20, claimSession.take 10)

/-- What a claim is made of that was not there before. -/
structure FreshClaim where
  holder : ClaimHolder
  workspaceKey : Text
  sessionId : Option ℕ
  claimSession : Text
  target : WorkingClaimTarget

namespace WorkingClaimRecord

variable (r : WorkingClaimRecord)

def new (ownerId : Text) (claim : FreshClaim) (now : Instant) : Option WorkingClaimRecord := do
  let _ ← workingClaimIdentity ownerId claim.claimSession
  return {
    holder := claim.holder
    workspaceKey := claim.workspaceKey
    sessionId := claim.sessionId
    claimSession := claim.claimSession
    ownerId := ownerId
    target := claim.target
    legacyLabel := none
    startedAt := some now
    claimCommentId := none
    agent := none
    model := none
    expiresAt := now + workingClaimTtl
    applied := false }

def identity : Option (Text × Text) := workingClaimIdentity r.ownerId r.claimSession

/-- The claim as it should read upstream. -/
def note (now : Instant) : Option (WorkingClaimNote Instant) := do
  let (device, session) ← r.identity
  return {
    device := device
    session := session
    workspace := some r.workspaceKey
    agent := r.agent
    model := r.model
    startedAt := r.startedAt.getD now
    heartbeatAt := now
    expiresAt := r.expiresAt
    releasedAt := none }

def needsHeartbeat (now : Instant) : Bool :=
  !r.applied || r.expiresAt ≤ now + (workingClaimTtl - workingClaimHeartbeat)
    || r.legacyLabel.isSome

/-- The record as a heartbeat that is due leaves it. -/
def prepareHeartbeat (now : Instant) : Option WorkingClaimRecord :=
  if !r.needsHeartbeat now then none
  else if !r.applied ∧ now + (workingClaimTtl - workingClaimHeartbeat) < r.expiresAt
      ∧ r.legacyLabel = none then
    some r
  else some { r with expiresAt := now + workingClaimTtl, applied := false }

/-- The agent and the model that run under the holder, as far as they are seen. -/
def observe (observed : Option (Text × Option Text)) : WorkingClaimRecord :=
  match observed with
  | none => r
  | some (agent, model) => { r with agent := some agent, model := model.or r.model }

end WorkingClaimRecord

/-! ### Synchronizing -/

inductive SyncAnswer where
  /-- The comment that was written, and whether a label of an older build was removed. -/
  | synced (commentId : ℕ) (labelRemoved : Bool)
  | failed (landed : Bool)

structure HeartbeatAnswers where
  observed : Option (Text × Option Text)
  saved : Bool
  sync : SyncAnswer
  marked : Bool

structure ReleaseAnswers where
  loaded : Bool
  /-- Whether the release was accepted, and, if it was not, whether it landed. -/
  sync : Except Bool Unit
  deleted : Bool

structure AcquireAnswers where
  loaded : Bool
  /-- The claim that is made when there is no record. -/
  claim : Option FreshClaim
  created : Bool

/-- What one holder has of its claim. -/
structure Lease where
  stored : Option WorkingClaimRecord
  /-- What the holder had written upstream, until it let go of it. -/
  upstream : Option (WorkingClaimNote Instant)
  /-- The time of the last attempt. -/
  clock : Instant

namespace Lease

variable (ownerId : Text) (s : Lease)

/-- Have the claim written upstream.  The record is the one that is marked when it was. -/
def syncHold (r : WorkingClaimRecord) (now : Instant) (answer : SyncAnswer) :
    Lease × Option WorkingClaimRecord :=
  match r.note now, answer with
  | none, _ => (s, none)
  | some note, .synced commentId labelRemoved =>
      ({ s with upstream := some note },
        some { r with
          claimCommentId := some commentId
          legacyLabel := if labelRemoved then none else r.legacyLabel })
  | some note, .failed landed => (if landed then { s with upstream := some note } else s, none)

def heartbeatRecord (r : WorkingClaimRecord) (now : Instant) (answers : HeartbeatAnswers) :
    Lease :=
  if r.ownerId ≠ ownerId then s
  else match r.prepareHeartbeat now with
    | none => s
    | some prepared =>
        let record := prepared.observe answers.observed
        if !answers.saved then s
        else
          let (saved, synced) := { s with stored := some record }.syncHold record now answers.sync
          match synced with
          | none => saved
          | some record =>
              if answers.marked then { saved with stored := some { record with applied := true } }
              else saved

def heartbeatHolder (loaded : Bool) (now : Instant) (answers : HeartbeatAnswers) : Lease :=
  match s.stored with
  | none => s
  | some r => if loaded then s.heartbeatRecord ownerId r now answers else s

def acquire (answers : AcquireAnswers) (now later : Instant) (heartbeat : HeartbeatAnswers) :
    Lease :=
  if !answers.loaded then s
  else match s.stored with
    | some r => s.heartbeatRecord ownerId r later heartbeat
    | none =>
        match answers.claim.bind (WorkingClaimRecord.new ownerId · now) with
        | none => s
        | some r =>
            if answers.created then
              { s with stored := some r }.heartbeatRecord ownerId r later heartbeat
            else s

def release (now : Instant) (answers : ReleaseAnswers) : Lease :=
  match s.stored with
  | none => s
  | some r =>
      if !answers.loaded ∨ r.ownerId ≠ ownerId ∨ r.note now = none then s
      else match answers.sync with
        | .ok () =>
            { s with
              stored := if answers.deleted then none else s.stored
              upstream := none }
        | .error landed => if landed then { s with upstream := none } else s

/-- One pass over the record: whether its holder is live may not be known. -/
def maintainOnce (live : Option Bool) (now : Instant) (heartbeatLoaded : Bool)
    (heartbeat : HeartbeatAnswers) (released : ReleaseAnswers) : Lease :=
  match s.stored with
  | none => s
  | some r =>
      if r.ownerId ≠ ownerId then
        if r.expiresAt + workingClaimTtl ≤ now ∧ released.deleted then { s with stored := none }
        else s
      else match live with
        | none => s
        | some true => s.heartbeatHolder ownerId heartbeatLoaded now heartbeat
        | some false => s.release ownerId now released

inductive Act where
  | acquire (answers : AcquireAnswers) (now later : Instant) (heartbeat : HeartbeatAnswers)
  | heartbeat (loaded : Bool) (now : Instant) (answers : HeartbeatAnswers)
  | release (now : Instant) (answers : ReleaseAnswers)
  | maintain (live : Option Bool) (now : Instant) (heartbeatLoaded : Bool)
      (heartbeat : HeartbeatAnswers) (released : ReleaseAnswers)

/-- When an action starts, and when its heartbeat is, if it is later. -/
def Act.times : Act → Instant × Instant
  | .acquire _ now later _ => (now, later)
  | .heartbeat _ now _ | .release now _ | .maintain _ now _ _ _ => (now, now)

def step (a : Act) : Lease :=
  { (match a with
      | .acquire answers now later heartbeat => s.acquire ownerId answers now later heartbeat
      | .heartbeat loaded now answers => s.heartbeatHolder ownerId loaded now answers
      | .release now answers => s.release ownerId now answers
      | .maintain live now loaded heartbeat released =>
          s.maintainOnce ownerId live now loaded heartbeat released) with
    clock := a.times.2 }

def machine : Machine Lease Act Empty := ⟨fun s a => (s.step ownerId a, [])⟩

end Lease

end Lazybox.Claims
