import Lazybox.Library.Bytes
import Lazybox.Library.Run
import Lazybox.Core.ClaimLines

/-!
# Revocable credentials of devices

A box keeps one record for each paired device in a file, and the secret of the device in a
keystore.  The daemon and a separate command work on both: they read the file anew for every
operation and write it as a whole, by a temporary file that is renamed into place.

The operations are calls that go on step by step, and any number of them are under way.  A step
either succeeds or fails, which is part of the action, as are the random bytes and the time.  The
digest `sha256` is a parameter.
-/

namespace Lazybox.Identity

open WorkingClaim (splitOnce_append)

def hexDigits : List Char := "0123456789abcdef".toList

def hexEncode (bytes : List UInt8) : String :=
  String.ofList (bytes.flatMap fun b =>
    [hexDigits.getD (b.toNat / 16) '0', hexDigits.getD (b.toNat % 16) '0'])

def devicePrincipalId (deviceId : String) : String := "device:" ++ deviceId

structure DeviceRecord where
  id : String
  name : String
  principalId : String
  createdAt : Instant
  revokedAt : Option Instant
  tokenHash : String
  salt : String
deriving DecidableEq, Repr

def DeviceRecord.isRevoked (r : DeviceRecord) : Bool := r.revokedAt.isSome

/-- A comparison whose time does not tell how much matches. -/
def constantTimeEq (a b : List UInt8) : Bool :=
  if a.length ≠ b.length then false
  else (a.zip b).foldl (fun acc (x, y) => acc ||| (x ^^^ y)) 0 = 0

/-- The record that an id finds while it is not revoked. -/
def findLive (records : List DeviceRecord) (id : String) : Option DeviceRecord :=
  records.find? fun r => r.id = id && !r.isRevoked

section Authenticate

variable (sha256 : List UInt8 → List UInt8)

def hashSecret (salt secret : String) : String :=
  hexEncode (sha256 (asBytes salt ++ asBytes secret))

/-- The principal of a token, by what was loaded; nothing when a load that is needed failed. -/
def authenticate (loaded : Option (List DeviceRecord)) (token : String) :
    Option (Option String) :=
  match splitOnce '.' token.toList with
  | none => some none
  | some (id, secret) =>
      match loaded with
      | none => none
      | some records =>
          match findLive records (String.ofList id) with
          | none => some none
          | some record =>
              let candidate := hashSecret sha256 record.salt (String.ofList secret)
              some (if constantTimeEq (asBytes candidate) (asBytes record.tokenHash) then
                some record.principalId else none)

/-- What a device is given, as its random bytes make it. -/
structure Credential where
  name : String
  idBytes : List UInt8
  secretBytes : List UInt8
  saltBytes : List UInt8
  now : Instant
deriving DecidableEq, Repr

namespace Credential

variable (c : Credential)

def id : String := hexEncode c.idBytes

def secret : String := hexEncode c.secretBytes

def record : DeviceRecord where
  id := c.id
  name := c.name
  principalId := devicePrincipalId c.id
  createdAt := c.now
  revokedAt := none
  tokenHash := hashSecret sha256 (hexEncode c.saltBytes) c.secret
  salt := hexEncode c.saltBytes

def token : String := c.id ++ "." ++ c.secret

end Credential

/-! ### The calls -/

/-- A call that rewrites the registry. -/
inductive Job where
  | mint (c : Credential)
  | revoke (id : String)
deriving DecidableEq

/-- Mark the record that an id finds as revoked. -/
def markRevoked (id : String) (now : Instant) : List DeviceRecord → List DeviceRecord
  | [] => []
  | r :: rest =>
      if r.id = id && !r.isRevoked then { r with revokedAt := some now } :: rest
      else r :: markRevoked id now rest

/-- Where a call is. -/
inductive Call where
  | unknown
  /-- A secret is to be stored. -/
  | storing (c : Credential)
  | loading (job : Job)
  /-- The records are to be written to the temporary file. -/
  | writing (job : Job) (records : List DeviceRecord)
  | renaming (job : Job) (records : List DeviceRecord)
  /-- The secret of a device that was revoked is to be deleted. -/
  | purging (id : String)
  /-- The secret of a device that was not recorded is to be deleted. -/
  | rollingBack (id : String)
  | minted (c : Credential)
  | revoked (id : String) (live : Bool)
  | failed
deriving DecidableEq

/-- A file of records; nothing when it cannot be parsed. -/
abbrev Content := Option (List DeviceRecord)

structure Registry where
  /-- The registry; there is no record before the file is first written. -/
  file : Content
  tmp : Option Content
  keystore : String → Option String
  calls : ℕ → Call
  /-- The ids that were drawn. -/
  drawn : List String

inductive Act where
  | mint (i : ℕ) (c : Credential)
  | revoke (i : ℕ) (id : String)
  /-- Store the secret of a device; a write that fails leaves something. -/
  | storeSecret (i : ℕ) (ok : Bool) (left : Option String)
  | load (i : ℕ) (now : Instant) (ok : Bool)
  /-- Write the temporary file; a write that fails leaves something. -/
  | writeTmp (i : ℕ) (ok : Bool) (left : Option Content)
  | rename (i : ℕ) (ok : Bool)
  | purge (i : ℕ) (ok : Bool)
  | rollBack (i : ℕ) (ok : Bool)
  | authenticate (token : String) (ok : Bool)

inductive Obs where
  /-- A mint returned. -/
  | minted (c : Credential)
  /-- A revocation was written to the registry. -/
  | marked (id : String)
  /-- A revocation returned. -/
  | revoked (id : String) (live : Bool)
  /-- A token was looked up, in a registry that could or could not be read. -/
  | authenticated (token : String) (ok : Bool) (answer : Option (Option String))
deriving DecidableEq

namespace Registry

variable (s : Registry)

def new : Registry where
  file := some []
  tmp := none
  keystore := fun _ => none
  calls := fun _ => .unknown
  drawn := []

def setCall (i : ℕ) (call : Call) : Registry :=
  { s with calls := Function.update s.calls i call }

def setSecret (id : String) (token : Option String) : Registry :=
  { s with keystore := Function.update s.keystore id token }

/-- What is left to do once a job could not be written. -/
def unsaved : Job → Call
  | .mint c => .rollingBack c.id
  | .revoke _ => .failed

/-- What is left to do, and what is observed, once a job was written. -/
def saved : Job → Call × List Obs
  | .mint c => (.minted c, [.minted c])
  | .revoke id => (.purging id, [.marked id])

def step : Act → Registry × List Obs
  | .mint i c =>
      -- an id is drawn fresh
      if s.calls i = .unknown ∧ c.id ∉ s.drawn then
        ({ s.setCall i (.storing c) with drawn := c.id :: s.drawn }, [])
      else (s, [])
  | .revoke i id =>
      if s.calls i = .unknown then (s.setCall i (.loading (.revoke id)), []) else (s, [])
  | .storeSecret i ok left =>
      match s.calls i with
      | .storing c =>
          if ok then ((s.setSecret c.id (some c.token)).setCall i (.loading (.mint c)), [])
          else ((s.setSecret c.id left).setCall i .failed, [])
      | _ => (s, [])
  | .load i now ok =>
      match s.calls i, (if ok then s.file else none) with
      | .loading (.mint c), some records =>
          (s.setCall i (.writing (.mint c) (records ++ [c.record sha256])), [])
      | .loading (.revoke id), some records =>
          match findLive records id with
          | some _ => (s.setCall i (.writing (.revoke id) (markRevoked id now records)), [])
          | none => (s.setCall i (.revoked id false), [.revoked id false])
      | .loading _, none => (s.setCall i .failed, [])
      | _, _ => (s, [])
  | .writeTmp i ok left =>
      match s.calls i with
      | .writing job records =>
          if ok then ({ s.setCall i (.renaming job records) with tmp := some (some records) }, [])
          else ({ s.setCall i (unsaved job) with tmp := left }, [])
      | _ => (s, [])
  | .rename i ok =>
      match s.calls i, (if ok then s.tmp else none) with
      | .renaming job _, some content =>
          ({ s.setCall i (saved job).1 with file := content, tmp := none }, (saved job).2)
      | .renaming job _, none => (s.setCall i (unsaved job), [])
      | _, _ => (s, [])
  | .purge i ok =>
      match s.calls i with
      | .purging id =>
          if ok then ((s.setSecret id none).setCall i (.revoked id true), [.revoked id true])
          else (s.setCall i .failed, [])
      | _ => (s, [])
  | .rollBack i ok =>
      match s.calls i with
      | .rollingBack id =>
          (((if ok then s.setSecret id none else s)).setCall i .failed, [])
      | _ => (s, [])
  | .authenticate token ok =>
      (s, [.authenticated token ok
        (Identity.authenticate sha256 (if ok then s.file else none) token)])

/-- The runs of a registry. -/
def machine : Machine Registry Act Obs := ⟨step sha256⟩

end Registry

end Authenticate

end Lazybox.Identity
