import Lazybox.Ipc.Socket
import Lazybox.Library.Bytes
import Lazybox.Relay.BoxKeys

/-!
# The handshake of the relay

A connection to the relay starts with messages, each after its length, and goes on with bytes that
the relay copies.  However the stream comes in pieces, each message is read as it was written, and
nothing of what comes after it.  What a box signs to register fits no other registration.
-/

namespace Lazybox.Relay

open Socket (fromBeBytes)

def maxHandshakeBytes : ℕ := 64 * 1024

inductive HandshakeError (ε δ : Type) where
  | eof
  | tooLong
  | peerTooLong
  | encode (error : ε)
  | decode (error : δ)

section Messages

variable {M ε δ : Type} (codec : Codec M ε δ)

def writeMsg (msg : M) : Except (HandshakeError ε δ) (List UInt8) :=
  match codec.encode msg with
  | .error e => .error (.encode e)
  | .ok bytes =>
      if bytes.length ≤ maxHandshakeBytes then .ok (toBeBytes bytes.length ++ bytes)
      else .error .tooLong

/-- Read a message, and nothing after it. -/
def readMsg (src : Source UInt8) : Except (HandshakeError ε δ) M × Source UInt8 :=
  match src.readExact 4 with
  | none => (.error .eof, .exhausted)
  | some (lenBuf, src) =>
      if maxHandshakeBytes < fromBeBytes lenBuf then (.error .peerTooLong, src)
      else
        match src.readExact (fromBeBytes lenBuf) with
        | none => (.error .eof, .exhausted)
        | some (buf, src) =>
            match codec.decode buf with
            | .error e => (.error (.decode e), src)
            | .ok (msg, _) => (.ok msg, src)

/-- Read so many messages, up to one that cannot be read. -/
def readMsgs : ℕ → Source UInt8 → List M × Source UInt8
  | 0, src => ([], src)
  | n + 1, src =>
      match readMsg codec src with
      | (.error _, src) => ([], src)
      | (.ok msg, src) => (readMsgs n src).map (msg :: ·) id

variable {codec} {src : Source UInt8} {msg : M} {frame later : List UInt8}

theorem fromBeBytes_length {bytes : List UInt8} (h : bytes.length ≤ maxHandshakeBytes) :
  fromBeBytes (toBeBytes bytes.length) = bytes.length
  := Socket.fromBeBytes_toBeBytes (h.trans (by decide))

theorem writeMsg_eq_ok (h : writeMsg codec msg = .ok frame) :
  ∃ bytes, codec.encode msg = .ok bytes ∧ bytes.length ≤ maxHandshakeBytes
    ∧ frame = toBeBytes bytes.length ++ bytes
  := by
  rw [writeMsg] at h
  split at h
  · cases h
  · next bytes hbytes =>
    split at h
    · next hmax => exact ⟨bytes, hbytes, hmax, (Except.ok.inj h).symm⟩
    · cases h

theorem readMsg_writeMsg (h : codec.RoundTrips) (hframe : writeMsg codec msg = .ok frame)
    (hsrc : src.stream = frame ++ later) :
  ∃ rest, readMsg codec src = (.ok msg, rest) ∧ rest.stream = later
  := by
  obtain ⟨bytes, hbytes, hmax, rfl⟩ := writeMsg_eq_ok hframe
  rw [List.append_assoc] at hsrc
  obtain ⟨src', hheader, hsrc'⟩ := Source.readExact_append hsrc
  obtain ⟨rest, hbody, hrest⟩ := Source.readExact_append hsrc'
  change src.readExact 4 = _ at hheader
  use rest
  rw [readMsg, hheader]
  dsimp only
  rw [fromBeBytes_length hmax, if_neg (not_lt.mpr hmax), hbody]
  dsimp only
  rw [h msg bytes hbytes]
  exact ⟨rfl, hrest⟩

/-- A message of which a part is missing is not read. -/
theorem readMsg_cut (hframe : writeMsg codec msg = .ok frame) (hsrc : src.stream <+: frame ++ later)
    (hlt : src.stream.length < frame.length) :
  ∃ e rest, readMsg codec src = (.error e, rest)
  := by
  obtain ⟨bytes, _, hmax, rfl⟩ := writeMsg_eq_ok hframe
  obtain hheader | hheader := Nat.lt_or_ge src.stream.length 4
  · rw [readMsg, src.readExact_of_lt hheader]
    exact ⟨_, _, rfl⟩
  · rw [List.append_assoc] at hsrc
    obtain ⟨part, hpart⟩ := List.prefix_of_prefix_length_le (List.prefix_append ..) hsrc hheader
    obtain ⟨rest, hread, hrest⟩ := Source.readExact_append hpart.symm
    have hshort : rest.stream.length < bytes.length := by
      rw [← hpart, List.length_append, List.length_append] at hlt
      exact hrest ▸ Nat.lt_of_add_lt_add_left hlt
    change src.readExact 4 = _ at hread
    rw [readMsg, hread]
    dsimp only
    rw [fromBeBytes_length hmax, if_neg (not_lt.mpr hmax), rest.readExact_of_lt hshort]
    exact ⟨_, _, rfl⟩

variable {msgs : List M} {frames : List (List UInt8)} {raw : List UInt8}

/-- Messages that were written are read in turn, and what comes after them is left. -/
theorem readMsgs_written (h : codec.RoundTrips)
    (hframes : List.Forall₂ (writeMsg codec · = .ok ·) msgs frames)
    (hsrc : src.stream = frames.flatten ++ raw) :
  ∃ rest, readMsgs codec msgs.length src = (msgs, rest) ∧ rest.stream = raw
  := by
  induction hframes generalizing src with
  | nil => exact ⟨src, rfl, hsrc⟩
  | cons hframe _ ih =>
    rw [List.flatten_cons, List.append_assoc] at hsrc
    obtain ⟨src', hread, hsrc'⟩ := readMsg_writeMsg h hframe hsrc
    obtain ⟨rest, hrest, hraw⟩ := ih hsrc'
    use rest
    rw [List.length_cons, readMsgs, hread]
    dsimp only
    rw [hrest]
    exact ⟨rfl, hraw⟩

/-- Bytes are a message as they are. -/
def plain : Codec (List UInt8) Unit Unit := ⟨.ok, fun bytes => .ok (bytes, bytes.length)⟩

/-- Two messages, of one byte and of none, come in three pieces with a byte after them. -/
theorem readMsgs_written_two :
  ∃ rest, readMsgs plain 2 ⟨[[0, 0], [0, 1, 7, 0], [0, 0, 0, 9]], by decide⟩ = ([[7], []], rest)
    ∧ rest.stream = [9]
  := readMsgs_written (fun _ _ h => by cases h; rfl) (.cons rfl (.cons rfl .nil)) rfl

/-- However a stream is cut, what is read of it are the first of the messages written. -/
theorem readMsgs_cut (h : codec.RoundTrips)
    (hframes : List.Forall₂ (writeMsg codec · = .ok ·) msgs frames)
    (hsrc : src.stream <+: frames.flatten ++ raw) :
  (readMsgs codec msgs.length src).1 <+: msgs
  := by
  induction hframes generalizing src with
  | nil => exact List.nil_prefix
  | @cons _ frame _ _ hframe _ ih =>
    rw [List.flatten_cons, List.append_assoc] at hsrc
    rw [List.length_cons, readMsgs]
    obtain hlt | hle := Nat.lt_or_ge src.stream.length frame.length
    · obtain ⟨_, _, hread⟩ := readMsg_cut hframe hsrc hlt
      rw [hread]
      exact List.nil_prefix
    · obtain ⟨part, hpart⟩ := List.prefix_of_prefix_length_le (List.prefix_append ..) hsrc hle
      obtain ⟨rest, hread, hrest⟩ := readMsg_writeMsg h hframe hpart.symm
      rw [← hpart, List.prefix_append_right_inj, ← hrest] at hsrc
      rw [hread]
      exact List.cons_prefix_cons.mpr ⟨rfl, ih hsrc⟩

/-- The stream ends in the length of the second message. -/
theorem readMsgs_cut_two :
  (readMsgs plain 2 ⟨[[0, 0], [0, 1, 7, 0]], by decide⟩).1 <+: [[7], []]
  := readMsgs_cut (fun _ _ h => by cases h; rfl) (.cons rfl (.cons rfl .nil))
    ⟨[0, 0, 0], (List.append_nil _).symm⟩

end Messages

/-! ### What a box signs -/

/-- A text after its length tells where it ends. -/
theorem eq_of_length_append {s t : String} (hs : Short s) (ht : Short t) {p q : List UInt8}
    (h : toBeBytes (bytesOf s).length ++ bytesOf s ++ p
      = toBeBytes (bytesOf t).length ++ bytesOf t ++ q) :
  s = t ∧ p = q
  := by
  rw [List.append_assoc, List.append_assoc] at h
  obtain ⟨hlen, h⟩ := List.append_inj h rfl
  have hread {n : ℕ} (hn : n < 4294967296) : fromBeBytes (toBeBytes n) = n :=
    Socket.fromBeBytes_toBeBytes (Nat.le_of_lt_succ hn)
  have hlength : (bytesOf s).length = (bytesOf t).length := by
    rw [← hread hs, hlen, hread ht]
  obtain ⟨hbytes, hrest⟩ := List.append_inj h hlength
  exact ⟨asBytes_injective hbytes, hrest⟩

/-- What is signed says the challenge, the box id and the key. -/
theorem registrationPayload_injective {nonce nonce' : Uuid} {boxId boxId' key key' : String}
    (hid : Short boxId) (hid' : Short boxId')
    (h : registrationPayload nonce boxId key = registrationPayload nonce' boxId' key') :
  nonce = nonce' ∧ boxId = boxId' ∧ key = key'
  := by
  simp only [registrationPayload, List.append_assoc] at h
  obtain ⟨hnonce, h⟩ := List.append_inj (List.append_cancel_left h)
    (nonce.length_eq.trans nonce'.length_eq.symm)
  rw [← List.append_assoc, ← List.append_assoc (toBeBytes (bytesOf boxId').length)] at h
  obtain ⟨hboxId, hkey⟩ := eq_of_length_append hid hid' h
  have hkeys := (List.append_inj hkey rfl).2
  cases nonce
  cases nonce'
  obtain rfl : _ = _ := hnonce
  exact ⟨rfl, hboxId, asBytes_injective hkeys⟩

theorem registrationPayload_injective_box :
  Server.zeroUuid = Server.zeroUuid ∧ "box" = "box" ∧ "K1" = "K1"
  := by
  have hshort : Short "box" := by
    unfold Short
    decide
  exact registrationPayload_injective hshort hshort rfl

end Lazybox.Relay
