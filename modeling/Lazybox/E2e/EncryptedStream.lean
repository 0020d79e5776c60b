import Lazybox.Library.Run

/-!
# The encrypted stream

An encrypted stream is a byte stream on top of another.  A write is cut to what one message of
the cipher holds, encrypted, and staged as one frame, the length of the ciphertext in two bytes
followed by the ciphertext.  The frame is pushed onto the stream underneath as far as that takes
it; the next write or flush pushes the rest.  A read collects one frame, in as many pieces as the
stream underneath returns it in, decrypts it, and hands its plaintext out in pieces of the
reader's choosing.

A poll comes with the replies of the stream underneath, one for each time it is asked.  When they
are used up the stream underneath is pending.  The cipher is a parameter; it counts messages, and
the counter is a natural number.
-/

namespace Lazybox

def NOISE_MAX_MSG_LEN : ℕ := 65535

def NOISE_TAG_LEN : ℕ := 16

def MAX_PAYLOAD_LEN : ℕ := NOISE_MAX_MSG_LEN - NOISE_TAG_LEN

/-- A cipher of numbered messages. -/
structure Cipher where
  encrypt : ℕ → List UInt8 → List UInt8
  decrypt : ℕ → List UInt8 → Option (List UInt8)

/-- A message that is decrypted in its turn is what was encrypted; its ciphertext is longer by the
tag. -/
structure Cipher.Lawful (c : Cipher) : Prop where
  length_encrypt : ∀ n plain, (c.encrypt n plain).length = plain.length + NOISE_TAG_LEN
  decrypt_encrypt : ∀ n plain, c.decrypt n (c.encrypt n plain) = some plain

inductive IoError where
  /-- The stream underneath failed. -/
  | underlying
  | unexpectedEof (message : String)
  | writeZero (message : String)
  | invalidData
deriving DecidableEq, Repr

inductive Poll (α : Type) where
  | pending
  | ready (result : Except IoError α)

/-- `snow` refuses a message that would be too long. -/
def Cipher.writeMessage (c : Cipher) (n : ℕ) (plain : List UInt8) :
    Except IoError (List UInt8) :=
  if NOISE_MAX_MSG_LEN < plain.length + NOISE_TAG_LEN then .error .invalidData
  else .ok (c.encrypt n plain)

def Cipher.readMessage (c : Cipher) (n : ℕ) (cipher : List UInt8) :
    Except IoError (List UInt8) :=
  match c.decrypt n cipher with
  | none => .error .invalidData
  | some plain => .ok plain

/-- The two bytes of a number, the higher one first; of a longer number its lowest two. -/
def u16ToBeBytes (n : ℕ) : List UInt8 := [.ofNat (n / 256), .ofNat n]

/-- The number whose bytes these are, the highest first. -/
def u16FromBeBytes (bytes : List UInt8) : ℕ :=
  bytes.foldl (fun n byte => n * 256 + byte.toNat) 0

/-- The part that was read of one frame. -/
structure RxFrame where
  lenBuf : List UInt8
  haveLen : Bool
  /-- The length of the payload. -/
  need : ℕ
  payload : List UInt8
deriving DecidableEq, Repr

def RxFrame.default : RxFrame := ⟨[], false, 0, []⟩

structure EncryptedStream where
  /-- The numbers of the next message to encrypt and to decrypt. -/
  sending : ℕ
  receiving : ℕ
  rx : RxFrame
  rxPlain : List UInt8
  rxPos : ℕ
  txBuf : List UInt8
  txPos : ℕ
deriving DecidableEq, Repr

def EncryptedStream.new : EncryptedStream := ⟨0, 0, .default, [], 0, [], 0⟩

/-! ### Writing -/

/-- A reply of the writer underneath: it took so many bytes, or failed. -/
inductive WriteReply where
  | took (n : ℕ)
  | failed
deriving DecidableEq, Repr

/-- How draining ends: the stream, what was pushed, the replies left over, and the result. -/
structure Drained where
  stream : EncryptedStream
  pushed : List UInt8
  replies : List WriteReply
  result : Poll Unit

namespace EncryptedStream

def pollDrain (s : EncryptedStream) : List WriteReply → Drained
  | [] =>
      if s.txPos < s.txBuf.length then ⟨s, [], [], .pending⟩
      else ⟨{ s with txBuf := [], txPos := 0 }, [], [], .ready (.ok ())⟩
  | reply :: replies =>
      if s.txPos < s.txBuf.length then
        match reply with
        | .failed => ⟨s, [], replies, .ready (.error .underlying)⟩
        | .took n =>
            let n := min n (s.txBuf.length - s.txPos)
            if n = 0 then
              ⟨s, [], replies, .ready (.error (.writeZero "underlying writer accepted no bytes"))⟩
            else
              let rest := pollDrain { s with txPos := s.txPos + n } replies
              { rest with pushed := (s.txBuf.drop s.txPos).take n ++ rest.pushed }
      else ⟨{ s with txBuf := [], txPos := 0 }, [], reply :: replies, .ready (.ok ())⟩

/-- How a write ends: the stream, what was pushed, the ciphertext that was staged, and how many
bytes were accepted. -/
structure Written where
  stream : EncryptedStream
  pushed : List UInt8
  staged : Option (List UInt8)
  result : Poll ℕ

/-- A frame for a ciphertext. -/
def frame (cipher : List UInt8) : List UInt8 := u16ToBeBytes cipher.length ++ cipher

def pollWrite (c : Cipher) (s : EncryptedStream) (buf : List UInt8) (replies : List WriteReply) :
    Written :=
  let drained := s.pollDrain replies
  match drained.result with
  | .pending => ⟨drained.stream, drained.pushed, none, .pending⟩
  | .ready (.error e) => ⟨drained.stream, drained.pushed, none, .ready (.error e)⟩
  | .ready (.ok ()) =>
      if buf = [] then ⟨drained.stream, drained.pushed, none, .ready (.ok 0)⟩
      else
        let n := min buf.length MAX_PAYLOAD_LEN
        match c.writeMessage drained.stream.sending (buf.take n) with
        | .error e => ⟨drained.stream, drained.pushed, none, .ready (.error e)⟩
        | .ok cipher =>
            let s := { drained.stream with
              sending := drained.stream.sending + 1, txBuf := frame cipher, txPos := 0 }
            let again := s.pollDrain drained.replies
            let pushed := drained.pushed ++ again.pushed
            match again.result with
            | .ready (.error e) => ⟨again.stream, pushed, some cipher, .ready (.error e)⟩
            | .pending | .ready (.ok ()) => ⟨again.stream, pushed, some cipher, .ready (.ok n)⟩

end EncryptedStream

/-! ### Reading -/

/-- A reply of the reader underneath: it returns up to `n + 1` bytes of what there is, or
fails. -/
inductive ReadReply where
  | upTo (n : ℕ)
  | failed
deriving DecidableEq, Repr

/-- How collecting a frame ends: the frame so far, the bytes underneath, the replies left over,
and the result. -/
structure Received where
  rx : RxFrame
  wire : List UInt8
  replies : List ReadReply
  result : Poll (Option (List UInt8))

namespace RxFrame

/-- How many bytes are still to come, of the length or of the payload. -/
def space (rx : RxFrame) : ℕ :=
  if rx.haveLen then rx.need - rx.payload.length else 2 - rx.lenBuf.length

/-- The frame is all there. -/
def complete (rx : RxFrame) : Bool := rx.haveLen && rx.need ≤ rx.payload.length

/-- Bytes that were read are added. -/
def fill (rx : RxFrame) (got : List UInt8) : RxFrame :=
  if rx.haveLen then { rx with payload := rx.payload ++ got }
  else if (rx.lenBuf ++ got).length = 2 then
    ⟨rx.lenBuf ++ got, true, u16FromBeBytes (rx.lenBuf ++ got), []⟩
  else { rx with lenBuf := rx.lenBuf ++ got }

/-- What the end of the stream means. -/
def atEof (rx : RxFrame) : Except IoError (Option (List UInt8)) :=
  if rx.haveLen then .error (.unexpectedEof "EOF within a frame payload")
  else if rx.lenBuf = [] then .ok none
  else .error (.unexpectedEof "EOF within a frame length prefix")

end RxFrame

/-- Collect one frame from the bytes underneath, of which no more come if it is closed. -/
def pollRecvFrame (rx : RxFrame) (wire : List UInt8) (closed : Bool) :
    List ReadReply → Received
  | [] =>
      if rx.complete then ⟨.default, wire, [], .ready (.ok (some rx.payload))⟩
      else ⟨rx, wire, [], .pending⟩
  | reply :: replies =>
      if rx.complete then ⟨.default, wire, reply :: replies, .ready (.ok (some rx.payload))⟩
      else match reply with
      | .failed => ⟨rx, wire, replies, .ready (.error .underlying)⟩
      | .upTo n =>
          if wire = [] then
            if closed then ⟨rx, wire, replies, .ready rx.atEof⟩ else ⟨rx, wire, replies, .pending⟩
          else
            let got := wire.take (min (n + 1) rx.space)
            pollRecvFrame (rx.fill got) (wire.drop got.length) closed replies

/-- A frame that is returned was there, or took replies. -/
theorem pollRecvFrame_lt {rx : RxFrame} {wire : List UInt8} {closed : Bool}
    {replies : List ReadReply} {frame : List UInt8}
    (h : (pollRecvFrame rx wire closed replies).result = .ready (.ok (some frame))) :
  (pollRecvFrame rx wire closed replies).rx = .default
    ∧ 2 * (pollRecvFrame rx wire closed replies).replies.length
      < 2 * replies.length + (if rx.complete then 1 else 0)
  := by
  induction replies generalizing rx wire with
  | nil =>
    unfold pollRecvFrame at h ⊢
    split at h
    · rename_i hcomplete
      simp [hcomplete]
    · simp at h
  | cons reply replies ih =>
    unfold pollRecvFrame at h ⊢
    split at h
    · rename_i hcomplete
      simp [hcomplete]
    · rename_i hcomplete
      simp only [hcomplete, Bool.false_eq_true, if_false]
      cases reply with
      | failed => simp at h
      | upTo n =>
        by_cases hwire : wire = []
        · simp only [hwire, if_true] at h
          split at h
          · simp [RxFrame.atEof] at h
            split at h
            · simp at h
            · split at h <;> simp at h
          · simp at h
        · simp only [hwire, if_false] at h ⊢
          obtain ⟨hrx, hlt⟩ := ih h
          constructor
          · exact hrx
          · simp only [List.length_cons]
            split at hlt <;> omega

/-- How a read ends: the stream, the bytes underneath, and the bytes that were read. -/
structure ReadOut where
  stream : EncryptedStream
  wire : List UInt8
  result : Poll (List UInt8)

namespace EncryptedStream

def pollRead (c : Cipher) (s : EncryptedStream) (wire : List UInt8) (closed : Bool) (want : ℕ)
    (replies : List ReadReply) : ReadOut :=
  if s.rxPos < s.rxPlain.length then
    let n := min want (s.rxPlain.length - s.rxPos)
    let bytes := (s.rxPlain.drop s.rxPos).take n
    let s := if s.rxPos + n = s.rxPlain.length then { s with rxPlain := [], rxPos := 0 }
      else { s with rxPos := s.rxPos + n }
    ⟨s, wire, .ready (.ok bytes)⟩
  else
    let received := pollRecvFrame s.rx wire closed replies
    let s := { s with rx := received.rx }
    match _h : received.result with
    | .pending => ⟨s, received.wire, .pending⟩
    | .ready (.error e) => ⟨s, received.wire, .ready (.error e)⟩
    | .ready (.ok none) => ⟨s, received.wire, .ready (.ok [])⟩
    | .ready (.ok (some frame)) =>
        match c.readMessage s.receiving frame with
        | .error e => ⟨s, received.wire, .ready (.error e)⟩
        | .ok plain =>
            pollRead c { s with receiving := s.receiving + 1, rxPlain := plain, rxPos := 0 }
              received.wire closed want received.replies
termination_by 2 * replies.length + (if s.rx.complete then 1 else 0)
decreasing_by
  obtain ⟨hrx, hlt⟩ := pollRecvFrame_lt _h
  simp only [received, hrx, RxFrame.default, RxFrame.complete, Bool.false_and, Bool.false_eq_true,
    if_false]
  exact hlt

end EncryptedStream

/-! ### Two ends of a stream -/

/-- One direction between the two ends: the bytes the stream underneath has taken and not yet
returned, and whether it is closed. -/
structure Tunnel where
  sender : EncryptedStream
  receiver : EncryptedStream
  wire : List UInt8
  closed : Bool
deriving DecidableEq, Repr

namespace Tunnel

inductive Act where
  | write (buf : List UInt8) (replies : List WriteReply)
  /-- A flush, and how that of the stream underneath ends. -/
  | flush (replies : List WriteReply) (inner : Poll Unit)
  | shutdown (replies : List WriteReply) (inner : Poll Unit)
  /-- The stream underneath ends; so many bytes of what it has taken still come through. -/
  | cut (kept : ℕ)
  | read (want : ℕ) (replies : List ReadReply)

inductive Obs where
  /-- A ciphertext was staged. -/
  | staged (cipher : List UInt8)
  /-- A write reported that it accepted these bytes. -/
  | accepted (bytes : List UInt8)
  | flushed
  | writeFailed (error : IoError)
  /-- A read returned these bytes. -/
  | got (bytes : List UInt8)
  /-- A read that asked for bytes returned none. -/
  | eof
  | readFailed (error : IoError)
deriving DecidableEq, Repr

def new : Tunnel := ⟨.new, .new, [], false⟩

/-- What the stream underneath takes is lost once it is closed. -/
def carry (s : Tunnel) (pushed : List UInt8) : List UInt8 :=
  if s.closed then s.wire else s.wire ++ pushed

def write (c : Cipher) (s : Tunnel) (buf : List UInt8) (replies : List WriteReply) :
    Tunnel × List Obs :=
  let written := s.sender.pollWrite c buf replies
  let reported := match written.result with
    | .pending => []
    | .ready (.ok n) => [.accepted (buf.take n)]
    | .ready (.error e) => [.writeFailed e]
  ({ s with sender := written.stream, wire := s.carry written.pushed },
    written.staged.toList.map .staged ++ reported)

/-- Drain, then pass the request on; whether it went through. -/
def drainThen (s : Tunnel) (replies : List WriteReply) (inner : Poll Unit) :
    Tunnel × Poll Unit :=
  let drained := s.sender.pollDrain replies
  let s := { s with sender := drained.stream, wire := s.carry drained.pushed }
  match drained.result with
  | .pending => (s, .pending)
  | .ready (.error e) => (s, .ready (.error e))
  | .ready (.ok ()) => (s, inner)

def flush (s : Tunnel) (replies : List WriteReply) (inner : Poll Unit) : Tunnel × List Obs :=
  match s.drainThen replies inner with
  | (s, .pending) => (s, [])
  | (s, .ready (.error e)) => (s, [.writeFailed e])
  | (s, .ready (.ok ())) => (s, [.flushed])

def shutdown (s : Tunnel) (replies : List WriteReply) (inner : Poll Unit) :
    Tunnel × List Obs :=
  match s.drainThen replies inner with
  | (s, .pending) => (s, [])
  | (s, .ready (.error e)) => (s, [.writeFailed e])
  | (s, .ready (.ok ())) => ({ s with closed := true }, [])

def read (c : Cipher) (s : Tunnel) (want : ℕ) (replies : List ReadReply) :
    Tunnel × List Obs :=
  let out := s.receiver.pollRead c s.wire s.closed want replies
  ({ s with receiver := out.stream, wire := out.wire },
    match out.result with
    | .pending => []
    | .ready (.error e) => [.readFailed e]
    | .ready (.ok bytes) => if bytes = [] ∧ 0 < want then [.eof] else [.got bytes])

def step (c : Cipher) (s : Tunnel) : Act → Tunnel × List Obs
  | .write buf replies => s.write c buf replies
  | .flush replies inner => s.flush replies inner
  | .shutdown replies inner => s.shutdown replies inner
  | .cut kept => ({ s with wire := s.wire.take kept, closed := true }, [])
  | .read want replies => s.read c want replies

/-- The runs of the two ends. -/
def machine (c : Cipher) : Machine Tunnel Act Obs where
  step := step c

end Tunnel

end Lazybox
