import Lazybox.Ipc.Protocol
import Lazybox.Library.Source
import Mathlib.Data.List.TakeWhile

/-!
# Frames on a socket

A message is sent as one frame, the length of its payload in four bytes followed by the payload.
The writer of a connection gathers the messages that wait for it into one write.  The reader takes
frames off the byte stream, however the stream falls into reads.  It skips a frame that is too long
for its channel but not for the protocol, and it stops at any other fault.

The codec of the payload is a parameter.
-/

namespace Lazybox

/-- A codec of messages `M`.  Decoding also tells how many bytes it consumed. -/
structure Codec (M ε δ : Type) where
  encode : M → Except ε (List UInt8)
  decode : List UInt8 → Except δ (M × ℕ)

/-- What is encoded decodes to the same message, to the last byte. -/
def Codec.RoundTrips {M ε δ : Type} (codec : Codec M ε δ) : Prop :=
  ∀ msg bytes, codec.encode msg = .ok bytes → codec.decode bytes = .ok (msg, bytes.length)

inductive FrameError (ε δ : Type) where
  /-- The stream ended within a frame. -/
  | io
  | tooLarge (len : ℕ)
  | oversizedSkipped (len max : ℕ)
  | encode (error : ε)
  | decode (error : δ)
  | trailingBytes (count : ℕ)
deriving DecidableEq, Repr

namespace Socket

/-- `u32::MAX`. -/
def U32_MAX : ℕ := 0xFFFFFFFF

def MAX_BATCH_MESSAGES : ℕ := 64

def MAX_BATCH_BYTES : ℕ := 256 * 1024

/-- The four bytes of a number, the highest first. -/
def toBeBytes (n : ℕ) : List UInt8 :=
  [.ofNat (n / 0x1000000), .ofNat (n / 0x10000), .ofNat (n / 0x100), .ofNat n]

/-- The number whose bytes these are, the highest first. -/
def fromBeBytes (bytes : List UInt8) : ℕ :=
  bytes.foldl (fun n byte => n * 256 + byte.toNat) 0

variable {M ε δ : Type} (codec : Codec M ε δ)

/-! ### Writing -/

def encodeFrame (msg : M) : Except (FrameError ε δ) (List UInt8) :=
  match codec.encode msg with
  | .error e => .error (.encode e)
  | .ok bytes =>
      if U32_MAX < bytes.length then
        .error (.tooLarge U32_MAX)
      else if MAX_FRAME_BYTES < bytes.length then
        .error (.tooLarge bytes.length)
      else
        .ok (toBeBytes bytes.length ++ bytes)

/-- Gather the messages that wait into the buffer, up to the limits of a batch: the buffer, whether
all of them could be encoded, and the messages still to come.  A message comes with whether it
waits when `try_recv` looks for it. -/
def fillBatch (buf : List UInt8) (batched : ℕ) :
    List (M × Bool) → List UInt8 × Bool × List (M × Bool)
  | [] => (buf, true, [])
  | (msg, waits) :: msgs =>
      if batched < MAX_BATCH_MESSAGES ∧ buf.length < MAX_BATCH_BYTES ∧ waits then
        match encodeFrame codec msg with
        | .ok framed => fillBatch (buf ++ framed) (batched + 1) msgs
        | .error _ => (buf, false, msgs)
      else
        (buf, true, (msg, waits) :: msgs)

theorem length_fillBatch_le (buf : List UInt8) (batched : ℕ) (msgs : List (M × Bool)) :
  (fillBatch codec buf batched msgs).2.2.length ≤ msgs.length
  := by
  induction msgs generalizing buf batched with
  | nil => apply Nat.le_refl
  | cons msg msgs ih =>
    rw [fillBatch]
    split
    · split
      · apply (ih _ _).trans (Nat.le_succ _)
      · apply Nat.le_succ
    · apply Nat.le_refl

/-- The buffers written for the messages of the channel, one write for each batch. -/
def writerLoopBounded : List (M × Bool) → List (List UInt8)
  | [] => []
  | (first, _) :: msgs =>
      match encodeFrame codec first with
      | .error _ => []
      | .ok framed =>
          let batch := fillBatch codec framed 1 msgs
          if batch.2.1 then
            batch.1 :: writerLoopBounded batch.2.2
          else
            -- the messages before one that cannot be encoded are still written
            [batch.1]
termination_by msgs => msgs.length
decreasing_by
  apply Nat.lt_succ_of_le
  apply length_fillBatch_le

/-! ### Reading -/

/-- Read `remaining` bytes and throw them away. -/
def discardExact (src : Source UInt8) (remaining : ℕ) :
    Except (FrameError ε δ) (Source UInt8) :=
  if remaining = 0 then
    .ok src
  else if 0 < (src.read (min remaining 8192)).1.length then
    discardExact (src.read (min remaining 8192)).2
      (remaining - (src.read (min remaining 8192)).1.length)
  else
    .error .io
termination_by remaining

variable {src : Source UInt8}

/-- Discarding goes by the stream, not by the reads. -/
theorem discardExact_append {dropped later : List UInt8} (h : src.stream = dropped ++ later) :
  ∃ rest, discardExact src dropped.length = (.ok rest : Except (FrameError ε δ) _)
    ∧ rest.stream = later
  := by
  induction hn : dropped.length using Nat.strongRecOn generalizing src dropped with
  | ind n ih =>
    rw [discardExact]
    by_cases hzero : n = 0
    · rw [hzero, List.length_eq_zero_iff] at hn
      subst hn
      exact ⟨src, by simp [hzero], h⟩
    · have hpos : 0 < (src.read (min n 8192)).1.length := by
        apply Source.length_read_pos (by omega)
        rw [h]
        intro hnil
        rw [(List.append_eq_nil_iff.mp hnil).1] at hn
        exact hzero hn.symm
      have hle := src.length_read_le (min n 8192)
      have happend := src.read_append (min n 8192)
      rw [if_neg hzero, if_pos hpos]
      rw [h] at happend
      obtain ⟨more, hmore⟩ : (src.read (min n 8192)).1 <+: dropped := by
        apply List.prefix_of_prefix_length_le ⟨_, happend⟩ (List.prefix_append _ _)
        omega
      have hrest : (src.read (min n 8192)).2.stream = more ++ later := by
        rw [← hmore, List.append_assoc] at happend
        exact List.append_cancel_left happend
      have hlength : more.length = n - (src.read (min n 8192)).1.length := by
        have hsum := congrArg List.length hmore
        rw [List.length_append, hn] at hsum
        omega
      exact ih _ (by omega) hrest hlength

/-- Read one frame: the message, or `none` at the end of the stream; and what is left to read. -/
def readFrameLimited (src : Source UInt8) (maxFrameBytes : ℕ) :
    Except (FrameError ε δ) (Option M) × Source UInt8 :=
  match src.readExact 4 with
  | none => (.ok none, .exhausted)
  | some (lenBuf, src) =>
      let len := fromBeBytes lenBuf
      if maxFrameBytes < len then
        if MAX_FRAME_BYTES < len then
          (.error (.tooLarge len), src)
        else
          match discardExact src len with
          | .error e => (.error e, .exhausted)
          | .ok src => (.error (.oversizedSkipped len maxFrameBytes), src)
      else
        match src.readExact len with
        | none => (.error .io, .exhausted)
        | some (buf, src) =>
            match codec.decode buf with
            | .error e => (.error (.decode e), src)
            | .ok (msg, consumed) =>
                if consumed ≠ buf.length then
                  (.error (.trailingBytes (buf.length - consumed)), src)
                else
                  (.ok (some msg), src)

variable {rest : Source UInt8}

/-- What discarding leaves is no longer than what was there. -/
theorem discardExact_length_le
    {remaining : ℕ} (h : discardExact src remaining = (.ok rest : Except (FrameError ε δ) _)) :
  rest.stream.length ≤ src.stream.length
  := by
  induction remaining using Nat.strongRecOn generalizing src with
  | ind remaining ih =>
    rw [discardExact] at h
    split at h
    · cases h
      apply Nat.le_refl
    · split at h
      · have happend := congrArg List.length (src.read_append (min remaining 8192))
        rw [List.length_append] at happend
        have := ih _ (by omega) h
        omega
      · cases h

variable {maxFrameBytes : ℕ}

/-- Every frame takes something off the stream. -/
theorem readFrameLimited_length_lt {result : Except (FrameError ε δ) (Option M)}
    (hresult : result ≠ .ok none) (h : readFrameLimited codec src maxFrameBytes = (result, rest)) :
  rest.stream.length < src.stream.length
  := by
  rw [readFrameLimited] at h
  split at h
  · cases h
    exact absurd rfl hresult
  · next lenBuf src' hheader =>
      obtain ⟨hlen, happend⟩ := Source.readExact_eq_some hheader
      have hshorter : src'.stream.length < src.stream.length := by
        rw [← happend, List.length_append]
        omega
      dsimp only at h
      split at h
      · split at h
        · cases h
          apply hshorter
        · split at h
          · cases h
            apply Nat.zero_lt_of_lt hshorter
          · next hdiscard =>
              cases h
              apply (discardExact_length_le hdiscard).trans_lt hshorter
      · split at h
        · cases h
          apply Nat.zero_lt_of_lt hshorter
        · next hpayload =>
            obtain ⟨-, happend'⟩ := Source.readExact_eq_some hpayload
            have hle : rest.stream.length ≤ src'.stream.length := by
              rw [← happend', List.length_append]
              split at h
              · cases h
                apply Nat.le_add_left
              · split at h
                · cases h
                  apply Nat.le_add_left
                · cases h
                  apply Nat.le_add_left
            apply hle.trans_lt hshorter

/-- The messages the reader hands on, until the stream ends or a frame is at fault. -/
def readerLoopBounded (src : Source UInt8) (maxFrameBytes : ℕ) : List M :=
  match _h : readFrameLimited codec src maxFrameBytes with
  | (.ok (some msg), rest) => msg :: readerLoopBounded rest maxFrameBytes
  | (.ok none, _) => []
  | (.error (.oversizedSkipped _ _), rest) => readerLoopBounded rest maxFrameBytes
  | (.error _, _) => []
termination_by src.stream.length
decreasing_by
  · apply readFrameLimited_length_lt codec _ _h
    simp
  · apply readFrameLimited_length_lt codec _ _h
    simp

/-! ### What is written -/

/-- The message can be sent. -/
def encodable (msg : M) : Bool := (encodeFrame codec msg).isOk

/-- The payload of the message is within the limit of a reader. -/
def payloadFits (maxFrameBytes : ℕ) (msg : M) : Bool :=
  match codec.encode msg with
  | .ok bytes => bytes.length ≤ maxFrameBytes
  | .error _ => false

/-- The frames of the messages one by one, up to the first that cannot be sent. -/
def singleFrames : List M → List (List UInt8)
  | [] => []
  | msg :: msgs =>
      match encodeFrame codec msg with
      | .ok framed => framed :: singleFrames msgs
      | .error _ => []

theorem encodeFrame_eq_ok {msg : M} {framed : List UInt8} (h : encodeFrame codec msg = .ok framed) :
  ∃ bytes, codec.encode msg = .ok bytes ∧ bytes.length ≤ MAX_FRAME_BYTES
    ∧ framed = toBeBytes bytes.length ++ bytes
  := by
  rw [encodeFrame] at h
  split at h
  · cases h
  · next bytes hbytes =>
      split at h
      · cases h
      · split at h
        · cases h
        · next hlen =>
            cases h
            exact ⟨bytes, hbytes, Nat.le_of_not_lt hlen, rfl⟩

/-- A batch is the buffer it started from and the frames of the messages it took. -/
theorem fillBatch_append (buf : List UInt8) (batched : ℕ) (msgs : List (M × Bool)) :
  let batch := fillBatch codec buf batched msgs
  buf ++ (singleFrames codec (msgs.map Prod.fst)).flatten
    = batch.1 ++ if batch.2.1 then (singleFrames codec (batch.2.2.map Prod.fst)).flatten else []
  := by
  induction msgs generalizing buf batched with
  | nil => rfl
  | cons msg msgs ih =>
    obtain ⟨msg, waits⟩ := msg
    dsimp only
    rw [fillBatch]
    split
    · split
      · next framed hframed =>
          rw [← ih]
          simp [singleFrames, hframed]
      · next hrefused => simp [singleFrames, hrefused]
    · rfl

/-- What the writer writes in all is the frames one after the other, whatever the batches. -/
theorem flatten_writerLoopBounded (msgs : List (M × Bool)) :
  (writerLoopBounded codec msgs).flatten = (singleFrames codec (msgs.map Prod.fst)).flatten
  := by
  fun_induction writerLoopBounded codec msgs with
  | case1 => rfl
  | case2 first waits msgs e hrefused => simp [singleFrames, hrefused]
  | case3 first waits msgs framed hframed batch hok ih =>
    have happend := fillBatch_append codec framed 1 msgs
    dsimp only at happend
    rw [if_pos hok] at happend
    rw [List.flatten_cons, ih, List.map_cons, singleFrames, hframed]
    apply happend.symm
  | case4 first waits msgs framed hframed batch hok =>
    have happend := fillBatch_append codec framed 1 msgs
    dsimp only at happend
    rw [if_neg hok, List.append_nil] at happend
    rw [List.flatten_singleton, List.map_cons, singleFrames, hframed]
    apply happend.symm

/-! ### What is read -/

theorem fromBeBytes_toBeBytes {n : ℕ} (h : n ≤ U32_MAX) :
  fromBeBytes (toBeBytes n) = n
  := by
  rw [U32_MAX] at h
  simp only [fromBeBytes, toBeBytes, List.foldl_cons, List.foldl_nil, UInt8.toNat_ofNat']
  omega

/-- A frame on the stream is read to its end: the message, or that it was skipped. -/
theorem readFrameLimited_frame (h : codec.RoundTrips) {msg : M} {bytes later : List UInt8}
    (hbytes : codec.encode msg = .ok bytes) (hmax : bytes.length ≤ MAX_FRAME_BYTES)
    (hsrc : src.stream = toBeBytes bytes.length ++ bytes ++ later) (maxFrameBytes : ℕ) :
  ∃ rest, rest.stream = later ∧ readFrameLimited codec src maxFrameBytes
    = (if maxFrameBytes < bytes.length then
        .error (.oversizedSkipped bytes.length maxFrameBytes)
      else
        .ok (some msg), rest)
  := by
  rw [List.append_assoc] at hsrc
  obtain ⟨src', hheader, hsrc'⟩ := Source.readExact_append hsrc
  have hlen : fromBeBytes (toBeBytes bytes.length) = bytes.length := by
    apply fromBeBytes_toBeBytes
    apply hmax.trans
    decide
  change src.readExact 4 = _ at hheader
  rw [readFrameLimited, hheader]
  dsimp only
  rw [hlen]
  by_cases hlimit : maxFrameBytes < bytes.length
  · obtain ⟨rest, hdiscard, hrest⟩ := discardExact_append (ε := ε) (δ := δ) hsrc'
    use rest
    rw [if_pos hlimit, if_neg (Nat.not_lt.mpr hmax), hdiscard, if_pos hlimit]
    exact ⟨hrest, rfl⟩
  · obtain ⟨rest, hpayload, hrest⟩ := Source.readExact_append hsrc'
    use rest
    rw [if_neg hlimit, hpayload, if_neg hlimit]
    dsimp only
    rw [h msg bytes hbytes]
    exact ⟨hrest, by simp⟩

theorem readerLoopBounded_message
    {msg : M} (h : readFrameLimited codec src maxFrameBytes = (.ok (some msg), rest)) :
  readerLoopBounded codec src maxFrameBytes = msg :: readerLoopBounded codec rest maxFrameBytes
  := by
  rw [readerLoopBounded]
  split
  · next hframe =>
      cases h.symm.trans hframe
      rfl
  · next hframe => cases h.symm.trans hframe
  · next hframe => cases h.symm.trans hframe
  · next hframe => cases h.symm.trans hframe

theorem readerLoopBounded_skipped {len max : ℕ}
    (h : readFrameLimited codec src maxFrameBytes = (.error (.oversizedSkipped len max), rest)) :
  readerLoopBounded codec src maxFrameBytes = readerLoopBounded codec rest maxFrameBytes
  := by
  rw [readerLoopBounded]
  split
  · next hframe => cases h.symm.trans hframe
  · next hframe => cases h.symm.trans hframe
  · next hframe =>
      cases h.symm.trans hframe
      rfl
  · next hother hframe =>
      cases h.symm.trans hframe
      exact absurd rfl (hother _ _)

theorem readerLoopBounded_nil (h : src.stream = []) (maxFrameBytes : ℕ) :
  readerLoopBounded codec src maxFrameBytes = []
  := by
  have hheader : src.readExact 4 = none := by
    apply src.readExact_of_lt
    rw [h]
    decide
  have hread : readFrameLimited codec src maxFrameBytes = (.ok none, .exhausted) := by
    rw [readFrameLimited, hheader]
  rw [readerLoopBounded]
  split
  · next hframe => cases hread.symm.trans hframe
  · rfl
  · next hframe => cases hread.symm.trans hframe
  · rfl

/-- The reader hands on the messages that were sent and fit, however the stream is read. -/
theorem readerLoopBounded_singleFrames (h : codec.RoundTrips) (maxFrameBytes : ℕ) {msgs : List M}
    (hsrc : src.stream = (singleFrames codec msgs).flatten) :
  readerLoopBounded codec src maxFrameBytes
    = (msgs.takeWhile (encodable codec)).filter (payloadFits codec maxFrameBytes)
  := by
  induction msgs generalizing src with
  | nil => apply readerLoopBounded_nil codec hsrc
  | cons msg msgs ih =>
    cases hframed : encodeFrame codec msg with
    | error e =>
      have hrefused : encodable codec msg = false := by rw [encodable, hframed]; rfl
      rw [List.takeWhile_cons_of_neg (by simp [hrefused])]
      apply readerLoopBounded_nil codec
      simpa [singleFrames, hframed] using hsrc
    | ok framed =>
      have haccepted : encodable codec msg = true := by rw [encodable, hframed]; rfl
      obtain ⟨bytes, hbytes, hmax, rfl⟩ := encodeFrame_eq_ok codec hframed
      rw [singleFrames, hframed, List.flatten_cons] at hsrc
      obtain ⟨rest, hrest, hread⟩ :=
        readFrameLimited_frame codec h hbytes hmax hsrc maxFrameBytes
      rw [List.takeWhile_cons_of_pos haccepted]
      by_cases hlimit : maxFrameBytes < bytes.length
      · have hfits : payloadFits codec maxFrameBytes msg = false := by
          simp [payloadFits, hbytes, hlimit]
        rw [if_pos hlimit] at hread
        rw [readerLoopBounded_skipped codec hread, List.filter_cons_of_neg (by simp [hfits]),
          ih hrest]
      · have hfits : payloadFits codec maxFrameBytes msg = true := by
          simp [payloadFits, hbytes, Nat.le_of_not_lt hlimit]
        rw [if_neg hlimit] at hread
        rw [readerLoopBounded_message codec hread, List.filter_cons_of_pos hfits, ih hrest]

/-- Whatever the batches of the writer and the reads of the reader: the writer writes the frames one
after the other; the reader yields the messages in order, up to the first that cannot be sent and
without those over its limit; so it yields all of them if all can be sent and are within the
limit, and exactly those before a message that cannot be sent. -/
theorem wire_round_trip
    (h : codec.RoundTrips) (maxFrameBytes : ℕ) (msgs : List (M × Bool)) (src : Source UInt8)
    (hsrc : src.stream = (writerLoopBounded codec msgs).flatten) :
  let sent := msgs.map Prod.fst
  let received := readerLoopBounded codec src maxFrameBytes
  (writerLoopBounded codec msgs).flatten = (singleFrames codec sent).flatten
    ∧ received = (sent.takeWhile (encodable codec)).filter (payloadFits codec maxFrameBytes)
    ∧ ((∀ msg ∈ sent, encodable codec msg = true ∧ payloadFits codec maxFrameBytes msg = true) →
        received = sent)
    ∧ ∀ before refused after, sent = before ++ refused :: after →
        (∀ msg ∈ before, encodable codec msg = true) → encodable codec refused = false →
        received = before.filter (payloadFits codec maxFrameBytes)
  := by
  intro sent received
  have hwritten := flatten_writerLoopBounded codec msgs
  have hreceived : received
      = (sent.takeWhile (encodable codec)).filter (payloadFits codec maxFrameBytes) :=
    readerLoopBounded_singleFrames codec h maxFrameBytes (hsrc.trans hwritten)
  refine ⟨hwritten, hreceived, ?_, ?_⟩
  · intro hall
    rw [hreceived, List.takeWhile_eq_self_iff.mpr fun msg hmsg => (hall msg hmsg).1,
      List.filter_eq_self.mpr fun msg hmsg => (hall msg hmsg).2]
  · intro before refused after hsplit hbefore hrefused
    rw [hreceived, hsplit, List.takeWhile_append_of_pos hbefore,
      List.takeWhile_cons_of_neg (by simp [hrefused]), List.append_nil]

/-- A codec of byte strings that refuses those with a byte `255` in them. -/
def plainCodec : Codec (List UInt8) Unit Unit where
  encode msg := if 255 ∈ msg then .error () else .ok msg
  decode bytes := .ok (bytes, bytes.length)

/-- Three messages are written in two batches and a fourth is refused; the reader, with a limit of
two bytes and reads of its own, skips the second. -/
theorem wire_round_trip_skipped :
  let msgs : List (List UInt8 × Bool) :=
    [([1], true), ([2, 3, 4], true), ([5], false), ([255], true), ([6], true)]
  let src : Source UInt8 :=
    ⟨[[0], [0, 0, 1, 1, 0, 0], [0, 3, 2, 3], [4, 0, 0, 0, 1, 5]], by decide⟩
  src.stream = (writerLoopBounded plainCodec msgs).flatten
    ∧ readerLoopBounded plainCodec src 2 = [[1], [5]]
  := by
  intro msgs src
  have hround : plainCodec.RoundTrips := by
    intro msg bytes hbytes
    simp only [plainCodec] at hbytes ⊢
    split at hbytes
    · cases hbytes
    · cases hbytes
      rfl
  have hsrc : src.stream = (writerLoopBounded plainCodec msgs).flatten := by
    rw [flatten_writerLoopBounded]
    decide
  refine ⟨hsrc, ?_⟩
  rw [(wire_round_trip plainCodec hround 2 msgs src hsrc).2.1]
  decide

end Socket

end Lazybox
