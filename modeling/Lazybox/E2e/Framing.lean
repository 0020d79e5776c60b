import Lazybox.E2e.EncryptedStream

/-!
# What one poll of an encrypted stream does

Draining pushes the bytes that are staged, in order, and loses none.  Collecting a frame keeps the
bytes it has read in front of those still to come; it returns a payload only when it has the whole
of it, and it tells an end of the stream at the boundary of a frame from an end within one.  These
are the laws of `pollDrain`, `pollWrite` and `pollRecvFrame`, whatever the stream underneath
replies.
-/

namespace Lazybox

/-! ### Writing -/

/-- A reply that is neither a failure nor a refusal to take anything. -/
def WriteReply.Sound : WriteReply → Prop
  | .took n => 0 < n
  | .failed => False

namespace EncryptedStream

/-- The bytes that are staged and not yet pushed. -/
def staged (s : EncryptedStream) : List UInt8 := s.txBuf.drop s.txPos

/-- Draining pushes what is staged, in order. -/
theorem pollDrain_pushed (s : EncryptedStream) (replies : List WriteReply) :
  (s.pollDrain replies).pushed ++ (s.pollDrain replies).stream.staged = s.staged
  := by
  induction replies generalizing s with
  | nil =>
    unfold pollDrain
    split
    · rfl
    · rename_i h
      simp [staged, List.drop_eq_nil_of_le (Nat.le_of_not_lt h)]
  | cons reply replies ih =>
    unfold pollDrain
    split
    · cases reply with
      | failed => rfl
      | took n =>
        dsimp only
        split
        · rfl
        · simp only [List.append_assoc, ih]
          rw [staged, staged, ← List.drop_drop, List.take_append_drop]
    · rename_i h
      simp [staged, List.drop_eq_nil_of_le (Nat.le_of_not_lt h)]

/-- Draining touches nothing but what is staged. -/
theorem pollDrain_sending (s : EncryptedStream) (replies : List WriteReply) :
  (s.pollDrain replies).stream.sending = s.sending
  := by
  induction replies generalizing s with
  | nil =>
    unfold pollDrain
    split <;> rfl
  | cons reply replies ih =>
    unfold pollDrain
    split
    · cases reply with
      | failed => rfl
      | took n =>
        dsimp only
        split
        · rfl
        · rw [ih]
    · rfl

variable {replies : List WriteReply} {s : EncryptedStream}

/-- Once draining is done nothing is staged. -/
theorem pollDrain_ok (h : (s.pollDrain replies).result = .ready (.ok ())) :
  (s.pollDrain replies).stream.staged = []
  := by
  induction replies generalizing s with
  | nil =>
    unfold pollDrain at h ⊢
    split
    · rename_i hlt
      simp [hlt] at h
    · rfl
  | cons reply replies ih =>
    unfold pollDrain at h ⊢
    split
    · rename_i hlt
      simp only [hlt, if_true] at h
      cases reply with
      | failed => simp at h
      | took n =>
        dsimp only at h ⊢
        split
        · rename_i hzero
          simp [hzero] at h
        · rename_i hzero
          simp only [hzero, if_false] at h
          apply ih h
    · rfl

/-- Sound replies let draining fail at nothing, and what is left of them is sound. -/
theorem pollDrain_sound (h : ∀ reply ∈ replies, reply.Sound) :
  (∀ e, (s.pollDrain replies).result ≠ .ready (.error e))
    ∧ ∀ reply ∈ (s.pollDrain replies).replies, reply.Sound
  := by
  induction replies generalizing s with
  | nil =>
    unfold pollDrain
    split <;> simp
  | cons reply replies ih =>
    unfold pollDrain
    split
    · rename_i hlt
      have hreply := h reply List.mem_cons_self
      cases reply with
      | failed => exact hreply.elim
      | took n =>
        have hpos : 0 < n := hreply
        have hmin : min n (s.txBuf.length - s.txPos) ≠ 0 := by omega
        simp only [hmin, if_false]
        apply ih
        exact fun reply hreply => h reply (List.mem_cons_of_mem _ hreply)
    · exact ⟨by simp, h⟩

/-- The chunk of a buffer that one message holds. -/
def chunk (buf : List UInt8) : List UInt8 := buf.take (min buf.length MAX_PAYLOAD_LEN)

theorem length_chunk_le (buf : List UInt8) :
  (chunk buf).length ≤ MAX_PAYLOAD_LEN
  := by
  rw [chunk, List.length_take]
  omega

variable {buf : List UInt8}

theorem chunk_ne_nil (h : buf ≠ []) :
  chunk buf ≠ []
  := by
  have hpos := List.length_pos_iff.mpr h
  intro hnil
  have hlength := congrArg List.length hnil
  simp [chunk, MAX_PAYLOAD_LEN, NOISE_MAX_MSG_LEN, NOISE_TAG_LEN] at hlength
  exact h hlength

/-- A chunk is short enough to be encrypted. -/
theorem writeMessage_chunk (c : Cipher) (n : ℕ) (buf : List UInt8) :
  c.writeMessage n (chunk buf) = .ok (c.encrypt n (chunk buf))
  := by
  have hle := length_chunk_le buf
  rw [Cipher.writeMessage, if_neg]
  simp only [MAX_PAYLOAD_LEN, NOISE_MAX_MSG_LEN, NOISE_TAG_LEN] at hle ⊢
  omega

/-- The stream with the frame of a message staged, as a write leaves it before it drains. -/
def stage (s : EncryptedStream) (cipher : List UInt8) : EncryptedStream :=
  { s with sending := s.sending + 1, txBuf := frame cipher, txPos := 0 }

/-- A write whose first drain is done stages the frame of a chunk and drains once more. -/
theorem pollWrite_stage
    {c : Cipher} (hdrained : (s.pollDrain replies).result = .ready (.ok ())) (hbuf : buf ≠ []) :
  let cipher := c.encrypt s.sending (chunk buf)
  let again := ((s.pollDrain replies).stream.stage cipher).pollDrain (s.pollDrain replies).replies
  s.pollWrite c buf replies
    = ⟨again.stream, (s.pollDrain replies).pushed ++ again.pushed, some cipher,
        match again.result with
        | .ready (.error e) => .ready (.error e)
        | _ => .ready (.ok (min buf.length MAX_PAYLOAD_LEN))⟩
  := by
  have hmessage := writeMessage_chunk c s.sending buf
  unfold pollWrite
  dsimp only
  rw [hdrained]
  dsimp only
  rw [if_neg hbuf, pollDrain_sending, ← chunk, hmessage]
  dsimp only [stage]
  rw [pollDrain_sending]
  split <;> rename_i hresult <;> rw [hresult]

/-- What a write does: it accepts nothing, or it stages the frame of a chunk behind what was
staged. -/
inductive Writes (c : Cipher) (s : EncryptedStream) (buf : List UInt8) : Written → Prop where
  | waits {stream pushed} (pushed_eq : pushed ++ stream.staged = s.staged)
      (sending : stream.sending = s.sending) :
      Writes c s buf ⟨stream, pushed, none, .pending⟩
  | fails {stream pushed e} (pushed_eq : pushed ++ stream.staged = s.staged)
      (sending : stream.sending = s.sending) :
      Writes c s buf ⟨stream, pushed, none, .ready (.error e)⟩
  | empty {stream pushed} (pushed_eq : pushed ++ stream.staged = s.staged)
      (sending : stream.sending = s.sending) :
      Writes c s buf ⟨stream, pushed, none, .ready (.ok 0)⟩
  | stages {stream pushed result} (nonempty : buf ≠ [])
      (pushed_eq : pushed ++ stream.staged
        = s.staged ++ frame (c.encrypt s.sending (chunk buf)))
      (sending : stream.sending = s.sending + 1)
      (accepted : (∃ e, result = .ready (.error e))
        ∨ result = .ready (.ok (min buf.length MAX_PAYLOAD_LEN))) :
      Writes c s buf ⟨stream, pushed, some (c.encrypt s.sending (chunk buf)), result⟩

theorem writes (c : Cipher) (s : EncryptedStream) (buf : List UInt8) (replies : List WriteReply) :
  Writes c s buf (s.pollWrite c buf replies)
  := by
  have hpushed := s.pollDrain_pushed replies
  have hsending := s.pollDrain_sending replies
  by_cases hstages : (s.pollDrain replies).result = .ready (.ok ()) ∧ buf ≠ []
  · obtain ⟨hdrained, hbuf⟩ := hstages
    rw [pollWrite_stage hdrained hbuf]
    apply Writes.stages hbuf
    · -- what was staged before is pushed by now, so the new frame comes right behind it
      rw [pollDrain_ok hdrained, List.append_nil] at hpushed
      rw [List.append_assoc, pollDrain_pushed, hpushed]
      rfl
    · rw [pollDrain_sending, stage, hsending]
    · split
      · exact .inl ⟨_, rfl⟩
      · exact .inr rfl
  · unfold pollWrite
    dsimp only
    split
    · apply Writes.waits hpushed hsending
    · apply Writes.fails hpushed hsending
    · rename_i hdrained
      have hbuf : buf = [] := by
        by_contra hbuf
        exact hstages ⟨hdrained, hbuf⟩
      rw [if_pos hbuf]
      apply Writes.empty hpushed hsending

/-- A write does not fail over sound replies. -/
theorem pollWrite_sound {c : Cipher} (h : ∀ reply ∈ replies, reply.Sound) (e : IoError) :
  (s.pollWrite c buf replies).result ≠ .ready (.error e)
  := by
  obtain ⟨hfirst, hleft⟩ := pollDrain_sound (s := s) h
  by_cases hstages : (s.pollDrain replies).result = .ready (.ok ()) ∧ buf ≠ []
  · obtain ⟨hdrained, hbuf⟩ := hstages
    rw [pollWrite_stage hdrained hbuf]
    dsimp only
    split
    · rename_i hresult
      exact absurd hresult ((pollDrain_sound hleft).1 _)
    · simp
  · unfold pollWrite
    dsimp only
    split
    · simp
    · rename_i hresult
      exact absurd hresult (hfirst _)
    · rename_i hdrained
      have hbuf : buf = [] := by
        by_contra hbuf
        exact hstages ⟨hdrained, hbuf⟩
      simp [hbuf]

end EncryptedStream

/-! ### The length of a frame -/

/-- Two bytes hold every length a message has. -/
theorem u16FromBeBytes_toBeBytes {n : ℕ} (h : n ≤ NOISE_MAX_MSG_LEN) :
  u16FromBeBytes (u16ToBeBytes n) = n
  := by
  rw [NOISE_MAX_MSG_LEN] at h
  simp only [u16FromBeBytes, u16ToBeBytes, List.foldl_cons, List.foldl_nil, UInt8.toNat_ofNat']
  omega

/-- Bytes start with a whole frame in at most one way. -/
theorem frame_unique {header payload rest header' payload' rest' : List UInt8}
    (hlength : header.length = 2) (hlength' : header'.length = 2)
    (hneed : u16FromBeBytes header = payload.length)
    (hneed' : u16FromBeBytes header' = payload'.length)
    (h : header ++ (payload ++ rest) = header' ++ (payload' ++ rest')) :
  header = header' ∧ payload = payload' ∧ rest = rest'
  := by
  obtain ⟨rfl, htail⟩ := List.append_inj h (hlength.trans hlength'.symm)
  constructor
  · rfl
  · apply List.append_inj htail
    rw [← hneed, hneed']

/-- A sequence of whole frames. -/
inductive Frames : List UInt8 → Prop where
  | nil : Frames []
  | cons {header payload rest} (hlength : header.length = 2)
      (hneed : u16FromBeBytes header = payload.length) (hrest : Frames rest) :
      Frames (header ++ (payload ++ rest))

/-- A whole frame at the front changes nothing. -/
theorem frames_cons_iff {header payload rest : List UInt8} (hlength : header.length = 2)
    (hneed : u16FromBeBytes header = payload.length) :
  Frames (header ++ (payload ++ rest)) ↔ Frames rest
  := by
  constructor
  · intro h
    generalize hbytes : header ++ (payload ++ rest) = bytes at h
    cases h with
    | nil =>
      have hnil := congrArg List.length hbytes
      simp [hlength] at hnil
    | cons hlength' hneed' hrest =>
      obtain ⟨-, -, rfl⟩ := frame_unique hlength hlength' hneed hneed' hbytes
      apply hrest
  · apply Frames.cons hlength hneed

/-! ### Collecting a frame -/

namespace RxFrame

/-- The bytes that were read. -/
def bytes (rx : RxFrame) : List UInt8 := rx.lenBuf ++ rx.payload

/-- The payload is only read behind its length. -/
def Sane (rx : RxFrame) : Prop :=
  if rx.haveLen then
    rx.lenBuf.length = 2 ∧ rx.need = u16FromBeBytes rx.lenBuf ∧ rx.payload.length ≤ rx.need
  else rx.lenBuf.length < 2 ∧ rx.payload = []

/-- Part of a frame: it is not all there. -/
structure Partial (rx : RxFrame) : Prop where
  sane : rx.Sane
  incomplete : rx.complete = false

theorem partial_default : default.Partial where
  sane := by simp [Sane, default]
  incomplete := rfl

variable {rx : RxFrame}

theorem space_pos (h : rx.Partial) :
  0 < rx.space
  := by
  obtain ⟨hsane, hincomplete⟩ := h
  unfold Sane at hsane
  unfold complete at hincomplete
  unfold space
  split
  · rename_i hlen
    simp only [hlen, Bool.true_and, decide_eq_false_iff_not] at hincomplete
    omega
  · rename_i hlen
    simp only [hlen, Bool.false_eq_true, if_false] at hsane
    omega

/-- Bytes that fit are added at the end. -/
theorem fill_sane {got : List UInt8} (h : rx.Partial) (hfit : got.length ≤ rx.space) :
  (rx.fill got).Sane ∧ (rx.fill got).bytes = rx.bytes ++ got
  := by
  obtain ⟨hsane, -⟩ := h
  unfold Sane at hsane
  unfold space at hfit
  unfold fill
  by_cases hlen : rx.haveLen
  · simp only [hlen, if_true] at hsane hfit ⊢
    obtain ⟨hbuf, hneed, hle⟩ := hsane
    constructor
    · simp only [Sane, if_true, List.length_append]
      exact ⟨hbuf, hneed, by omega⟩
    · simp [bytes]
  · simp only [hlen, Bool.false_eq_true, if_false] at hsane hfit ⊢
    obtain ⟨hbuf, hpayload⟩ := hsane
    split
    · rename_i hfull
      constructor
      · simp only [Sane, if_true]
        exact ⟨hfull, trivial, Nat.zero_le _⟩
      · simp [bytes, hpayload]
    · rename_i hfull
      rw [List.length_append] at hfull
      constructor
      · simp only [Sane, Bool.false_eq_true, if_false, List.length_append]
        exact ⟨by omega, hpayload⟩
      · simp [bytes, hpayload]

/-- Part of a frame does not start with a whole one. -/
theorem bytes_ne_frame (h : rx.Partial) {header payload rest : List UInt8}
    (hlength : header.length = 2) (hneed : u16FromBeBytes header = payload.length) :
  rx.bytes ≠ header ++ (payload ++ rest)
  := by
  intro hbytes
  obtain ⟨hsane, hincomplete⟩ := h
  unfold Sane at hsane
  unfold complete at hincomplete
  unfold bytes at hbytes
  by_cases hlen : rx.haveLen
  · simp only [hlen, if_true, Bool.true_and, decide_eq_false_iff_not] at hsane hincomplete
    obtain ⟨hbuf, hwant, -⟩ := hsane
    obtain ⟨hheader, hpayload⟩ := List.append_inj hbytes (hbuf.trans hlength.symm)
    rw [hheader, hneed] at hwant
    rw [hwant, hpayload, List.length_append] at hincomplete
    omega
  · simp only [hlen, Bool.false_eq_true, if_false] at hsane
    obtain ⟨hbuf, hpayload⟩ := hsane
    have hlengths := congrArg List.length hbytes
    rw [hpayload] at hlengths
    simp only [List.length_append, List.length_nil] at hlengths
    omega

/-- Bytes of part of a frame are whole frames only when there are none. -/
theorem not_frames (h : rx.Partial) (hne : rx.bytes ≠ []) :
  ¬ Frames rx.bytes
  := by
  intro hframes
  generalize hbytes : rx.bytes = bytes at hne hframes
  cases hframes with
  | nil => exact hne rfl
  | cons hlength hneed _ => exact bytes_ne_frame h hlength hneed hbytes

/-- The end of the stream is clean only where no byte of a frame was read. -/
theorem atEof_cases (h : rx.Sane) :
  rx.atEof = .ok none ∧ rx.bytes = []
    ∨ (∃ message, rx.atEof = .error (.unexpectedEof message)) ∧ rx.bytes ≠ []
  := by
  unfold Sane at h
  unfold atEof bytes
  by_cases hlen : rx.haveLen
  · simp only [hlen, if_true] at h ⊢
    right
    constructor
    · exact ⟨_, rfl⟩
    · intro hnil
      have hlength := h.1
      rw [(List.append_eq_nil_iff.mp hnil).1] at hlength
      simp at hlength
  · simp only [hlen, Bool.false_eq_true, if_false] at h ⊢
    rw [h.2, List.append_nil]
    split
    · rename_i hnil
      exact .inl ⟨rfl, hnil⟩
    · rename_i hnil
      exact .inr ⟨⟨_, rfl⟩, hnil⟩

end RxFrame

/-- How collecting a frame ends.  The bytes that were read stay in front of those underneath: they
begin with the frame that is returned, or none of them is lost. -/
inductive Receives (rx : RxFrame) (wire : List UInt8) (closed : Bool) : Received → Prop where
  | frame {header payload wire' replies} (hlength : header.length = 2)
      (hneed : u16FromBeBytes header = payload.length)
      (hbytes : rx.bytes ++ wire = header ++ (payload ++ wire')) :
      Receives rx wire closed ⟨.default, wire', replies, .ready (.ok (some payload))⟩
  | waits {rx' wire' replies} (hpart : rx'.Partial)
      (hbytes : rx.bytes ++ wire = rx'.bytes ++ wire') :
      Receives rx wire closed ⟨rx', wire', replies, .pending⟩
  | fails {rx' wire' replies} (hpart : rx'.Partial)
      (hbytes : rx.bytes ++ wire = rx'.bytes ++ wire') :
      Receives rx wire closed ⟨rx', wire', replies, .ready (.error .underlying)⟩
  | ends {rx' replies} (hpart : rx'.Partial) (hclosed : closed = true)
      (hbytes : rx.bytes ++ wire = []) (hnil : rx'.bytes = []) :
      Receives rx wire closed ⟨rx', [], replies, .ready (.ok none)⟩
  | cuts {rx' replies message} (hpart : rx'.Partial) (hclosed : closed = true)
      (hbytes : rx.bytes ++ wire = rx'.bytes) (hne : rx'.bytes ≠ []) :
      Receives rx wire closed ⟨rx', [], replies, .ready (.error (.unexpectedEof message))⟩

variable {rx : RxFrame}

/-- A frame that is all there is the one its bytes begin with. -/
theorem Receives.of_complete {wire : List UInt8} {closed : Bool} {replies : List ReadReply}
    (hsane : rx.Sane) (hcomplete : rx.complete = true) :
  Receives rx wire closed ⟨.default, wire, replies, .ready (.ok (some rx.payload))⟩
  := by
  simp only [RxFrame.complete, Bool.and_eq_true, decide_eq_true_eq] at hcomplete
  simp only [RxFrame.Sane, hcomplete.1, if_true] at hsane
  obtain ⟨hlength, hneed, hle⟩ := hsane
  apply Receives.frame hlength
  · rw [← hneed]
    exact Nat.le_antisymm hcomplete.2 hle
  · rw [RxFrame.bytes, List.append_assoc]

/-- Only the bytes matter: those read before and those underneath may be split anywhere. -/
theorem Receives.of_bytes
    {rx' : RxFrame} {wire wire' : List UInt8} {closed : Bool} {received : Received}
    (heq : rx.bytes ++ wire = rx'.bytes ++ wire') (h : Receives rx' wire' closed received) :
  Receives rx wire closed received
  := by
  cases h with
  | frame hlength hneed hbytes => exact .frame hlength hneed (heq.trans hbytes)
  | waits hpart hbytes => exact .waits hpart (heq.trans hbytes)
  | fails hpart hbytes => exact .fails hpart (heq.trans hbytes)
  | ends hpart hclosed hbytes hnil => exact .ends hpart hclosed (heq.trans hbytes) hnil
  | cuts hpart hclosed hbytes hne => exact .cuts hpart hclosed (heq.trans hbytes) hne

theorem receives (hsane : rx.Sane) (wire : List UInt8) (closed : Bool) (replies : List ReadReply) :
  Receives rx wire closed (pollRecvFrame rx wire closed replies)
  := by
  induction replies generalizing rx wire with
  | nil =>
    unfold pollRecvFrame
    split
    · rename_i hcomplete
      apply Receives.of_complete hsane hcomplete
    · rename_i hcomplete
      apply Receives.waits ⟨hsane, by simpa using hcomplete⟩ rfl
  | cons reply replies ih =>
    unfold pollRecvFrame
    split
    · rename_i hcomplete
      apply Receives.of_complete hsane hcomplete
    · rename_i hcomplete
      have hpart : rx.Partial := ⟨hsane, by simpa using hcomplete⟩
      cases reply with
      | failed => apply Receives.fails hpart rfl
      | upTo n =>
        dsimp only
        split
        · rename_i hwire
          rw [hwire]
          split
          · rename_i hclosed
            obtain ⟨heof, hnil⟩ | ⟨⟨message, heof⟩, hne⟩ := RxFrame.atEof_cases hsane
            · rw [heof]
              exact .ends hpart hclosed (by rw [hnil]; rfl) hnil
            · rw [heof]
              exact .cuts hpart hclosed (List.append_nil _) hne
          · apply Receives.waits hpart rfl
        · have hfit := Nat.le_trans
            (List.length_take_le (min (n + 1) rx.space) wire) (Nat.min_le_right _ _)
          have hsplit := List.prefix_iff_eq_append.mp
            (List.take_prefix (min (n + 1) rx.space) wire)
          obtain ⟨hfill, hbytes⟩ := RxFrame.fill_sane hpart hfit
          apply Receives.of_bytes _ (ih hfill _)
          rw [hbytes, List.append_assoc, hsplit]

/-- Collecting a frame only takes bytes from underneath. -/
theorem pollRecvFrame_wire_le
    (rx : RxFrame) (wire : List UInt8) (closed : Bool) (replies : List ReadReply) :
  (pollRecvFrame rx wire closed replies).wire.length ≤ wire.length
  := by
  induction replies generalizing rx wire with
  | nil =>
    unfold pollRecvFrame
    split <;> exact Nat.le_refl _
  | cons reply replies ih =>
    unfold pollRecvFrame
    split
    · exact Nat.le_refl _
    · cases reply with
      | failed => exact Nat.le_refl _
      | upTo n =>
        dsimp only
        split
        · split <;> exact Nat.le_refl _
        · apply Nat.le_trans (ih _ _)
          rw [List.length_drop]
          exact Nat.sub_le _ _

/-- The first reply is not a failure. -/
def Answered (replies : List ReadReply) : Prop :=
  ∃ n rest, replies = .upTo n :: rest

/-- A reply that is not a failure takes a byte where there is one; where there is none, it is the
end if none will come. -/
theorem pollRecvFrame_moves (h : rx.Partial) (wire : List UInt8) (closed : Bool)
    {replies : List ReadReply} (hreplies : Answered replies) :
  (pollRecvFrame rx wire closed replies).wire.length < wire.length
    ∨ wire = [] ∧ closed = true ∧ (pollRecvFrame rx wire closed replies).result = .ready rx.atEof
    ∨ wire = [] ∧ closed = false ∧ (pollRecvFrame rx wire closed replies).result = .pending
  := by
  obtain ⟨n, rest, rfl⟩ := hreplies
  by_cases hwire : wire = []
  · right
    unfold pollRecvFrame
    cases closed with
    | true => simp [h.incomplete, hwire]
    | false => simp [h.incomplete, hwire]
  · left
    have hspace := RxFrame.space_pos h
    have hpos := List.length_pos_iff.mpr hwire
    unfold pollRecvFrame
    simp only [h.incomplete, Bool.false_eq_true, if_false, hwire]
    apply Nat.lt_of_le_of_lt (pollRecvFrame_wire_le _ _ _ _)
    rw [List.length_drop, List.length_take]
    omega

/-! ### Reading -/

namespace EncryptedStream

/-- The bytes that are decrypted and not yet handed out. -/
def left (s : EncryptedStream) : List UInt8 := s.rxPlain.drop s.rxPos

variable {s : EncryptedStream}

theorem left_ne_nil :
  s.left ≠ [] ↔ s.rxPos < s.rxPlain.length
  := by
  rw [left, ne_eq, List.drop_eq_nil_iff]
  omega

/-- Bytes that are left are handed out first. -/
theorem pollRead_left (hleft : s.left ≠ []) (c : Cipher) (wire : List UInt8) (closed : Bool)
    (want : ℕ) (replies : List ReadReply) :
  ∃ stream, s.pollRead c wire closed want replies = ⟨stream, wire, .ready (.ok (s.left.take want))⟩
    ∧ stream.left = s.left.drop want ∧ stream.rx = s.rx ∧ stream.receiving = s.receiving
  := by
  have hpos := left_ne_nil.mp hleft
  have htake : (s.rxPlain.drop s.rxPos).take (min want (s.rxPlain.length - s.rxPos))
      = s.left.take want := by
    rw [left, ← List.length_drop, List.take_eq_take_iff]
    omega
  unfold pollRead
  rw [if_pos hpos]
  dsimp only
  rw [htake]
  split
  · rename_i hall
    refine ⟨_, rfl, ?_, rfl, rfl⟩
    rw [left, left, List.drop_drop, List.drop_nil, eq_comm, List.drop_eq_nil_iff]
    omega
  · rename_i hsome
    refine ⟨_, rfl, ?_, rfl, rfl⟩
    have hmin : min want (s.rxPlain.length - s.rxPos) = want := by omega
    rw [left, left, List.drop_drop, hmin]

/-- When no bytes are left a frame is collected; its plaintext is read from in turn. -/
theorem pollRead_collect (hleft : s.left = []) (c : Cipher) (wire : List UInt8) (closed : Bool)
    (want : ℕ) (replies : List ReadReply) :
  let received := pollRecvFrame s.rx wire closed replies
  let s' := { s with rx := received.rx }
  s.pollRead c wire closed want replies = match received.result with
    | .pending => ⟨s', received.wire, .pending⟩
    | .ready (.error e) => ⟨s', received.wire, .ready (.error e)⟩
    | .ready (.ok none) => ⟨s', received.wire, .ready (.ok [])⟩
    | .ready (.ok (some frame)) =>
        match c.readMessage s.receiving frame with
        | .error e => ⟨s', received.wire, .ready (.error e)⟩
        | .ok plain =>
            pollRead c { s' with receiving := s.receiving + 1, rxPlain := plain, rxPos := 0 }
              received.wire closed want received.replies
  := by
  have hpos : ¬ s.rxPos < s.rxPlain.length := by
    rw [← left_ne_nil, not_not]
    exact hleft
  dsimp only
  rw [pollRead, if_neg hpos]
  dsimp only
  split
  case h_4 frame hresult =>
    cases hmessage : c.readMessage s.receiving frame <;> simp only [hresult, hmessage]
  all_goals
    rename_i hresult
    rw [hresult]

/-- A frame whose plaintext is not empty is read from at once. -/
theorem pollRead_frame (hleft : s.left = []) {c : Cipher} {wire : List UInt8} {closed : Bool}
    {want : ℕ} {replies : List ReadReply} {payload plain : List UInt8}
    (hresult : (pollRecvFrame s.rx wire closed replies).result = .ready (.ok (some payload)))
    (hmessage : c.readMessage s.receiving payload = .ok plain) (hplain : plain ≠ []) :
  ∃ stream, s.pollRead c wire closed want replies
      = ⟨stream, (pollRecvFrame s.rx wire closed replies).wire, .ready (.ok (plain.take want))⟩
    ∧ stream.left = plain.drop want ∧ stream.rx = .default
    ∧ stream.receiving = s.receiving + 1
  := by
  have hrx := (pollRecvFrame_lt hresult).1
  rw [pollRead_collect hleft]
  dsimp only
  rw [hresult]
  dsimp only
  rw [hmessage, hrx]
  exact pollRead_left (s := ⟨s.sending, s.receiving + 1, .default, plain, 0, s.txBuf, s.txPos⟩)
    hplain c _ closed want _

end EncryptedStream

end Lazybox
