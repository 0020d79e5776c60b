import Lazybox.E2e.Framing

/-!
# The encrypted stream is a plain pipe

Between the two ends there is a queue of chunks: those that were accepted by a write and not yet
decrypted by a read.  The bytes that are on their way are the frames of that queue, encrypted with
the numbers the receiver expects next; an end of the stream leaves a prefix of them.  So a read
decrypts the chunks in the order they were accepted in, and what it hands out is what was
accepted.

Once all is flushed the reader gets everything.  When the stream underneath ends, the reader gets
the frames that came through whole, and then the end: a clean one if there is nothing behind them,
and an error if there is part of a frame.
-/

namespace Lazybox

open EncryptedStream

/-- The frames of chunks, the first of which is encrypted with number `n`. -/
def encoded (c : Cipher) : ℕ → List (List UInt8) → List UInt8
  | _, [] => []
  | n, chunk :: chunks => frame (c.encrypt n chunk) ++ encoded c (n + 1) chunks

theorem encoded_append (c : Cipher) (n : ℕ) (chunks more : List (List UInt8)) :
  encoded c n (chunks ++ more) = encoded c n chunks ++ encoded c (n + chunks.length) more
  := by
  induction chunks generalizing n with
  | nil => rfl
  | cons chunk chunks ih =>
    have hnumber : n + (chunk :: chunks).length = n + 1 + chunks.length := by
      rw [List.length_cons]
      omega
    rw [List.cons_append, encoded, encoded, ih, List.append_assoc, hnumber]

/-- Chunks that a write accepts: none is empty, and each fits a message. -/
def Chunked (queue : List (List UInt8)) : Prop :=
  ∀ chunk ∈ queue, chunk ≠ [] ∧ chunk.length ≤ MAX_PAYLOAD_LEN

/-- The ciphertext of a chunk fits its header. -/
theorem length_encrypt_le {c : Cipher} (lawful : c.Lawful) (n : ℕ) {chunk : List UInt8}
    (h : chunk.length ≤ MAX_PAYLOAD_LEN) :
  (c.encrypt n chunk).length ≤ NOISE_MAX_MSG_LEN
  := by
  rw [lawful.length_encrypt]
  simp only [MAX_PAYLOAD_LEN, NOISE_MAX_MSG_LEN, NOISE_TAG_LEN] at h ⊢
  omega

/-- A whole frame in front of what is on its way is that of the first chunk of the queue. -/
theorem first_frame {c : Cipher} (lawful : c.Lawful) {n : ℕ} {queue : List (List UInt8)}
    (hqueue : Chunked queue) {header payload wire : List UInt8} (hlength : header.length = 2)
    (hneed : u16FromBeBytes header = payload.length)
    (h : header ++ (payload ++ wire) <+: encoded c n queue) :
  ∃ chunk rest, queue = chunk :: rest ∧ payload = c.encrypt n chunk
    ∧ header = u16ToBeBytes payload.length
  := by
  obtain ⟨more, hmore⟩ := h
  cases queue with
  | nil =>
    have hnil := congrArg List.length hmore
    simp [encoded, hlength] at hnil
  | cons chunk rest =>
    have hfits := length_encrypt_le lawful n (hqueue chunk List.mem_cons_self).2
    rw [encoded, frame, List.append_assoc, List.append_assoc, List.append_assoc] at hmore
    obtain ⟨hheader, hpayload, -⟩ := frame_unique hlength rfl hneed
      (u16FromBeBytes_toBeBytes hfits) hmore
    exact ⟨chunk, rest, rfl, hpayload, by rw [hheader, hpayload]⟩

/-! ### One read -/

namespace Tunnel

/-- The bytes on their way: those the receiver has of a frame, and those underneath. -/
def incoming (s : Tunnel) : List UInt8 := s.receiver.rx.bytes ++ s.wire

/-- What a read does to the queue: it hands out bytes that are left; or it decrypts the first
chunk and hands out bytes of that; or nothing comes out of it and no byte is lost. -/
inductive Reads (c : Cipher) (s : Tunnel) (want : ℕ) (replies : List ReadReply) :
    List (List UInt8) → List (List UInt8) → Tunnel × List Obs → Prop where
  | hands {queue receiver} (hsome : s.receiver.left ≠ [])
      (hleft : receiver.left = s.receiver.left.drop want) (hrx : receiver.rx = s.receiver.rx)
      (hreceiving : receiver.receiving = s.receiver.receiving) :
      Reads c s want replies queue queue
        ({ s with receiver }, [.got (s.receiver.left.take want)])
  | opens {queue receiver wire chunk} (hnone : s.receiver.left = [])
      (hleft : receiver.left = chunk.drop want) (hrx : receiver.rx = .default)
      (hreceiving : receiver.receiving = s.receiver.receiving + 1)
      (hbytes : s.incoming = frame (c.encrypt s.receiver.receiving chunk) ++ wire)
      (hwire : wire.length ≤ s.wire.length) (hcame : s.wire ≠ []) :
      Reads c s want replies (chunk :: queue) queue
        ({ s with receiver, wire }, [.got (chunk.take want)])
  | waits {queue receiver wire} (hnone : s.receiver.left = []) (hleft : receiver.left = [])
      (hpart : receiver.rx.Partial) (hreceiving : receiver.receiving = s.receiver.receiving)
      (hbytes : s.incoming = receiver.rx.bytes ++ wire) (hwire : wire.length ≤ s.wire.length)
      (hmoves : Answered replies → wire.length < s.wire.length ∨ s.wire = [] ∧ s.closed = false) :
      Reads c s want replies queue queue ({ s with receiver, wire }, [])
  | fails {queue receiver wire} (hnone : s.receiver.left = []) (hleft : receiver.left = [])
      (hpart : receiver.rx.Partial) (hreceiving : receiver.receiving = s.receiver.receiving)
      (hbytes : s.incoming = receiver.rx.bytes ++ wire) (hwire : wire.length ≤ s.wire.length)
      (hmoves : Answered replies → wire.length < s.wire.length) :
      Reads c s want replies queue queue ({ s with receiver, wire }, [.readFailed .underlying])
  | ends {queue receiver} (hnone : s.receiver.left = []) (hleft : receiver.left = [])
      (hpart : receiver.rx.Partial) (hreceiving : receiver.receiving = s.receiver.receiving)
      (hclosed : s.closed = true) (hbytes : s.incoming = []) (hnil : receiver.rx.bytes = []) :
      Reads c s want replies queue queue
        ({ s with receiver, wire := [] }, if 0 < want then [.eof] else [.got []])
  | cuts {queue receiver message} (hnone : s.receiver.left = []) (hleft : receiver.left = [])
      (hpart : receiver.rx.Partial) (hreceiving : receiver.receiving = s.receiver.receiving)
      (hclosed : s.closed = true) (hbytes : s.incoming = receiver.rx.bytes)
      (hne : receiver.rx.bytes ≠ []) :
      Reads c s want replies queue queue
        ({ s with receiver, wire := [] }, [.readFailed (.unexpectedEof message)])

/-- A read that has bytes to hand out does not look like the end. -/
theorem got_of_ne_nil {bytes : List UInt8} (h : bytes ≠ []) (want : ℕ) :
  (if bytes.take want = [] ∧ 0 < want then [Obs.eof] else [.got (bytes.take want)])
    = [.got (bytes.take want)]
  := by
  rw [if_neg]
  rintro ⟨hnil, hwant⟩
  rw [List.take_eq_nil_iff] at hnil
  obtain hzero | hempty := hnil
  · omega
  · exact h hempty

variable {queue : List (List UInt8)} {s : Tunnel} {c : Cipher}

/-- When frames of the queue are on their way, that is what a read does. -/
theorem reads (lawful : c.Lawful) (hpart : s.receiver.rx.Partial) (hqueue : Chunked queue)
    (hincoming : s.incoming <+: encoded c s.receiver.receiving queue) (want : ℕ)
    (replies : List ReadReply) :
  ∃ queue', Reads c s want replies queue queue' (s.read c want replies)
  := by
  unfold read
  by_cases hleft : s.receiver.left = []
  · have hreceives := receives hpart.sane s.wire s.closed replies
    have hwire := pollRecvFrame_wire_le s.receiver.rx s.wire s.closed replies
    have hmoves : Answered replies → _ := pollRecvFrame_moves hpart s.wire s.closed
    have hcollect := pollRead_collect hleft c s.wire s.closed want replies
    generalize hreceived : pollRecvFrame s.receiver.rx s.wire s.closed replies = received
      at hreceives hwire hmoves hcollect
    cases hreceives with
    | frame hlength hneed hbytes =>
      rw [incoming, hbytes] at hincoming
      obtain ⟨chunk, rest, rfl, rfl, rfl⟩ := first_frame lawful hqueue hlength hneed hincoming
      have hmessage : c.readMessage s.receiver.receiving
          (c.encrypt s.receiver.receiving chunk) = .ok chunk := by
        rw [Cipher.readMessage, lawful.decrypt_encrypt]
      have hsome := (hqueue chunk List.mem_cons_self).1
      obtain ⟨stream, hread, hrest, hrx, hreceiving⟩ := pollRead_frame hleft
        (by rw [hreceived]) hmessage hsome
      rw [hread, hreceived]
      dsimp only
      rw [got_of_ne_nil hsome]
      refine ⟨rest, .opens hleft hrest hrx hreceiving ?_ hwire ?_⟩
      · rw [incoming, hbytes, frame, List.append_assoc]
      · intro hnil
        rw [hnil, List.append_nil] at hbytes
        exact RxFrame.bytes_ne_frame hpart hlength hneed hbytes
    | waits hpart' hbytes =>
      rw [hcollect]
      refine ⟨queue, .waits hleft hleft hpart' rfl hbytes hwire ?_⟩
      intro hreplies
      obtain hless | ⟨-, -, hresult⟩ | ⟨hnil, hopen, -⟩ := hmoves hreplies
      · exact .inl hless
      · simp at hresult
      · exact .inr ⟨hnil, hopen⟩
    | fails hpart' hbytes =>
      rw [hcollect]
      refine ⟨queue, .fails hleft hleft hpart' rfl hbytes hwire ?_⟩
      intro hreplies
      obtain hless | ⟨-, -, hresult⟩ | ⟨-, -, hresult⟩ := hmoves hreplies
      · exact hless
      · obtain ⟨heof, -⟩ | ⟨⟨message, heof⟩, -⟩ := RxFrame.atEof_cases hpart.sane
        · simp [heof] at hresult
        · simp [heof] at hresult
      · simp at hresult
    | ends hpart' hclosed hbytes hnil =>
      rw [hcollect]
      simp only [true_and]
      exact ⟨queue, .ends hleft hleft hpart' rfl hclosed hbytes hnil⟩
    | cuts hpart' hclosed hbytes hne =>
      rw [hcollect]
      exact ⟨queue, .cuts hleft hleft hpart' rfl hclosed hbytes hne⟩
  · obtain ⟨stream, hread, hrest, hrx, hreceiving⟩ :=
      pollRead_left hleft c s.wire s.closed want replies
    rw [hread]
    dsimp only
    rw [got_of_ne_nil hleft]
    exact ⟨queue, .hands hleft hrest hrx hreceiving⟩

/-! ### The link between the two ends -/

/-- The chunks that writes reported as accepted, less the empty ones. -/
def accepted (os : List Obs) : List (List UInt8) :=
  os.filterMap fun
    | .accepted bytes => if bytes = [] then none else some bytes
    | _ => none

/-- The bytes that reads returned. -/
def plaintext (os : List Obs) : List UInt8 :=
  os.flatMap fun
    | .got bytes => bytes
    | _ => []

theorem accepted_append (os new : List Obs) :
  accepted (os ++ new) = accepted os ++ accepted new
  := List.filterMap_append

theorem plaintext_append (os new : List Obs) :
  plaintext (os ++ new) = plaintext os ++ plaintext new
  := List.flatMap_append

theorem accepted_staged (cipher : List UInt8) {bytes : List UInt8} (h : bytes ≠ []) :
  accepted [.staged cipher, .accepted bytes] = [bytes]
  := by
  simp [accepted, h]

/-- The chunks in the queue between the two ends are those that were accepted and are not decrypted
yet, and the bytes on their way are their frames. -/
structure Linked (c : Cipher) (s : Tunnel) (os : List Obs) (queue : List (List UInt8)) :
    Prop where
  number : s.sender.sending = s.receiver.receiving + queue.length
  chunked : Chunked queue
  collecting : s.receiver.rx.Partial
  carried : s.incoming <+: encoded c s.receiver.receiving queue
  /-- As long as the stream underneath is open nothing is lost. -/
  whole : s.closed = false →
    s.incoming ++ s.sender.staged = encoded c s.receiver.receiving queue
  /-- The chunks that were decrypted are handed out, up to the bytes that are left. -/
  handed : ∃ opened, accepted os = opened ++ queue
    ∧ plaintext os ++ s.receiver.left = opened.flatten

theorem linked_new (c : Cipher) :
  Linked c new [] [] where
  number := rfl
  chunked := by simp [Chunked]
  collecting := RxFrame.partial_default
  carried := List.prefix_rfl
  whole := fun _ => rfl
  handed := ⟨[], rfl, rfl⟩

variable {os : List Obs}

/-- The sender pushes bytes, and stages the frames of chunks that it accepts. -/
theorem Linked.push {new : List Obs} {more : List (List UInt8)} (linked : Linked c s os queue)
    {sender : EncryptedStream} {pushed : List UInt8}
    (hpushed : pushed ++ sender.staged = s.sender.staged ++ encoded c s.sender.sending more)
    (hsending : sender.sending = s.sender.sending + more.length) (hmore : Chunked more)
    (haccepted : accepted new = more) (hplaintext : plaintext new = []) :
  Linked c { s with sender, wire := s.carry pushed } (os ++ new) (queue ++ more)
  := by
  have hencoded : encoded c s.receiver.receiving (queue ++ more)
      = encoded c s.receiver.receiving queue ++ encoded c s.sender.sending more := by
    rw [encoded_append, linked.number]
  have hwhole (hopen : s.closed = false) :
      s.receiver.rx.bytes ++ s.carry pushed ++ sender.staged
        = encoded c s.receiver.receiving (queue ++ more) := by
    rw [hencoded, ← linked.whole hopen, carry, hopen, incoming]
    simp only [Bool.false_eq_true, if_false, List.append_assoc, hpushed]
  constructor
  case number => rw [hsending, linked.number, List.length_append, Nat.add_assoc]
  case chunked =>
    intro chunk hchunk
    obtain hold | hnew := List.mem_append.mp hchunk
    · exact linked.chunked chunk hold
    · exact hmore chunk hnew
  case collecting => exact linked.collecting
  case carried =>
    cases hclosed : s.closed with
    | false => exact ⟨sender.staged, hwhole hclosed⟩
    | true =>
      -- what the sender pushes now is lost
      simp only [incoming, carry, hclosed, if_true]
      rw [hencoded]
      exact linked.carried.trans (List.prefix_append _ _)
  case whole => exact hwhole
  case handed =>
    obtain ⟨opened, hopened, hleft⟩ := linked.handed
    use opened
    rw [accepted_append, hopened, haccepted, plaintext_append, hplaintext, List.append_nil,
      List.append_assoc]
    exact ⟨rfl, hleft⟩

/-- Draining stages nothing. -/
theorem Linked.drain {new : List Obs} (linked : Linked c s os queue) (replies : List WriteReply)
    (haccepted : accepted new = []) (hplaintext : plaintext new = []) :
  Linked c { s with
      sender := (s.sender.pollDrain replies).stream,
      wire := s.carry (s.sender.pollDrain replies).pushed } (os ++ new) queue
  := by
  have hpushed := pollDrain_pushed s.sender replies
  have hsending := pollDrain_sending s.sender replies
  rw [← List.append_nil queue]
  apply linked.push _ hsending (by simp [Chunked]) haccepted hplaintext
  rw [hpushed, encoded, List.append_nil]

/-- A write without a fault underneath queues the chunk it accepts. -/
theorem Linked.write (linked : Linked c s os queue) (buf : List UInt8) {replies : List WriteReply}
    (sound : ∀ reply ∈ replies, reply.Sound) :
  ∃ queue', Linked c (s.write c buf replies).1 (os ++ (s.write c buf replies).2) queue'
  := by
  have hwrites := writes c s.sender buf replies
  have hsound : ∀ e, (s.sender.pollWrite c buf replies).result ≠ .ready (.error e) :=
    pollWrite_sound sound
  unfold Tunnel.write
  generalize s.sender.pollWrite c buf replies = written at hwrites hsound ⊢
  cases hwrites with
  | fails => exact absurd rfl (hsound _)
  | waits hpushed hsending =>
    refine ⟨queue ++ [], linked.push ?_ hsending (by simp [Chunked]) rfl rfl⟩
    rw [hpushed, encoded, List.append_nil]
  | empty hpushed hsending =>
    refine ⟨queue ++ [], linked.push ?_ hsending (by simp [Chunked]) rfl rfl⟩
    rw [hpushed, encoded, List.append_nil]
  | stages hbuf hpushed hsending hresult =>
    obtain ⟨e, rfl⟩ | rfl := hresult
    · exact absurd rfl (hsound e)
    · have hchunk := chunk_ne_nil hbuf
      refine ⟨queue ++ [chunk buf], linked.push ?_ hsending ?_ ?_ rfl⟩
      · rw [hpushed, encoded, encoded, List.append_nil]
      · intro chunk hmem
        rw [List.mem_singleton.mp hmem]
        exact ⟨hchunk, length_chunk_le buf⟩
      · exact accepted_staged _ hchunk

/-- An end of the stream underneath leaves a prefix of what was on its way. -/
theorem Linked.cut (linked : Linked c s os queue) (kept : ℕ) :
  Linked c { s with wire := s.wire.take kept, closed := true } os queue
  where
  number := linked.number
  chunked := linked.chunked
  collecting := linked.collecting
  carried := by
    apply List.IsPrefix.trans _ linked.carried
    rw [incoming, incoming, List.prefix_append_right_inj]
    exact List.take_prefix kept s.wire
  whole := by simp
  handed := linked.handed

/-- Closing the stream underneath loses nothing that is on its way. -/
theorem Linked.close (linked : Linked c s os queue) :
  Linked c { s with closed := true } os queue
  where
  number := linked.number
  chunked := linked.chunked
  collecting := linked.collecting
  carried := linked.carried
  whole := by simp
  handed := linked.handed

variable {receiver : EncryptedStream}

/-- A read that hands nothing out keeps the queue. -/
theorem Linked.collect {new : List Obs} (linked : Linked c s os queue) {wire : List UInt8}
    (hnone : s.receiver.left = []) (hleft : receiver.left = []) (hpart : receiver.rx.Partial)
    (hreceiving : receiver.receiving = s.receiver.receiving)
    (hbytes : s.incoming = receiver.rx.bytes ++ wire) (haccepted : accepted new = [])
    (hplaintext : plaintext new = []) :
  Linked c { s with receiver, wire } (os ++ new) queue
  where
  number := by rw [hreceiving, linked.number]
  chunked := linked.chunked
  collecting := hpart
  carried := by
    rw [incoming, ← hbytes, hreceiving]
    exact linked.carried
  whole := by
    intro hopen
    rw [incoming, ← hbytes, hreceiving]
    exact linked.whole hopen
  handed := by
    obtain ⟨opened, hopened, hhanded⟩ := linked.handed
    use opened
    rw [accepted_append, haccepted, List.append_nil, plaintext_append, hplaintext, List.append_nil,
      hleft, ← hnone]
    exact ⟨hopened, hhanded⟩

/-- Bytes that are handed out are taken from those that are left. -/
theorem plaintext_got (os : List Obs) (bytes : List UInt8) (want : ℕ) :
  plaintext (os ++ [.got (bytes.take want)]) ++ bytes.drop want = plaintext os ++ bytes
  := by
  rw [plaintext_append, List.append_assoc]
  congr 1
  simp [plaintext]

variable {want : ℕ}

/-- Handing out bytes that are left keeps the queue. -/
theorem Linked.hand
    (linked : Linked c s os queue) (hleft : receiver.left = s.receiver.left.drop want)
    (hrx : receiver.rx = s.receiver.rx) (hreceiving : receiver.receiving = s.receiver.receiving) :
  Linked c { s with receiver } (os ++ [.got (s.receiver.left.take want)]) queue
  where
  number := by rw [hreceiving, linked.number]
  chunked := linked.chunked
  collecting := by
    rw [hrx]
    exact linked.collecting
  carried := by
    rw [incoming, hrx, hreceiving]
    exact linked.carried
  whole := by
    rw [incoming, hrx, hreceiving]
    exact linked.whole
  handed := by
    obtain ⟨opened, hopened, hhanded⟩ := linked.handed
    use opened
    rw [accepted_append, hleft, plaintext_got]
    exact ⟨by simpa [accepted] using hopened, hhanded⟩

/-- Decrypting the first chunk takes it, and its frame, away. -/
theorem Linked.open_chunk {chunk : List UInt8} (linked : Linked c s os (chunk :: queue))
    {wire : List UInt8} (hnone : s.receiver.left = []) (hleft : receiver.left = chunk.drop want)
    (hrx : receiver.rx = .default) (hreceiving : receiver.receiving = s.receiver.receiving + 1)
    (hbytes : s.incoming = frame (c.encrypt s.receiver.receiving chunk) ++ wire) :
  Linked c { s with receiver, wire } (os ++ [.got (chunk.take want)]) queue
  := by
  have hincoming : { s with receiver, wire }.incoming = wire := by
    rw [incoming, hrx]
    rfl
  constructor
  case number =>
    rw [hreceiving, linked.number, List.length_cons]
    omega
  case chunked => exact fun chunk hchunk => linked.chunked chunk (List.mem_cons_of_mem _ hchunk)
  case collecting =>
    rw [hrx]
    exact RxFrame.partial_default
  case carried =>
    have hcarried := linked.carried
    rw [hbytes, encoded, List.prefix_append_right_inj] at hcarried
    rw [hincoming, hreceiving]
    exact hcarried
  case whole =>
    intro hopen
    have hwhole := linked.whole hopen
    rw [hbytes, encoded, List.append_assoc] at hwhole
    rw [hincoming, hreceiving]
    exact List.append_cancel_left hwhole
  case handed =>
    obtain ⟨opened, hopened, hhanded⟩ := linked.handed
    use opened ++ [chunk]
    rw [accepted_append, hopened, hleft, plaintext_got, List.flatten_append, ← hhanded, hnone]
    simp [accepted]

/-- A read keeps the link. -/
theorem Linked.read
    {queue' : List (List UInt8)} (linked : Linked c s os queue) {replies : List ReadReply}
    {out : Tunnel × List Obs} (h : Reads c s want replies queue queue' out) :
  Linked c out.1 (os ++ out.2) queue'
  := by
  cases h with
  | hands hsome hleft hrx hreceiving => exact linked.hand hleft hrx hreceiving
  | opens hnone hleft hrx hreceiving hbytes =>
    exact linked.open_chunk hnone hleft hrx hreceiving hbytes
  | waits hnone hleft hpart hreceiving hbytes | fails hnone hleft hpart hreceiving hbytes =>
    exact linked.collect hnone hleft hpart hreceiving hbytes rfl rfl
  | ends hnone hleft hpart hreceiving hclosed hbytes hnil =>
    apply linked.collect hnone hleft hpart hreceiving
    · rw [hbytes, hnil]
      rfl
    · split <;> rfl
    · split <;> rfl
  | cuts hnone hleft hpart hreceiving hclosed hbytes hne =>
    apply linked.collect hnone hleft hpart hreceiving
    · rw [hbytes, List.append_nil]
    · rfl
    · rfl

theorem drainThen_fst (s : Tunnel) (replies : List WriteReply) (inner : Poll Unit) :
  (s.drainThen replies inner).1 = { s with
      sender := (s.sender.pollDrain replies).stream,
      wire := s.carry (s.sender.pollDrain replies).pushed }
  := by
  unfold drainThen
  dsimp only
  split <;> rfl

/-- A request that is passed on after draining keeps the link. -/
theorem Linked.drainThen
    {s' : Tunnel} {new : List Obs} (linked : Linked c s os queue) {replies : List WriteReply}
    {inner result : Poll Unit} (h : s.drainThen replies inner = (s', result))
    (haccepted : accepted new = []) (hplaintext : plaintext new = []) :
  Linked c s' (os ++ new) queue
  := by
  obtain rfl : s' = _ := (congrArg Prod.fst h).symm.trans (s.drainThen_fst replies inner)
  exact linked.drain replies haccepted hplaintext

theorem Linked.flush
    (linked : Linked c s os queue) (replies : List WriteReply) (inner : Poll Unit) :
  Linked c (s.flush replies inner).1 (os ++ (s.flush replies inner).2) queue
  := by
  unfold Tunnel.flush
  split
  all_goals
    rename_i hdrain
    exact linked.drainThen hdrain rfl rfl

theorem Linked.shutdown
    (linked : Linked c s os queue) (replies : List WriteReply) (inner : Poll Unit) :
  Linked c (s.shutdown replies inner).1 (os ++ (s.shutdown replies inner).2) queue
  := by
  unfold Tunnel.shutdown
  split
  · rename_i hdrain
    exact linked.drainThen hdrain rfl rfl
  · rename_i hdrain
    exact linked.drainThen hdrain rfl rfl
  · rename_i hdrain
    exact (linked.drainThen hdrain rfl rfl).close

/-! ### Every run -/

/-- The stream underneath has no fault in a write: it takes some of the bytes, or is pending. -/
def Sound (_ : Tunnel) : Act → Prop
  | .write _ replies => ∀ reply ∈ replies, reply.Sound
  | _ => True

theorem Linked.step
    (lawful : c.Lawful) (linked : Linked c s os queue) {a : Act} (sound : Sound s a) :
  ∃ queue', Linked c ((machine c).next s a) (os ++ (machine c).emit s a) queue'
  := by
  cases a with
  | write buf replies => exact linked.write buf sound
  | flush replies inner => exact ⟨queue, linked.flush replies inner⟩
  | shutdown replies inner => exact ⟨queue, linked.shutdown replies inner⟩
  | cut kept =>
    have hcut := linked.cut kept
    rw [← List.append_nil os] at hcut
    exact ⟨queue, hcut⟩
  | read want replies =>
    obtain ⟨queue', hreads⟩ := reads lawful linked.collecting linked.chunked linked.carried
      want replies
    exact ⟨queue', linked.read hreads⟩

/-- In every run the two ends are linked. -/
theorem linked_run (lawful : c.Lawful) {as : List Act} (sound : (machine c).Along Sound new as) :
  ∃ queue, Linked c ((machine c).final new as) ((machine c).trace new as) queue
  := by
  apply (machine c).invariant (I := fun s os => ∃ queue, Linked c s os queue) _ _ sound
  · exact ⟨[], linked_new c⟩
  · rintro s os a ha ⟨queue, linked⟩
    exact linked.step lawful ha

/-- What was read is a prefix of what was accepted. -/
theorem Linked.plaintext_isPrefix (linked : Linked c s os queue) :
  plaintext os <+: (accepted os).flatten
  := by
  obtain ⟨opened, hopened, hhanded⟩ := linked.handed
  rw [hopened, List.flatten_append, ← hhanded, List.append_assoc]
  exact List.prefix_append _ _

/-- The length of a ciphertext is told from the two bytes of its header. -/
def FitsHeader (cipher : List UInt8) : Prop :=
  cipher.length ≤ NOISE_MAX_MSG_LEN
    ∧ u16FromBeBytes (u16ToBeBytes cipher.length) = cipher.length

/-- The only ciphertext that is ever staged is that of a chunk. -/
theorem fits_emit (lawful : c.Lawful) {a : Act} {cipher : List UInt8}
    (h : .staged cipher ∈ (machine c).emit s a) :
  FitsHeader cipher
  := by
  cases a with
  | write buf replies =>
    simp only [Machine.emit, machine, step, write] at h
    have hwrites := writes c s.sender buf replies
    generalize s.sender.pollWrite c buf replies = written at hwrites h
    cases hwrites with
    | waits | fails | empty => simp at h
    | stages hbuf hpushed hsending hresult =>
      have hfits := length_encrypt_le lawful s.sender.sending (length_chunk_le buf)
      have hcipher : cipher = c.encrypt s.sender.sending (chunk buf) := by
        obtain ⟨e, rfl⟩ | rfl := hresult <;> simpa using h
      rw [hcipher]
      exact ⟨hfits, u16FromBeBytes_toBeBytes hfits⟩
  | flush replies inner =>
    simp only [Machine.emit, machine, step, flush] at h
    split at h <;> simp at h
  | shutdown replies inner =>
    simp only [Machine.emit, machine, step, shutdown] at h
    split at h <;> simp at h
  | cut kept => simp [Machine.emit, machine, step] at h
  | read want replies =>
    simp only [Machine.emit, machine, step, read] at h
    split at h
    · simp at h
    · simp at h
    · split at h <;> simp at h

/-- The reader is told that nothing more comes now: the end, or an error. -/
def Obs.Stops : Obs → Prop
  | .eof => True
  | .readFailed _ => True
  | _ => False

/-- Where the reader is stopped it has read whole chunks. -/
def AtBoundary (before : List Obs) (o : Obs) : Prop :=
  o.Stops → ∃ whole, whole <+: accepted before ∧ plaintext before = whole.flatten

/-- Only a read stops the reader. -/
theorem not_stops_emit {a : Act} (ha : ∀ want replies, a ≠ .read want replies) {o : Obs}
    (ho : o ∈ (machine c).emit s a) :
  ¬ o.Stops
  := by
  cases a with
  | write buf replies =>
    simp only [Machine.emit, machine, step, write, List.mem_append, List.mem_map] at ho
    obtain ⟨cipher, -, rfl⟩ | hreported := ho
    · simp [Obs.Stops]
    · split at hreported <;> simp at hreported <;> simp [hreported, Obs.Stops]
  | flush replies inner =>
    simp only [Machine.emit, machine, step, flush] at ho
    split at ho <;> simp at ho <;> simp [ho, Obs.Stops]
  | shutdown replies inner =>
    simp only [Machine.emit, machine, step, shutdown] at ho
    split at ho
    · simp at ho
    · simp at ho
      simp [ho, Obs.Stops]
    · simp at ho
  | cut kept => simp [Machine.emit, machine, step] at ho
  | read want replies => exact absurd rfl (ha want replies)

/-- A read stops the reader only when no byte of a chunk is left. -/
theorem Linked.atBoundary (linked : Linked c s os queue) (hnone : s.receiver.left = []) (o : Obs) :
  AtBoundary os o
  := by
  intro _
  obtain ⟨opened, hopened, hhanded⟩ := linked.handed
  rw [hnone, List.append_nil] at hhanded
  exact ⟨opened, by rw [hopened]; exact List.prefix_append _ _, hhanded⟩

theorem Linked.read_atEach {queue' : List (List UInt8)} (linked : Linked c s os queue)
    {replies : List ReadReply} {out : Tunnel × List Obs}
    (h : Reads c s want replies queue queue' out) (hos : AtEach AtBoundary os) :
  AtEach AtBoundary (os ++ out.2)
  := by
  cases h with
  | hands | opens => exact atEach_concat.mpr ⟨hos, by simp [AtBoundary, Obs.Stops]⟩
  | waits => rwa [List.append_nil]
  | fails hnone | cuts hnone => exact atEach_concat.mpr ⟨hos, linked.atBoundary hnone _⟩
  | ends hnone =>
    dsimp only
    split <;> exact atEach_concat.mpr ⟨hos, linked.atBoundary hnone _⟩

/-- In every run the reader is stopped at boundaries of chunks only. -/
theorem boundaries_run
    (lawful : c.Lawful) {as : List Act} (sound : (machine c).Along Sound new as) :
  AtEach AtBoundary ((machine c).trace new as)
  := by
  have hrun := (machine c).invariant
    (I := fun s os => (∃ queue, Linked c s os queue) ∧ AtEach AtBoundary os)
    ⟨⟨[], linked_new c⟩, atEach_nil _⟩ ?_ sound
  · exact hrun.2
  rintro s os a ha ⟨⟨queue, linked⟩, hos⟩
  constructor
  · exact linked.step lawful ha
  · by_cases hread : ∃ want replies, a = .read want replies
    · obtain ⟨want, replies, rfl⟩ := hread
      obtain ⟨queue', hreads⟩ := reads lawful linked.collecting linked.chunked linked.carried
        want replies
      exact linked.read_atEach hreads hos
    · have hread : ∀ want replies, a ≠ .read want replies :=
        fun want replies h => hread ⟨want, replies, h⟩
      apply atEach_append hos
      intro o ho before hstops
      exact absurd hstops (not_stops_emit hread ho)

end Tunnel

end Lazybox
