import Lazybox.E2e.PlainPipe

/-!
# What the reader gets in the end

The bytes a reader has still to get are counted: those underneath twice, because they move into a
frame before they move out of it, those of the frame that is being collected, and those that are
decrypted.  A read never adds to them.  A read that asks for bytes and gets an answer from the
stream underneath takes some away, unless there is nothing left underneath and nothing left to
hand out.  So after as many such reads as there are bytes to get, the reader has them all: that is
everything once it is flushed, and the frames that came through when the stream underneath has
ended.
-/

namespace Lazybox

open EncryptedStream

namespace Tunnel

/-- How much there is to get. -/
def remaining (s : Tunnel) : ℕ :=
  2 * s.wire.length + s.receiver.rx.bytes.length + s.receiver.left.length

/-- Nothing is left underneath, and nothing is left to hand out. -/
def Exhausted (s : Tunnel) : Prop := s.wire = [] ∧ s.receiver.left = []

/-- A read that asks for bytes, and to which the stream underneath answers. -/
def productive : Act → Bool
  | .read want (.upTo _ :: _) => 0 < want
  | _ => false

variable {s : Tunnel}

theorem exhausted_of_remaining (h : s.remaining = 0) :
  s.Exhausted
  := by
  simp only [remaining, Nat.add_eq_zero_iff, List.length_eq_zero_iff, Nat.mul_eq_zero] at h
  obtain ⟨⟨hwire, -⟩, hleft⟩ := h
  exact ⟨by simpa using hwire, hleft⟩

section Reads

variable {c : Cipher} {s : Tunnel} {want : ℕ} {replies : List ReadReply}
  {queue queue' : List (List UInt8)} {out : Tunnel × List Obs}

/-- The frame of a chunk is longer than the chunk. -/
theorem lt_length_frame (lawful : c.Lawful) (n : ℕ) (chunk : List UInt8) :
  chunk.length < (frame (c.encrypt n chunk)).length
  := by
  rw [frame, List.length_append, lawful.length_encrypt, NOISE_TAG_LEN]
  omega

/-- Decrypting a chunk takes the rest of its frame away. -/
theorem remaining_open (lawful : c.Lawful) {receiver : EncryptedStream} {wire chunk : List UInt8}
    (hleft : receiver.left = chunk.drop want) (hrx : receiver.rx = .default)
    (hbytes : s.incoming = frame (c.encrypt s.receiver.receiving chunk) ++ wire)
    (hwire : wire.length ≤ s.wire.length) :
  { s with receiver, wire }.remaining < s.remaining
  := by
  have hframe := lt_length_frame lawful s.receiver.receiving chunk
  have hlength := congrArg List.length hbytes
  simp only [incoming, List.length_append] at hlength
  have hdefault : RxFrame.default.bytes.length = 0 := rfl
  simp only [remaining, hleft, hrx, hdefault, List.length_drop]
  omega

/-- Collecting bytes takes away as many as are taken from underneath. -/
theorem remaining_collect
    {receiver : EncryptedStream} {wire : List UInt8} (hnone : s.receiver.left = [])
    (hleft : receiver.left = []) (hbytes : s.incoming = receiver.rx.bytes ++ wire) :
  { s with receiver, wire }.remaining + s.wire.length = s.remaining + wire.length
  := by
  have hlength := congrArg List.length hbytes
  simp only [incoming, List.length_append] at hlength
  simp only [remaining, hleft, hnone, List.length_nil]
  omega

theorem Reads.remaining_le (lawful : c.Lawful) (h : Reads c s want replies queue queue' out) :
  out.1.remaining ≤ s.remaining
  := by
  cases h with
  | hands hsome hleft hrx =>
    simp only [remaining, hleft, hrx, List.length_drop]
    omega
  | opens hnone hleft hrx hreceiving hbytes hwire =>
    apply Nat.le_of_lt
    exact remaining_open lawful hleft hrx hbytes hwire
  | waits hnone hleft _ _ hbytes hwire | fails hnone hleft _ _ hbytes hwire =>
    have hcollect := remaining_collect hnone hleft hbytes
    dsimp only
    omega
  | ends _ hleft _ _ _ _ hnil => simp [remaining, hleft, hnil]
  | cuts hnone hleft _ _ _ hbytes =>
    have hcollect := remaining_collect hnone hleft (hbytes.trans (List.append_nil _).symm)
    rw [List.length_nil] at hcollect
    dsimp only
    omega

/-- A productive read takes something away. -/
theorem Reads.remaining_lt (lawful : c.Lawful) (h : Reads c s want replies queue queue' out)
    (hwant : 0 < want) (hanswered : Answered replies) (hsome : ¬ s.Exhausted) :
  out.1.remaining < s.remaining
  := by
  have hwire_pos (hnone : s.receiver.left = []) : 0 < s.wire.length := by
    rw [List.length_pos_iff]
    intro hnil
    exact hsome ⟨hnil, hnone⟩
  cases h with
  | hands hleft_ne hleft hrx =>
    have hpos := List.length_pos_iff.mpr hleft_ne
    simp only [remaining, hleft, hrx, List.length_drop]
    omega
  | opens hnone hleft hrx hreceiving hbytes hwire =>
    exact remaining_open lawful hleft hrx hbytes hwire
  | waits hnone hleft _ _ hbytes hwire hmoves =>
    have hpos := hwire_pos hnone
    have hcollect := remaining_collect hnone hleft hbytes
    obtain hless | ⟨hnil, -⟩ := hmoves hanswered
    · dsimp only
      omega
    · simp [hnil] at hpos
  | fails hnone hleft _ _ hbytes hwire hmoves =>
    have hless := hmoves hanswered
    have hcollect := remaining_collect hnone hleft hbytes
    dsimp only
    omega
  | ends hnone hleft _ _ _ hbytes hnil =>
    have hpos := hwire_pos hnone
    rw [incoming, List.append_eq_nil_iff] at hbytes
    simp [hbytes.2] at hpos
  | cuts hnone hleft _ _ _ hbytes =>
    have hpos := hwire_pos hnone
    have hcollect := remaining_collect hnone hleft (hbytes.trans (List.append_nil _).symm)
    rw [List.length_nil] at hcollect
    dsimp only
    omega

/-- Where there is nothing to get there is nothing to get after a read. -/
theorem Reads.exhausted (h : Reads c s want replies queue queue' out) (hs : s.Exhausted) :
  out.1.Exhausted
  := by
  obtain ⟨hnil, hnone⟩ := hs
  cases h with
  | hands hsome => exact absurd hnone hsome
  | opens _ _ _ _ _ _ hcame => exact absurd hnil hcame
  | waits _ hleft _ _ _ hwire | fails _ hleft _ _ _ hwire =>
    rw [hnil, List.length_nil, Nat.le_zero_eq, List.length_eq_zero_iff] at hwire
    exact ⟨hwire, hleft⟩
  | ends _ hleft | cuts _ hleft => exact ⟨rfl, hleft⟩

/-- Where there is nothing to get and nothing will come, a productive read is told so. -/
theorem Reads.stops (h : Reads c s want replies queue queue' out) (hwant : 0 < want)
    (hanswered : Answered replies) (hs : s.Exhausted) (hclosed : s.closed = true) :
  .eof ∈ out.2 ∨ ∃ message, .readFailed (.unexpectedEof message) ∈ out.2
  := by
  obtain ⟨hnil, hnone⟩ := hs
  cases h with
  | hands hsome => exact absurd hnone hsome
  | opens _ _ _ _ _ _ hcame => exact absurd hnil hcame
  | waits _ _ _ _ _ _ hmoves =>
    obtain hless | ⟨-, hopen⟩ := hmoves hanswered
    · simp [hnil] at hless
    · simp [hclosed] at hopen
  | fails _ _ _ _ _ _ hmoves =>
    have hless := hmoves hanswered
    simp [hnil] at hless
  | ends => exact .inl (by simp [hwant])
  | cuts => exact .inr ⟨_, List.mem_singleton_self _⟩

/-- Whole frames in front are all that a read takes. -/
theorem Reads.frames_iff
    (lawful : c.Lawful) (hqueue : Chunked queue) (h : Reads c s want replies queue queue' out) :
  Frames out.1.incoming ↔ Frames s.incoming
  := by
  cases h with
  | hands _ _ hrx => rw [incoming, incoming, hrx]
  | opens _ _ hrx _ hbytes =>
    have hfits := length_encrypt_le lawful s.receiver.receiving
      (hqueue _ List.mem_cons_self).2
    rw [hbytes, frame, List.append_assoc, frames_cons_iff rfl (u16FromBeBytes_toBeBytes hfits),
      incoming, hrx]
    rfl
  | waits _ _ _ _ hbytes | fails _ _ _ _ hbytes => rw [hbytes, incoming]
  | ends _ _ _ _ _ hbytes hnil =>
    rw [hbytes, incoming, hnil]
    rfl
  | cuts _ _ _ _ _ hbytes => rw [hbytes, incoming, List.append_nil]

/-- The end is clean only behind whole frames. -/
theorem Reads.frames_of_eof (h : Reads c s want replies queue queue' out) (heof : .eof ∈ out.2) :
  Frames s.incoming
  := by
  cases h with
  | hands | opens | waits | fails | cuts => simp at heof
  | ends _ _ _ _ _ hbytes =>
    rw [hbytes]
    exact .nil

/-- It is reported as unexpected only behind part of a frame. -/
theorem Reads.not_frames_of_unexpectedEof (h : Reads c s want replies queue queue' out)
    {message : String} (hcut : .readFailed (.unexpectedEof message) ∈ out.2) :
  ¬ Frames s.incoming
  := by
  cases h with
  | hands | opens | waits | fails => simp at hcut
  | ends =>
    dsimp only at hcut
    split at hcut <;> simp at hcut
  | cuts _ _ hpart _ _ hbytes hne =>
    rw [hbytes]
    exact RxFrame.not_frames hpart hne

end Reads

/-! ### Runs that leave the bytes on their way alone -/

/-- An action that neither adds to the bytes on their way nor loses any of them: a read, or one
of the sender whose bytes do not get anywhere or which has none. -/
def Steady (s : Tunnel) : Act → Prop
  | .read _ _ => True
  | .cut _ => False
  | .write _ _ => s.closed = true
  | .flush _ _ => s.closed = true ∨ s.sender.staged = []
  | .shutdown _ _ => s.closed = true ∨ s.sender.staged = []

theorem carry_steady {pushed : List UInt8} (h : s.closed = true ∨ pushed = []) :
  s.carry pushed = s.wire
  := by
  unfold carry
  obtain hclosed | hnil := h
  · rw [if_pos hclosed]
  · rw [hnil, List.append_nil, ite_self]

/-- Nothing is pushed when nothing is staged. -/
theorem pollDrain_nil {s : EncryptedStream} (h : s.staged = []) (replies : List WriteReply) :
  (s.pollDrain replies).pushed = [] ∧ (s.pollDrain replies).stream.staged = []
  := by
  have hpushed := pollDrain_pushed s replies
  rw [h] at hpushed
  exact List.append_eq_nil_iff.mp hpushed

theorem flush_fst (s : Tunnel) (replies : List WriteReply) (inner : Poll Unit) :
  (s.flush replies inner).1 = (s.drainThen replies inner).1
  := by
  unfold flush
  split <;> rename_i hdrain <;> rw [hdrain]

/-- A shutdown drains, and may close the stream underneath. -/
theorem shutdown_fst (s : Tunnel) (replies : List WriteReply) (inner : Poll Unit) :
  ∃ closed, (s.shutdown replies inner).1 = { (s.drainThen replies inner).1 with closed }
    ∧ (s.closed = true → closed = true)
  := by
  have hclosed : (s.drainThen replies inner).1.closed = s.closed := by
    rw [drainThen_fst]
  unfold shutdown
  split
  · rename_i hdrain
    rw [hdrain] at hclosed ⊢
    exact ⟨s.closed, by rw [← hclosed], id⟩
  · rename_i hdrain
    rw [hdrain] at hclosed ⊢
    exact ⟨s.closed, by rw [← hclosed], id⟩
  · rename_i hdrain
    rw [hdrain]
    exact ⟨true, rfl, fun _ => rfl⟩

theorem drainThen_steady
    (h : s.closed = true ∨ s.sender.staged = []) (replies : List WriteReply) (inner : Poll Unit) :
  (s.drainThen replies inner).1.wire = s.wire
    ∧ (s.drainThen replies inner).1.receiver = s.receiver
  := by
  rw [drainThen_fst]
  constructor
  · apply carry_steady
    exact h.imp_right fun hstaged => (pollDrain_nil hstaged replies).1
  · rfl

variable {c : Cipher}

variable {a : Act}

/-- A steady action that is no read leaves the receiver and the bytes underneath alone. -/
theorem next_steady (hsteady : Steady s a) (ha : ∀ want replies, a ≠ .read want replies) :
  ((machine c).next s a).wire = s.wire ∧ ((machine c).next s a).receiver = s.receiver
  := by
  cases a with
  | write buf replies => exact ⟨carry_steady (.inl hsteady), rfl⟩
  | flush replies inner =>
    simp only [Machine.next, machine, step, flush_fst]
    exact drainThen_steady hsteady replies inner
  | shutdown replies inner =>
    obtain ⟨closed, hshutdown, -⟩ := s.shutdown_fst replies inner
    simp only [Machine.next, machine, step, hshutdown]
    exact drainThen_steady hsteady replies inner
  | cut kept => exact hsteady.elim
  | read want replies => exact absurd rfl (ha want replies)

theorem productive_iff :
  productive a = true ↔ ∃ want replies, a = .read want replies ∧ 0 < want ∧ Answered replies
  := by
  constructor
  · intro h
    unfold productive at h
    split at h
    · exact ⟨_, _, rfl, by simpa using h, _, _, rfl⟩
    · simp at h
  · rintro ⟨want, replies, rfl, hwant, n, rest, rfl⟩
    simpa [productive] using hwant

section Linked

variable {c : Cipher} {s : Tunnel} {os : List Obs} {queue : List (List UInt8)} {a : Act}

/-- A steady action never adds to what there is to get, and a productive read takes away. -/
theorem Linked.progress (lawful : c.Lawful) (linked : Linked c s os queue) (hsteady : Steady s a) :
  ((machine c).next s a).remaining ≤ s.remaining
    ∧ (s.Exhausted → ((machine c).next s a).Exhausted)
    ∧ (productive a = true → ¬ s.Exhausted → ((machine c).next s a).remaining < s.remaining)
  := by
  by_cases hread : ∃ want replies, a = .read want replies
  · obtain ⟨want, replies, rfl⟩ := hread
    obtain ⟨queue', hreads⟩ := reads lawful linked.collecting linked.chunked linked.carried
      want replies
    refine ⟨hreads.remaining_le lawful, hreads.exhausted, ?_⟩
    intro hproductive
    obtain ⟨want, replies, ⟨⟩, hwant, hanswered⟩ := productive_iff.mp hproductive
    exact hreads.remaining_lt lawful hwant hanswered
  · have hread : ∀ want replies, a ≠ .read want replies :=
      fun want replies h => hread ⟨want, replies, h⟩
    obtain ⟨hwire, hreceiver⟩ := next_steady (c := c) hsteady hread
    refine ⟨?_, ?_, ?_⟩
    · simp only [remaining, hwire, hreceiver]
      exact Nat.le_refl _
    · simp only [Exhausted, hwire, hreceiver]
      exact id
    · intro hproductive
      obtain ⟨want, replies, rfl, -, -⟩ := productive_iff.mp hproductive
      exact absurd rfl (hread want replies)

/-- After as many productive reads as there are bytes to get there is nothing left to get. -/
theorem Linked.exhausted_run (lawful : c.Lawful) (linked : Linked c s os queue) {rest : List Act}
    (along : (machine c).Along (fun s a => Sound s a ∧ Steady s a) s rest)
    (h : s.Exhausted ∨ s.remaining ≤ rest.countP productive) :
  ((machine c).final s rest).Exhausted
  := by
  induction rest generalizing s os queue with
  | nil =>
    obtain hexhausted | hle := h
    · exact hexhausted
    · exact exhausted_of_remaining (Nat.le_zero.mp hle)
  | cons a rest ih =>
    obtain ⟨⟨hsound, hsteady⟩, hrest⟩ := along
    obtain ⟨queue', linked'⟩ := linked.step lawful hsound
    obtain ⟨hle, hexhausted, hlt⟩ := linked.progress lawful hsteady
    apply ih linked' hrest
    by_cases hs : s.Exhausted
    · exact .inl (hexhausted hs)
    · right
      have hmany := h.resolve_left hs
      rw [List.countP_cons] at hmany
      by_cases hproductive : productive a = true
      · have hless := hlt hproductive hs
        rw [if_pos hproductive] at hmany
        omega
      · rw [if_neg hproductive] at hmany
        omega

end Linked

/-! ### Once all is flushed -/

/-- Everything that was accepted is pushed, and nothing of it was lost. -/
structure Settled (c : Cipher) (s : Tunnel) (queue : List (List UInt8)) : Prop where
  pushed : s.sender.staged = []
  whole : s.incoming = encoded c s.receiver.receiving queue

/-- The sender writes no more, and the stream underneath is not cut. -/
def Quiet : Act → Prop
  | .read _ _ => True
  | .flush _ _ => True
  | .shutdown _ _ => True
  | _ => False

variable {queue : List (List UInt8)}

theorem Settled.steady (settled : Settled c s queue) (quiet : Quiet a) :
  Sound s a ∧ Steady s a
  := by
  cases a with
  | read => exact ⟨trivial, trivial⟩
  | flush | shutdown => exact ⟨trivial, .inr settled.pushed⟩
  | write | cut => exact quiet.elim

theorem Settled.read
    {queue' : List (List UInt8)} {want : ℕ} {replies : List ReadReply} {out : Tunnel × List Obs}
    (settled : Settled c s queue) (h : Reads c s want replies queue queue' out) :
  Settled c out.1 queue'
  := by
  obtain ⟨hpushed, hwhole⟩ := settled
  cases h with
  | hands _ _ hrx hreceiving => exact ⟨hpushed, by rw [incoming, hrx, hreceiving]; exact hwhole⟩
  | opens _ _ hrx hreceiving hbytes =>
    refine ⟨hpushed, ?_⟩
    rw [hbytes, encoded] at hwhole
    rw [incoming, hrx, hreceiving]
    exact List.append_cancel_left hwhole
  | waits _ _ _ hreceiving hbytes | fails _ _ _ hreceiving hbytes =>
    exact ⟨hpushed, by rw [incoming, ← hbytes, hreceiving, hwhole]⟩
  | ends _ _ _ hreceiving _ hbytes hnil =>
    refine ⟨hpushed, ?_⟩
    rw [incoming, hnil, hreceiving, ← hwhole, hbytes]
    rfl
  | cuts _ _ _ hreceiving _ hbytes =>
    exact ⟨hpushed, by rw [incoming, List.append_nil, ← hbytes, hreceiving, hwhole]⟩

/-- Draining keeps what is settled. -/
theorem Settled.drainThen {s' : Tunnel} (settled : Settled c s queue) {replies : List WriteReply}
    {inner : Poll Unit} (hsender : s'.sender = (s.drainThen replies inner).1.sender)
    (hwire : s'.wire = s.wire) (hreceiver : s'.receiver = s.receiver) :
  Settled c s' queue
  where
  pushed := by
    rw [hsender, drainThen_fst]
    exact (pollDrain_nil settled.pushed replies).2
  whole := by
    rw [incoming, hwire, hreceiver]
    exact settled.whole

variable {os : List Obs}

theorem Settled.step (lawful : c.Lawful) (linked : Linked c s os queue)
    (settled : Settled c s queue) (quiet : Quiet a) :
  ∃ queue', Linked c ((machine c).next s a) (os ++ (machine c).emit s a) queue'
    ∧ Settled c ((machine c).next s a) queue'
  := by
  have hsteady := (settled.steady quiet).2
  cases a with
  | read want replies =>
    obtain ⟨queue', hreads⟩ := reads lawful linked.collecting linked.chunked linked.carried
      want replies
    exact ⟨queue', linked.read hreads, settled.read hreads⟩
  | flush replies inner =>
    obtain ⟨hwire, hreceiver⟩ := next_steady (c := c) hsteady (by simp)
    have hsender : ((machine c).next s (.flush replies inner)).sender
        = (s.drainThen replies inner).1.sender := by
      rw [← flush_fst]
      rfl
    exact ⟨queue, linked.flush replies inner, settled.drainThen hsender hwire hreceiver⟩
  | shutdown replies inner =>
    obtain ⟨hwire, hreceiver⟩ := next_steady (c := c) hsteady (by simp)
    obtain ⟨closed, hshutdown, -⟩ := s.shutdown_fst replies inner
    have hsender : ((machine c).next s (.shutdown replies inner)).sender
        = (s.drainThen replies inner).1.sender := by
      simp only [Machine.next, machine, Tunnel.step, hshutdown]
    exact ⟨queue, linked.shutdown replies inner, settled.drainThen hsender hwire hreceiver⟩
  | write | cut => exact quiet.elim

/-- What is settled stays so as long as the sender is quiet. -/
theorem Settled.run (lawful : c.Lawful) (linked : Linked c s os queue) (settled : Settled c s queue)
    {rest : List Act} (quiet : ∀ a ∈ rest, Quiet a) :
  (machine c).Along (fun s a => Sound s a ∧ Steady s a) s rest
    ∧ ∃ queue', Linked c ((machine c).final s rest) (os ++ (machine c).trace s rest) queue'
      ∧ Settled c ((machine c).final s rest) queue'
  := by
  induction rest generalizing s os queue with
  | nil => exact ⟨trivial, queue, by rwa [Machine.trace, List.append_nil], settled⟩
  | cons a rest ih =>
    have ha := quiet a List.mem_cons_self
    obtain ⟨queue', linked', settled'⟩ := settled.step lawful linked ha
    obtain ⟨halong, hfinal⟩ := ih linked' settled'
      fun a ha => quiet a (List.mem_cons_of_mem _ ha)
    rw [List.append_assoc] at hfinal
    exact ⟨⟨settled.steady ha, halong⟩, hfinal⟩

/-- When everything is settled and there is nothing left to get, everything was read. -/
theorem Settled.delivered (lawful : c.Lawful) (linked : Linked c s os queue)
    (settled : Settled c s queue) (hexhausted : s.Exhausted) :
  plaintext os = (accepted os).flatten
  := by
  obtain ⟨hwire, hleft⟩ := hexhausted
  have hwhole := settled.whole
  rw [incoming, hwire, List.append_nil] at hwhole
  cases queue with
  | nil =>
    obtain ⟨opened, hopened, hhanded⟩ := linked.handed
    rw [hleft, List.append_nil] at hhanded
    rw [hopened, List.append_nil, hhanded]
  | cons chunk rest =>
    -- the frame of the chunk would be all there
    have hfits := length_encrypt_le lawful s.receiver.receiving
      (linked.chunked chunk List.mem_cons_self).2
    rw [encoded, frame, List.append_assoc] at hwhole
    exact absurd hwhole
      (RxFrame.bytes_ne_frame linked.collecting rfl (u16FromBeBytes_toBeBytes hfits))

/-- A flush that goes through settles everything, unless the stream underneath is closed. -/
theorem Linked.settled_of_flushed (linked : Linked c s os queue) {replies : List WriteReply}
    {inner : Poll Unit} (hopen : s.closed = false) (h : (s.flush replies inner).2 = [.flushed]) :
  Settled c (s.flush replies inner).1 queue
  := by
  have hlinked := linked.flush replies inner
  have hdrained : (s.sender.pollDrain replies).result = .ready (.ok ()) := by
    unfold Tunnel.flush Tunnel.drainThen at h
    cases hresult : (s.sender.pollDrain replies).result with
    | pending => simp [hresult] at h
    | ready result =>
      cases result with
      | error e => simp [hresult] at h
      | ok => rfl
  have hpushed : (s.flush replies inner).1.sender.staged = [] := by
    rw [flush_fst, drainThen_fst]
    exact pollDrain_ok hdrained
  have hclosed : (s.flush replies inner).1.closed = false := by
    rw [flush_fst, drainThen_fst]
    exact hopen
  refine ⟨hpushed, ?_⟩
  rw [← hlinked.whole hclosed, hpushed, List.append_nil]

/-! ### Once the stream underneath has ended -/

/-- An end of the stream is not undone. -/
theorem closed_next (hclosed : s.closed = true) (a : Act) :
  ((machine c).next s a).closed = true
  := by
  cases a with
  | write | read => exact hclosed
  | flush replies inner =>
    simp only [Machine.next, machine, step, flush_fst, drainThen_fst]
    exact hclosed
  | shutdown replies inner =>
    obtain ⟨closed, hshutdown, hkept⟩ := s.shutdown_fst replies inner
    simp only [Machine.next, machine, step, hshutdown]
    exact hkept hclosed
  | cut => rfl

/-- The stream underneath is not cut again. -/
def Uncut : Act → Prop
  | .cut _ => False
  | _ => True

theorem steady_of_closed (hclosed : s.closed = true) (uncut : Uncut a) :
  Steady s a
  := by
  cases a with
  | read => trivial
  | write => exact hclosed
  | flush | shutdown => exact .inl hclosed
  | cut => exact uncut.elim

section Ended

variable {c : Cipher} {s : Tunnel} {os : List Obs} {queue : List (List UInt8)}

/-- What a step says about the end is true of the bytes that came through, and it leaves whole
frames or part of one as they are. -/
theorem Linked.ended_step (lawful : c.Lawful) (linked : Linked c s os queue)
    (hclosed : s.closed = true) {a : Act} (uncut : Uncut a) :
  (Frames ((machine c).next s a).incoming ↔ Frames s.incoming)
    ∧ (.eof ∈ (machine c).emit s a → Frames s.incoming)
    ∧ ∀ message, .readFailed (.unexpectedEof message) ∈ (machine c).emit s a →
      ¬ Frames s.incoming
  := by
  by_cases hread : ∃ want replies, a = .read want replies
  · obtain ⟨want, replies, rfl⟩ := hread
    obtain ⟨queue', hreads⟩ := reads lawful linked.collecting linked.chunked linked.carried
      want replies
    exact ⟨hreads.frames_iff lawful linked.chunked, hreads.frames_of_eof,
      fun message => hreads.not_frames_of_unexpectedEof⟩
  · have hread : ∀ want replies, a ≠ .read want replies :=
      fun want replies h => hread ⟨want, replies, h⟩
    obtain ⟨hwire, hreceiver⟩ := next_steady (c := c) (steady_of_closed hclosed uncut) hread
    refine ⟨?_, ?_, ?_⟩
    · rw [incoming, incoming, hwire, hreceiver]
    · exact fun heof => absurd trivial (not_stops_emit hread heof)
    · exact fun message hcut => absurd trivial (not_stops_emit hread hcut)

/-- What a run says about the end is true of the bytes that came through. -/
theorem Linked.ended_run
    (lawful : c.Lawful) (linked : Linked c s os queue) (hclosed : s.closed = true)
    {rest : List Act} (sound : (machine c).Along Sound s rest) (uncut : ∀ a ∈ rest, Uncut a) :
  (.eof ∈ (machine c).trace s rest → Frames s.incoming)
    ∧ ∀ message, .readFailed (.unexpectedEof message) ∈ (machine c).trace s rest →
      ¬ Frames s.incoming
  := by
  induction rest generalizing s os queue with
  | nil => simp [Machine.trace]
  | cons a rest ih =>
    obtain ⟨hsound, hrest⟩ := sound
    obtain ⟨queue', linked'⟩ := linked.step lawful hsound
    obtain ⟨hframes, heof, hcut⟩ := linked.ended_step lawful hclosed
      (uncut a List.mem_cons_self)
    obtain ⟨hlater, hlaterCut⟩ := ih linked' (closed_next hclosed a) hrest
      fun a ha => uncut a (List.mem_cons_of_mem _ ha)
    rw [hframes] at hlater hlaterCut
    simp only [Machine.trace, List.mem_append]
    exact ⟨fun h => h.elim heof hlater,
      fun message h => h.elim (hcut message) (hlaterCut message)⟩

/-- After more productive reads than there are bytes to get the reader was told that the stream
underneath has ended. -/
theorem Linked.stops_run (lawful : c.Lawful) (linked : Linked c s os queue)
    (hclosed : s.closed = true) {rest : List Act} (sound : (machine c).Along Sound s rest)
    (uncut : ∀ a ∈ rest, Uncut a) (h : s.remaining < rest.countP productive) :
  .eof ∈ (machine c).trace s rest
    ∨ ∃ message, .readFailed (.unexpectedEof message) ∈ (machine c).trace s rest
  := by
  induction rest generalizing s os queue with
  | nil => simp at h
  | cons a rest ih =>
    obtain ⟨hsound, hrest⟩ := sound
    obtain ⟨queue', linked'⟩ := linked.step lawful hsound
    obtain ⟨hle, -, hlt⟩ := linked.progress lawful
      (steady_of_closed hclosed (uncut a List.mem_cons_self))
    simp only [Machine.trace, List.mem_append]
    rw [List.countP_cons] at h
    by_cases hnow : productive a = true ∧ s.Exhausted
    · obtain ⟨hproductive, hexhausted⟩ := hnow
      obtain ⟨want, replies, rfl, hwant, hanswered⟩ := productive_iff.mp hproductive
      obtain ⟨queue', hreads⟩ := reads lawful linked.collecting linked.chunked linked.carried
        want replies
      obtain heof | ⟨message, hcut⟩ := hreads.stops hwant hanswered hexhausted hclosed
      · exact .inl (.inl heof)
      · exact .inr ⟨message, .inl hcut⟩
    · have hmany : ((machine c).next s a).remaining < rest.countP productive := by
        by_cases hproductive : productive a = true
        · have hless := hlt hproductive fun hexhausted => hnow ⟨hproductive, hexhausted⟩
          rw [if_pos hproductive] at h
          omega
        · rw [if_neg hproductive] at h
          omega
      obtain heof | ⟨message, hcut⟩ := ih linked' (closed_next hclosed a) hrest
        (fun a ha => uncut a (List.mem_cons_of_mem _ ha)) hmany
      · exact .inl (.inr heof)
      · exact .inr ⟨message, .inr hcut⟩

end Ended

/-! ### A plain pipe -/

/-- The two ends behave as a plain pipe of bytes does after the actions `as`, and as they go on. -/
structure PlainPipe (c : Cipher) (as : List Act) : Prop where
  /-- What was read is the beginning of what was accepted. -/
  in_order : plaintext ((machine c).trace new as) <+: (accepted ((machine c).trace new as)).flatten
  /-- Every ciphertext fits its header. -/
  fits : ∀ cipher, .staged cipher ∈ (machine c).trace new as → FitsHeader cipher
  /-- The reader is stopped at boundaries of chunks only. -/
  boundaries : AtEach AtBoundary ((machine c).trace new as)
  /-- After a flush the reader gets exactly what was accepted. -/
  delivered :
    ∀ replies inner rest,
      let s := (machine c).final new as
      let os := (machine c).trace new (as ++ .flush replies inner :: rest)
      s.closed = false → (machine c).emit s (.flush replies inner) = [.flushed] →
      (∀ a ∈ rest, Quiet a) →
      ((machine c).next s (.flush replies inner)).remaining ≤ rest.countP productive →
      plaintext os = (accepted os).flatten
  /-- When the stream underneath has ended the reader gets to know; the end is clean behind whole
  frames, and an error within a frame. -/
  ended :
    let s := (machine c).final new as
    s.closed = true → ∀ rest, (machine c).Along Sound s rest → (∀ a ∈ rest, Uncut a) →
      (.eof ∈ (machine c).trace s rest → Frames s.incoming)
      ∧ (∀ message, .readFailed (.unexpectedEof message) ∈ (machine c).trace s rest →
        ¬ Frames s.incoming)
      ∧ (s.remaining < rest.countP productive →
        .eof ∈ (machine c).trace s rest
          ∨ ∃ message, .readFailed (.unexpectedEof message) ∈ (machine c).trace s rest)

/-- Every ciphertext that a run stages fits its header. -/
theorem fits_run (lawful : c.Lawful) (s : Tunnel) (as : List Act) {cipher : List UInt8}
    (h : .staged cipher ∈ (machine c).trace s as) :
  FitsHeader cipher
  := by
  induction as generalizing s with
  | nil => simp [Machine.trace] at h
  | cons a as ih =>
    obtain hnow | hlater := List.mem_append.mp h
    · exact fits_emit lawful hnow
    · exact ih _ hlater

/-- Over a lawful cipher, whatever is written and read and however the stream underneath splits
and delays it, the encrypted stream is a plain pipe. -/
theorem refines_plain_pipe
    {c : Cipher} (lawful : c.Lawful) {as : List Act} (sound : (machine c).Along Sound new as) :
  PlainPipe c as
  := by
  obtain ⟨queue, linked⟩ := linked_run lawful sound
  constructor
  case in_order => exact linked.plaintext_isPrefix
  case fits => exact fun cipher => fits_run lawful new as
  case boundaries => exact boundaries_run lawful sound
  case delivered =>
    intro replies inner rest s os hopen hflushed quiet hmany
    have hlinked := linked.flush replies inner
    have hsettled := linked.settled_of_flushed hopen hflushed
    obtain ⟨halong, queue', hlinked', hsettled'⟩ := hsettled.run lawful hlinked quiet
    have hexhausted := hlinked.exhausted_run lawful halong (.inr hmany)
    have htrace : os = (machine c).trace new as ++ (machine c).emit s (.flush replies inner)
        ++ (machine c).trace ((machine c).next s (.flush replies inner)) rest := by
      rw [List.append_assoc]
      exact Machine.trace_append _ _ _ _
    rw [htrace]
    exact hsettled'.delivered lawful hlinked' hexhausted
  case ended =>
    intro s hclosed rest hsound uncut
    obtain ⟨heof, hcut⟩ := linked.ended_run lawful hclosed hsound uncut
    exact ⟨heof, hcut, linked.stops_run lawful hclosed hsound uncut⟩

/-- A cipher that hides nothing: its tag is the number of the message. -/
def tagged : Cipher where
  encrypt n plain := plain ++ List.replicate NOISE_TAG_LEN (.ofNat n)
  decrypt n cipher :=
    if cipher.drop (cipher.length - NOISE_TAG_LEN) = List.replicate NOISE_TAG_LEN (.ofNat n) then
      some (cipher.take (cipher.length - NOISE_TAG_LEN))
    else none

theorem tagged_lawful :
  tagged.Lawful
  where
  length_encrypt := by simp [tagged]
  decrypt_encrypt := by simp [tagged]

/-- Two bytes are accepted while only one byte of their frame is taken; they are flushed in two
more pieces, and read in pieces of up to eight bytes. -/
theorem plain_pipe_of_short_writes :
  let as : List Act := [.write [104, 105] [.took 1]]
  let flush : Act := .flush [.took 3, .took 100] (.ready (.ok ()))
  let os := (machine tagged).trace new (as ++ flush :: List.replicate 40 (.read 8 [.upTo 7]))
  accepted ((machine tagged).trace new as) = [[104, 105]]
    ∧ PlainPipe tagged as
    ∧ plaintext os = (accepted os).flatten
  := by
  have hpipe : PlainPipe tagged [.write [104, 105] [.took 1]] := by
    apply refines_plain_pipe tagged_lawful
    simp [Machine.Along, Sound, WriteReply.Sound]
  refine ⟨by decide, hpipe, ?_⟩
  apply hpipe.delivered
  · rfl
  · decide
  · simp [Quiet]
  · decide

end Tunnel

end Lazybox
