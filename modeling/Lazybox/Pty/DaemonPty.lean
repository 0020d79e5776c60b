import Lazybox.Pty.ReplayRing

/-!
# Terminals with subscribers

A `DaemonPty` numbers the chunks its terminal puts out and sends them to its subscribers
over a broadcast channel.  The reader thread pushes a chunk into the ring, gives it the next
sequence number and sends it, all under the ring's lock; so does a resize, with an empty
chunk; and a subscription attaches its receiver and takes its snapshot under the same lock.
Each of these is one step here.  The channel delivers to every receiver what is sent after
the receiver was attached, in order: it does not lag.
-/

namespace Lazybox

structure OutputChunk where
  seq : ℕ
  bytes : List UInt8
  cols : UInt16
  rows : UInt16
deriving DecidableEq, Repr

/-- What a snapshot of a terminal hands out. -/
structure ReplaySnapshot where
  replay : List UInt8
  lastSeq : ℕ
  complete : Bool
  sizes : List ReplaySizeSpan
deriving DecidableEq, Repr

/-- A subscription, with what its receiver was sent so far. -/
structure Subscription where
  replay : List UInt8
  replayComplete : Bool
  replaySizes : List ReplaySizeSpan
  lastSeq : ℕ
  live : List OutputChunk
deriving DecidableEq, Repr

structure DaemonPty where
  ring : ReplayRing
  lastSeq : ℕ
  seed : List UInt8
  /-- The subscriptions whose receivers are attached to `output_tx`. -/
  subscribers : List Subscription
deriving DecidableEq, Repr

namespace DaemonPty

/-- A terminal just spawned with a ring of capacity `cap`.  A seed counts as chunk `1`. -/
def spawn (cap : ℕ) (seed : List UInt8) (cols rows : UInt16) : DaemonPty where
  ring := (ReplayRing.empty cap).noteSize cols rows
  lastSeq := if seed.isEmpty then 0 else 1
  seed := seed
  subscribers := []

/-- Send a chunk on the broadcast channel. -/
def send (p : DaemonPty) (chunk : OutputChunk) : DaemonPty :=
  { p with subscribers := p.subscribers.map fun s => { s with live := s.live ++ [chunk] } }

/-- The reader thread's step for `bytes` read from the terminal. -/
def read (p : DaemonPty) (bytes : List UInt8) : DaemonPty × OutputChunk :=
  let ring := p.ring.push bytes
  let seq := p.lastSeq + 1
  let (cols, rows) := ring.size
  let chunk := ⟨seq, bytes, cols, rows⟩
  ({ p with ring := ring, lastSeq := seq }.send chunk, chunk)

/-- A resize, announced as an empty chunk. -/
def resize (p : DaemonPty) (cols rows : UInt16) : DaemonPty × OutputChunk :=
  let seq := p.lastSeq + 1
  let chunk := ⟨seq, [], cols, rows⟩
  ({ p with ring := p.ring.noteSize cols rows, lastSeq := seq }.send chunk, chunk)

/-- The snapshot taken under the ring's lock. -/
def snapshotLocked (p : DaemonPty) : ReplaySnapshot :=
  let (replay, sizes) := p.ring.replaySnapshotInto p.seed
  { replay := replay, lastSeq := p.lastSeq, complete := p.ring.isComplete, sizes := sizes }

def subscribe (p : DaemonPty) : DaemonPty :=
  let snapshot := p.snapshotLocked
  let subscription := {
    replay := snapshot.replay
    replayComplete := snapshot.complete
    replaySizes := snapshot.sizes
    lastSeq := snapshot.lastSeq
    live := [] }
  { p with subscribers := p.subscribers ++ [subscription] }

/-- The steps taken under the ring's lock. -/
inductive Act where
  | read (bytes : List UInt8)
  | resize (cols rows : UInt16)
  | subscribe

/-- The terminal as a machine.  What is observed are the chunks put out. -/
def machine : Machine DaemonPty Act OutputChunk where
  step p
    | .read bytes => ((p.read bytes).1, [(p.read bytes).2])
    | .resize cols rows => ((p.resize cols rows).1, [(p.resize cols rows).2])
    | .subscribe => (p.subscribe, [])

/-- The bytes of a list of chunks. -/
def bytesOf (chunks : List OutputChunk) : List UInt8 :=
  (chunks.map OutputChunk.bytes).flatten

/-! ### What a subscription was handed -/

/-- Of the chunks put out so far, numbered from `base + 1` on, the subscription was handed
those in front of `live` in its replay, and `live` on its receiver. -/
structure Subscription.Cut
    (cap : ℕ) (seed : List UInt8) (base : ℕ) (chunks : List OutputChunk) (s : Subscription) :
    Prop where
  cut : ∃ before, chunks = before ++ s.live ∧ s.lastSeq = base + before.length
    ∧ s.replay = seed ++ ReplayRing.replayTail cap (bytesOf before)
    ∧ (s.replayComplete = true ↔ (bytesOf before).length ≤ cap)

/-- The state a terminal is in once it has put out `chunks`. -/
structure After (cap : ℕ) (seed : List UInt8) (base : ℕ) (p : DaemonPty)
    (chunks : List OutputChunk) : Prop where
  cap_eq : p.ring.cap = cap
  holds : p.ring.Holds (bytesOf chunks)
  seed_eq : p.seed = seed
  seqs_eq : chunks.map OutputChunk.seq = List.range' (base + 1) chunks.length
  lastSeq_eq : p.lastSeq = base + chunks.length
  cuts : ∀ s ∈ p.subscribers, Subscription.Cut cap seed base chunks s

theorem bytesOf_append (chunks chunks' : List OutputChunk) :
  bytesOf (chunks ++ chunks') = bytesOf chunks ++ bytesOf chunks'
  := by
  rw [bytesOf, List.map_append, List.flatten_append, bytesOf, bytesOf]

theorem bytesOf_singleton (chunk : OutputChunk) :
  bytesOf [chunk] = chunk.bytes
  := by
  simp [bytesOf]

variable {cap : ℕ}

theorem spawn_after (hcap : 0 < cap) (seed : List UInt8) (cols rows : UInt16) :
  After cap seed (spawn cap seed cols rows).lastSeq (spawn cap seed cols rows) []
  where
  cap_eq := by
    obtain ⟨sizes, h⟩ := ReplayRing.noteSize_eq (ReplayRing.empty cap) cols rows
    rw [spawn, h]
    rfl
  holds := (ReplayRing.empty_holds hcap).noteSize cols rows
  seed_eq := rfl
  seqs_eq := rfl
  lastSeq_eq := rfl
  cuts := by simp [spawn]

variable {chunks : List OutputChunk}

variable {seed : List UInt8} {base : ℕ}

/-- A chunk numbered and sent under the ring's lock comes next in the stream and on every
receiver. -/
theorem After.send {p : DaemonPty} (h : After cap seed base p chunks) {ring : ReplayRing}
    {chunk : OutputChunk} (hcap : ring.cap = cap)
    (hring : ring.Holds (bytesOf chunks ++ chunk.bytes)) (hseq : chunk.seq = p.lastSeq + 1) :
  After cap seed base ({ p with ring := ring, lastSeq := p.lastSeq + 1 }.send chunk)
    (chunks ++ [chunk])
  where
  cap_eq := hcap
  holds := by
    rw [bytesOf_append, bytesOf_singleton]
    apply hring
  seed_eq := h.seed_eq
  seqs_eq := by
    rw [List.map_append, List.map_singleton, h.seqs_eq, hseq, h.lastSeq_eq, List.length_append,
      List.length_singleton, List.range'_concat, Nat.one_mul, Nat.add_right_comm]
  lastSeq_eq := by
    simp only [DaemonPty.send, h.lastSeq_eq, List.length_append, List.length_singleton]
    omega
  cuts := by
    intro s hs
    obtain ⟨s, hmem, rfl⟩ := List.mem_map.mp hs
    obtain ⟨before, hbefore, hlast, hreplay, hcomplete⟩ := (h.cuts s hmem).cut
    constructor
    use before
    refine ⟨?_, hlast, hreplay, hcomplete⟩
    rw [hbefore, List.append_assoc]

/-- A subscription cuts the stream where it is. -/
theorem After.subscribe {p : DaemonPty} (h : After cap seed base p chunks) :
  After cap seed base p.subscribe chunks
  where
  cap_eq := h.cap_eq
  holds := h.holds
  seed_eq := h.seed_eq
  seqs_eq := h.seqs_eq
  lastSeq_eq := h.lastSeq_eq
  cuts := by
    intro s hs
    obtain hs | hs := List.mem_append.mp hs
    · apply h.cuts s hs
    · obtain rfl := List.mem_singleton.mp hs
      constructor
      use chunks
      refine ⟨(List.append_nil _).symm, h.lastSeq_eq, ?_, ?_⟩
      · simp only [snapshotLocked]
        rw [h.holds.replaySnapshotInto_fst, h.seed_eq, h.cap_eq]
      · simp only [snapshotLocked]
        rw [h.holds.isComplete_iff, h.cap_eq]

theorem After.next (hcap : 0 < cap) {p : DaemonPty} (h : After cap seed base p chunks) (a : Act) :
  After cap seed base (machine.next p a) (chunks ++ machine.emit p a)
  := by
  cases a with
  | read bytes =>
    apply h.send
    · exact (ReplayRing.pushBytes_cap p.ring bytes).trans h.cap_eq
    · apply h.holds.push bytes (h.cap_eq ▸ hcap)
    · rfl
  | resize cols rows =>
    apply h.send
    · obtain ⟨sizes, hsizes⟩ := ReplayRing.noteSize_eq p.ring cols rows
      rw [hsizes]
      apply h.cap_eq
    · rw [List.append_nil]
      apply h.holds.noteSize
    · rfl
  | subscribe =>
    simp only [Machine.emit, machine, List.append_nil]
    apply h.subscribe

theorem run_after (hcap : 0 < cap) (seed : List UInt8) (cols rows : UInt16) (acts : List Act) :
  After cap seed (spawn cap seed cols rows).lastSeq
    (machine.final (spawn cap seed cols rows) acts)
    (machine.trace (spawn cap seed cols rows) acts)
  := by
  apply machine.invariant (P := fun _ _ => True) (I := After cap seed _)
    (spawn_after hcap seed cols rows)
  · intro p chunks a _ h
    apply h.next hcap
  · apply machine.along_of_forall
    intro _ _
    trivial

/-! ### Every chunk is handed out once -/

/-- Chunks numbered consecutively, split in two: the numbers of the first part are at most
its last one, those of the second start right after it. -/
theorem seqs_split {before after : List OutputChunk}
    (h : (before ++ after).map OutputChunk.seq = List.range' (base + 1) (before ++ after).length) :
  (∀ c ∈ before, c.seq ≤ base + before.length)
    ∧ (∀ c ∈ after, base + before.length < c.seq)
    ∧ after.map OutputChunk.seq = List.range' (base + before.length + 1) after.length
  := by
  rw [List.map_append, List.length_append, ← List.range'_append_1] at h
  obtain ⟨hbefore, hafter⟩ := List.append_inj h (by simp)
  refine ⟨?_, ?_, ?_⟩
  · intro c hc
    have hmem := List.mem_map_of_mem (f := OutputChunk.seq) hc
    rw [hbefore, List.mem_range'_1] at hmem
    omega
  · intro c hc
    have hmem := List.mem_map_of_mem (f := OutputChunk.seq) hc
    rw [hafter, List.mem_range'_1] at hmem
    omega
  · rw [hafter, Nat.add_right_comm]

theorem filter_seq_split {before after : List OutputChunk} {n : ℕ}
    (hbefore : ∀ c ∈ before, c.seq ≤ n) (hafter : ∀ c ∈ after, n < c.seq) :
  (before ++ after).filter (fun c => c.seq ≤ n) = before
    ∧ (before ++ after).filter (fun c => n < c.seq) = after
  := by
  simp only [List.filter_append]
  constructor
  · rw [List.filter_eq_self.mpr, List.filter_eq_nil_iff.mpr, List.append_nil]
    · intro c hc
      simpa using hafter c hc
    · intro c hc
      simpa using hbefore c hc
  · rw [List.filter_eq_nil_iff.mpr, List.filter_eq_self.mpr, List.nil_append]
    · intro c hc
      simpa using hafter c hc
    · intro c hc
      simpa using hbefore c hc

/-- Whatever the order of the reader's steps, the resizes and the subscriptions, every
subscriber is handed every chunk exactly once: those numbered up to `lastSeq` make up its
replay, as far as the ring still held their bytes, and those after it are what its receiver
was sent, numbered from `lastSeq + 1` on without a gap. -/
theorem subscriber_covers
    {cap : ℕ} (hcap : 0 < cap) (seed : List UInt8) (cols rows : UInt16) (acts : List Act)
    (s : Subscription)
    (hs : s ∈ (machine.final (spawn cap seed cols rows) acts).subscribers) :
  let chunks := machine.trace (spawn cap seed cols rows) acts
  let replayed := chunks.filter (fun c => c.seq ≤ s.lastSeq)
  (∀ c ∈ chunks, Xor (c ∈ replayed) (c ∈ s.live))
    ∧ chunks = replayed ++ s.live
    ∧ s.live = chunks.filter (fun c => s.lastSeq < c.seq)
    ∧ s.live.map OutputChunk.seq = List.range' (s.lastSeq + 1) s.live.length
    ∧ s.replay = seed ++ ReplayRing.replayTail cap (bytesOf replayed)
    ∧ (s.replayComplete = true → s.replay = seed ++ bytesOf replayed)
  := by
  intro chunks replayed
  have h := run_after hcap seed cols rows acts
  obtain ⟨before, hchunks, hlast, hreplay, hcomplete⟩ := (h.cuts s hs).cut
  have hseqs := h.seqs_eq
  rw [hchunks] at hseqs
  obtain ⟨hbefore, hafter, hlive⟩ := seqs_split hseqs
  rw [← hlast] at hbefore hafter hlive
  obtain ⟨hreplayed, hlive'⟩ := filter_seq_split hbefore hafter
  have hreplayed' : replayed = before := by
    simp only [replayed, chunks, hchunks]
    apply hreplayed
  rw [hreplayed']
  refine ⟨?_, hchunks, ?_, hlive, hreplay, ?_⟩
  · intro c hc
    have hc' : c ∈ before ++ s.live := hchunks ▸ hc
    obtain hmem | hmem := List.mem_append.mp hc'
    · refine Or.inl ⟨hmem, fun hmem' => ?_⟩
      exact absurd (hbefore c hmem) (Nat.not_le.mpr (hafter c hmem'))
    · refine Or.inr ⟨hmem, fun hmem' => ?_⟩
      exact absurd (hbefore c hmem') (Nat.not_le.mpr (hafter c hmem))
  · simp only [chunks, hchunks]
    rw [hlive']
  · intro hc
    rw [hreplay, ReplayRing.replayTail, if_pos (hcomplete.mp hc)]

/-- A subscription between two chunks, the first of which the ring no longer holds in full,
followed by a resize. -/
theorem subscriber_covers_wrapped :
  let acts := [Act.read [104, 105, 10, 97, 98], .subscribe, .read [99], .resize 100 30]
  let s : Subscription := ⟨[97, 98], false, [⟨0, 80, 24⟩], 1, [⟨2, [99], 80, 24⟩, ⟨3, [], 100, 30⟩]⟩
  s ∈ (machine.final (spawn 4 [] 80 24) acts).subscribers
    ∧ s.live.map OutputChunk.seq = List.range' (s.lastSeq + 1) s.live.length
  := by
  intro acts s
  have hs : s ∈ (machine.final (spawn 4 [] 80 24) acts).subscribers := by decide
  exact ⟨hs, (subscriber_covers (by decide) [] 80 24 acts s hs).2.2.2.1⟩

end DaemonPty

end Lazybox
