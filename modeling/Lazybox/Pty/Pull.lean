import Lazybox.Pty.DaemonPty

/-!
# Pulling the output of a terminal

A puller keeps up with a terminal without being subscribed to it.  It asks for the bytes from an
offset of the output on, is answered with them and with the offset they end at, and asks from
there the next time.  Once bytes it has not got were evicted, there is no answer any more, and it
stops.

A read slices the output, so what a puller has collected is a slice of it too: from where it was
answered first to where its last answer ended.
-/

namespace Lazybox

/-! ### Reading a ring -/

namespace ReplayRing

/-- The length of the storage in front of the first byte a read hands out. -/
def skipped (r : ReplayRing) (pos : ℕ) : ℕ :=
  min (max pos r.oldestOffset) r.totalWritten - r.oldestOffset

/-- The offsets and the slices of a read are within their bounds: no subtraction is below zero,
and no slice starts after its end. -/
structure ReadInBounds (r : ReplayRing) (pos : ℕ) : Prop where
  stored : r.buf.length ≤ r.totalWritten
  clamped : r.oldestOffset ≤ min (max pos r.oldestOffset) r.totalWritten
  halves : r.head ≤ r.buf.length
  back : (r.buf.drop r.head).length ≤ r.skipped pos →
    r.skipped pos - (r.buf.drop r.head).length ≤ (r.buf.take r.head).length

variable {r : ReplayRing} {stream : List UInt8}

theorem Wf.head_le (h : r.Wf) :
  r.head ≤ r.buf.length
  := by
  obtain hlt | heq := h.length_le.lt_or_eq
  · rw [h.head_eq_zero hlt]
    apply Nat.zero_le
  · rw [heq]
    apply (h.head_lt heq).le

theorem Holds.length_buf_le (h : r.Holds stream) :
  r.buf.length ≤ r.totalWritten
  := by
  rw [h.stores.length_buf, h.total_eq]
  apply min_le_left

theorem Holds.readInBounds (h : r.Holds stream) (pos : ℕ) :
  r.ReadInBounds pos
  := by
  have hlen := h.length_buf_le
  have hhead := h.stores.wf.head_le
  constructor
  · apply hlen
  · rw [oldestOffset]
    omega
  · apply hhead
  · intro _
    rw [skipped, oldestOffset, List.length_drop, List.length_take]
    omega

/-- The two halves of the storage, read one after the other from some byte on. -/
theorem drop_halves (r : ReplayRing) (n : ℕ) :
  (Circular.unwrap r.buf r.head).drop n
    = if n < (r.buf.drop r.head).length then (r.buf.drop r.head).drop n ++ r.buf.take r.head
      else (r.buf.take r.head).drop (n - (r.buf.drop r.head).length)
  := by
  rw [Circular.unwrap, List.drop_append]
  split
  · next hlt => rw [Nat.sub_eq_zero_of_le hlt.le, List.drop_zero]
  · next hge => rw [List.drop_eq_nil_of_le (Nat.not_lt.mp hge), List.nil_append]

/-- A read hands out the output from an offset on, as far as it is still kept. -/
theorem Holds.readSince_eq (h : r.Holds stream) (pos : ℕ) :
  r.readSince pos = (stream.drop (max pos r.oldestOffset), decide (r.oldestOffset ≤ pos))
  := by
  have hbytes : (Circular.unwrap r.buf r.head).drop (r.skipped pos)
      = stream.drop (max pos r.oldestOffset) := by
    have hlen := h.length_buf_le
    have hsum : stream.length - r.cap + r.skipped pos
        = min (max pos r.oldestOffset) stream.length := by
      rw [skipped, ← h.oldestOffset_eq, ← h.total_eq, oldestOffset]
      omega
    rw [h.stores.unwrap_eq, List.rtake, List.drop_drop, hsum]
    obtain hle | hgt := Nat.le_total (max pos r.oldestOffset) stream.length
    · rw [min_eq_left hle]
    · rw [min_eq_right hgt, List.drop_length, List.drop_eq_nil_of_le hgt]
  rw [← hbytes, drop_halves, readSince, ← skipped]
  split <;> rfl

end ReplayRing

/-! ### Answers -/

structure OutputDelta where
  fromOffset : ℕ
  toOffset : ℕ
  bytes : List UInt8
deriving DecidableEq, Repr

/-- The output since an offset, unless some of it was evicted. -/
def DaemonPty.readSince (p : DaemonPty) (pos : ℕ) : Option OutputDelta :=
  let toOffset := p.ring.totalWritten
  let (bytes, covers) := p.ring.readSince pos
  if !covers then none
  else some ⟨min pos toOffset, toOffset, bytes⟩

/-! ### Pullers -/

/-- A puller, with the offset it asks from next. -/
structure Puller where
  offset : ℕ
  collected : List UInt8
  stopped : Bool
deriving DecidableEq, Repr

namespace Puller

/-- A puller that has not asked yet. -/
def new (offset : ℕ) : Puller := ⟨offset, [], false⟩

def pull (u : Puller) (p : DaemonPty) : Puller :=
  if u.stopped then u
  else
    match p.readSince u.offset with
    | none => { u with stopped := true }
    | some delta => { u with offset := delta.toOffset, collected := u.collected ++ delta.bytes }

end Puller

/-- A terminal and a puller of its output. -/
structure Pulled where
  pty : DaemonPty
  puller : Puller
deriving DecidableEq, Repr

namespace Pulled

inductive Act where
  | terminal (a : DaemonPty.Act)
  | pull

/-- The steps of the terminal, and pulls in between.  What is observed are the chunks put out. -/
def machine : Machine Pulled Act OutputChunk where
  step s
    | .terminal a =>
        ({ s with pty := DaemonPty.machine.next s.pty a }, DaemonPty.machine.emit s.pty a)
    | .pull => ({ s with puller := s.puller.pull s.pty }, [])

/-- The puller has collected the output from `first` to its offset. -/
structure Collected (first : ℕ) (stream : List UInt8) (u : Puller) : Prop where
  first_le : first ≤ u.offset
  offset_le : u.offset ≤ stream.length
  collected_eq : u.collected = (stream.take u.offset).drop first

variable {p : DaemonPty} {stream : List UInt8} {u : Puller} {first : ℕ}

/-- An answer is the output from the offset asked for, or from its end, to its end. -/
theorem readSince_eq_some {pos : ℕ} {delta : OutputDelta} (h : p.ring.Holds stream)
    (answered : p.readSince pos = some delta) :
  delta = ⟨min pos stream.length, stream.length, stream.drop pos⟩
  := by
  rw [DaemonPty.readSince, h.readSince_eq] at answered
  by_cases covers : p.ring.oldestOffset ≤ pos
  · simp only [covers, decide_true, Bool.not_true, Bool.false_eq_true, if_false,
      Option.some.injEq, max_eq_left, h.total_eq] at answered
    apply answered.symm
  · simp [covers] at answered

/-- A puller that is answered has collected all of the output. -/
theorem Collected.answered (h : Collected first stream u) (holds : p.ring.Holds stream)
    {delta : OutputDelta} (answered : p.readSince u.offset = some delta) :
  Collected first stream
    { u with offset := delta.toOffset, collected := u.collected ++ delta.bytes }
  := by
  obtain rfl := readSince_eq_some holds answered
  constructor
  · apply h.first_le.trans h.offset_le
  · apply le_rfl
  · rw [List.take_length, h.collected_eq]
    conv_rhs => rw [← List.take_append_drop u.offset stream]
    rw [List.drop_append_of_le_length]
    rw [List.length_take]
    apply le_min h.first_le (h.first_le.trans h.offset_le)

theorem Collected.pull (h : Collected first stream u) (holds : p.ring.Holds stream) :
  Collected first stream (u.pull p)
  := by
  rw [Puller.pull]
  split
  · apply h
  · split
    · exact ⟨h.first_le, h.offset_le, h.collected_eq⟩
    · next delta answered => apply h.answered holds answered

/-- What is put out later leaves what was collected in its place. -/
theorem Collected.grow (h : Collected first stream u) (bytes : List UInt8) :
  Collected first (stream ++ bytes) u
  := by
  constructor
  · apply h.first_le
  · rw [List.length_append]
    apply Nat.le_add_right_of_le h.offset_le
  · rw [List.take_append_of_le_length h.offset_le]
    apply h.collected_eq

/-- The first pull: nothing is collected before it, so it starts where it is answered from. -/
theorem collected_first {start : ℕ} (holds : p.ring.Holds stream)
    (going : ((Puller.new start).pull p).stopped = false) :
  Collected (min start stream.length) stream ((Puller.new start).pull p)
  := by
  rw [Puller.pull] at going ⊢
  split at going
  · next hstopped => cases hstopped
  · next hnew =>
      rw [if_neg hnew]
      split at going
      · cases going
      · next delta answered =>
          obtain rfl := readSince_eq_some holds answered
          constructor
          · apply min_le_right
          · apply le_rfl
          · change [] ++ stream.drop start = _
            rw [List.nil_append, List.take_length]
            obtain hle | hgt := Nat.le_total start stream.length
            · rw [min_eq_left hle]
            · rw [min_eq_right hgt, List.drop_length, List.drop_eq_nil_of_le hgt]

/-- What holds of a terminal that has put out `chunks` while a puller collected. -/
structure Kept (cap : ℕ) (seed : List UInt8) (base first : ℕ) (s : Pulled)
    (chunks : List OutputChunk) : Prop where
  after : DaemonPty.After cap seed base s.pty chunks
  collected : Collected first (DaemonPty.bytesOf chunks) s.puller

theorem Kept.next {cap base : ℕ} (hcap : 0 < cap) {seed : List UInt8} {s : Pulled}
    {chunks : List OutputChunk} (h : Kept cap seed base first s chunks) (a : Act) :
  Kept cap seed base first (machine.next s a) (chunks ++ machine.emit s a)
  := by
  cases a with
  | terminal a =>
    constructor
    · apply h.after.next hcap
    · rw [DaemonPty.bytesOf_append]
      apply h.collected.grow
  | pull =>
    constructor
    · rw [show machine.emit s .pull = [] from rfl, List.append_nil]
      apply h.after
    · rw [show machine.emit s .pull = [] from rfl, List.append_nil]
      apply h.collected.pull h.after.holds

theorem Kept.final {cap base : ℕ} (hcap : 0 < cap) {seed : List UInt8} {s : Pulled}
    {chunks : List OutputChunk} (h : Kept cap seed base first s chunks) (acts : List Act) :
  Kept cap seed base first (machine.final s acts) (chunks ++ machine.trace s acts)
  := by
  induction acts generalizing s chunks with
  | nil =>
    rw [Machine.trace, List.append_nil]
    apply h
  | cons a acts ih =>
    rw [Machine.trace, ← List.append_assoc]
    apply ih (h.next hcap a)

/-- A puller that is not stopped by a pull has collected the output to its end. -/
theorem Collected.pulled_all (h : Collected first stream u) (holds : p.ring.Holds stream)
    (going : (u.pull p).stopped = false) :
  (u.pull p).collected = stream.drop first
  := by
  have pulled := h.pull holds (p := p)
  suffices hend : (u.pull p).offset = stream.length by
    rw [pulled.collected_eq, hend, List.take_length]
  rw [Puller.pull] at going ⊢
  split at going
  · next hstopped => rw [hstopped] at going; cases going
  · next hgoing =>
      rw [if_neg hgoing]
      split at going
      · cases going
      · next delta answered =>
          rw [readSince_eq_some holds answered]

/-- A stopped puller has what it had. -/
theorem stopped_final {s : Pulled} (h : s.puller.stopped = true) (acts : List Act) :
  (machine.final s acts).puller = s.puller
  := by
  induction acts generalizing s with
  | nil => rfl
  | cons a acts ih =>
    have hsame : (machine.next s a).puller = s.puller := by
      cases a with
      | terminal a => rfl
      | pull => exact if_pos h
    rw [Machine.final, ih (hsame ▸ h), hsame]

/-- A read of a ring that was pushed to hands out the output from the offset on, as far as it is
kept, and says whether all of it is.  A puller that asked first from `start`, and then from where
its last answer ended, has collected a slice of the output from there on: all of it when it is
answered once more, and none when it was not answered the first time. -/
theorem reads_slice {cap : ℕ} (hcap : 0 < cap) :
  (∀ (ops : List ReplayRing.Op) (pos : ℕ),
      let r := ReplayRing.run cap ops
      let stream := ReplayRing.pushed ops
      r.ReadInBounds pos
        ∧ r.totalWritten = stream.length
        ∧ r.readSince pos = (stream.drop (max pos r.oldestOffset), decide (r.oldestOffset ≤ pos)))
    ∧ ∀ (seed : List UInt8) (cols rows : UInt16) (before : List DaemonPty.Act) (start : ℕ)
        (acts : List Act),
      let p := DaemonPty.machine.final (DaemonPty.spawn cap seed cols rows) before
      let chunks := DaemonPty.machine.trace (DaemonPty.spawn cap seed cols rows) before
      let s : Pulled := ⟨p, (Puller.new start).pull p⟩
      let s' := machine.final s acts
      let stream := DaemonPty.bytesOf (chunks ++ machine.trace s acts)
      let first := min start (DaemonPty.bytesOf chunks).length
      (s.puller.stopped = true → s'.puller.collected = [])
        ∧ (s.puller.stopped = false →
          s'.puller.collected = (stream.take s'.puller.offset).drop first
            ∧ ((s'.puller.pull s'.pty).stopped = false →
              (s'.puller.pull s'.pty).collected = stream.drop first))
  := by
  constructor
  · intro ops pos r stream
    obtain ⟨-, h⟩ := ReplayRing.run_holds hcap ops
    exact ⟨h.readInBounds pos, h.total_eq, h.readSince_eq pos⟩
  · intro seed cols rows before start acts p chunks s s' stream first
    have after := DaemonPty.run_after hcap seed cols rows before
    constructor
    · intro stopped
      have hnothing : s.puller.collected = [] := by
        change ((Puller.new start).pull p).stopped = true at stopped
        change ((Puller.new start).pull p).collected = []
        rw [Puller.pull] at stopped ⊢
        split
        · rfl
        · next hgoing =>
            rw [if_neg hgoing] at stopped
            split
            · rfl
            · next hanswer => rw [hanswer] at stopped; cases stopped
      rw [stopped_final stopped, hnothing]
    · intro going
      have kept : Kept cap seed _ first s' (chunks ++ machine.trace s acts) :=
        Kept.final hcap ⟨after, collected_first after.holds going⟩ acts
      exact ⟨kept.collected.collected_eq, kept.collected.pulled_all kept.after.holds⟩

/-- A puller of a terminal with a ring of four bytes asks three times.  Between the last two, more
bytes are put out than the ring keeps. -/
theorem reads_slice_evicted :
  let before := [DaemonPty.Act.read [1, 2, 3]]
  let acts := [Act.terminal (.read [4, 5, 6]), .pull, .terminal (.read [7, 8, 9, 10, 11]), .pull]
  let p := DaemonPty.machine.final (DaemonPty.spawn 4 [] 80 24) before
  let s : Pulled := ⟨p, (Puller.new 1).pull p⟩
  s.puller.stopped = false
    ∧ (machine.final s acts).puller = ⟨6, [2, 3, 4, 5, 6], true⟩
    ∧ (machine.final s acts).puller.collected
      = ((DaemonPty.bytesOf (DaemonPty.machine.trace (DaemonPty.spawn 4 [] 80 24) before
        ++ machine.trace s acts)).take (machine.final s acts).puller.offset).drop 1
  := by
  intro before acts p s
  have going : s.puller.stopped = false := by decide
  constructor
  · apply going
  · constructor
    · decide
    · apply (((reads_slice (by decide)).2 [] 80 24 before 1 acts).2 going).1

end Pulled

end Lazybox
