import Lazybox.Library.Circular
import Lazybox.Library.Run

/-!
# The replay ring

`ReplayRing` is the fixed-capacity byte ring that keeps the most recent output of a
terminal, together with the history of the sizes the output was produced at.  Storage
grows with its content up to `cap`, after which it is written over circularly, with `head`
marking the oldest byte.

Byte counts and stream offsets, `u64` in the source, are natural numbers here, so that
adding to them does not overflow.
-/

namespace Lazybox

open Circular

/-- Most size changes a ring keeps exact offsets for. -/
def SIZE_LOG_CAP : ℕ := 1024

/-- The capacity of a terminal's ring. -/
def REPLAY_RING_BYTES : ℕ := 2 * 1024 * 1024

/-- The largest capacity a ring may have. -/
def MAX_RING_SIZE : ℕ := 100 * 1024 * 1024

/-- The size of a span of a replay: from position `pos` of the replay on, the bytes were
produced at `cols` × `rows`. -/
structure ReplaySizeSpan where
  pos : ℕ
  cols : UInt16
  rows : UInt16
deriving DecidableEq, Repr

/-- A size change: from a stream offset on, bytes were produced at `(cols, rows)`. -/
abbrev SizeEntry := ℕ × UInt16 × UInt16

structure ReplayRing where
  buf : List UInt8
  cap : ℕ
  head : ℕ
  totalWritten : ℕ
  sizes : List SizeEntry
deriving DecidableEq, Repr

namespace ReplayRing

/-- The ring of capacity `cap` that nothing was written to. -/
def empty (cap : ℕ) : ReplayRing where
  buf := []
  cap := cap
  head := 0
  totalWritten := 0
  sizes := []

/-- The empty ring, for a capacity the constructor's assertions let through. -/
def withCapacity (cap : ℕ) : Option ReplayRing :=
  if 0 < cap ∧ cap ≤ MAX_RING_SIZE then some (empty cap) else none

/-! ### Sizes -/

/-- The size bytes pushed from now on are produced at. -/
def size (r : ReplayRing) : UInt16 × UInt16 :=
  match r.sizes.getLast? with
  | some (_, cols, rows) => (cols, rows)
  | none => (0, 0)

/-- What is left after the first entry once the second-oldest entry was removed as long as
there were more than `SIZE_LOG_CAP` of them. -/
def dropSecond : List SizeEntry → List SizeEntry
  | [] => []
  | e :: es => if es.length + 2 > SIZE_LOG_CAP then dropSecond es else e :: es

/-- The size log with its second-oldest entries removed until `SIZE_LOG_CAP` are left. -/
def capSizes : List SizeEntry → List SizeEntry
  | [] => []
  | e :: es => e :: dropSecond es

/-- Record that the terminal is `cols` × `rows` from the next pushed byte on. -/
def noteSize (r : ReplayRing) (cols rows : UInt16) : ReplayRing :=
  if r.size = (cols, rows) then r
  else
    let sizes :=
      match r.sizes.getLast? with
      | some last =>
          if last.1 = r.totalWritten then r.sizes.dropLast ++ [(r.totalWritten, cols, rows)]
          else r.sizes ++ [(r.totalWritten, cols, rows)]
      | none => r.sizes ++ [(r.totalWritten, cols, rows)]
    { r with sizes := capSizes sizes }

/-- The size in effect at stream offset `pos`. -/
def sizeAt (r : ReplayRing) (pos : ℕ) : UInt16 × UInt16 :=
  match r.sizes.reverse.find? (fun e => e.1 ≤ pos) with
  | some (_, cols, rows) => (cols, rows)
  | none => (0, 0)

/-- The offset in the stream of the oldest byte still kept. -/
def oldestOffset (r : ReplayRing) : ℕ :=
  r.totalWritten - r.buf.length

/-- The size log without the entries before the last one at or below `oldest`. -/
def dropEvicted (oldest : ℕ) : List SizeEntry → List SizeEntry
  | e :: e' :: es => if e'.1 ≤ oldest then dropEvicted oldest (e' :: es) else e :: e' :: es
  | es => es

def foldEvictedSizes (r : ReplayRing) : ReplayRing :=
  { r with sizes := dropEvicted r.oldestOffset r.sizes }

/-! ### Bytes -/

/-- Write `bytes` over the oldest region, from `head` on, wrapping at most once. -/
def overwriteBytes (r : ReplayRing) (bytes : List UInt8) : ReplayRing :=
  let n := bytes.length
  let first := min (r.cap - r.head) n
  let buf := copyFromSlice r.buf r.head (bytes.take first)
  let buf := if first < n then copyFromSlice buf 0 (bytes.drop first) else buf
  { r with buf := buf, head := (r.head + n) % r.cap }

def pushBytes (r : ReplayRing) (bytes : List UInt8) : ReplayRing :=
  let r := { r with totalWritten := r.totalWritten + bytes.length }
  if r.cap ≤ bytes.length then
    -- the burst alone exceeds the capacity: only its tail is kept
    { r with buf := bytes.drop (bytes.length - r.cap), head := 0 }
  else if r.buf.length < r.cap then
    let take := min (r.cap - r.buf.length) bytes.length
    let r := { r with buf := r.buf ++ bytes.take take }
    if (bytes.drop take).isEmpty then r else r.overwriteBytes (bytes.drop take)
  else r.overwriteBytes bytes

def push (r : ReplayRing) (bytes : List UInt8) : ReplayRing :=
  (r.pushBytes bytes).foldEvictedSizes

/-- `out` followed by everything stored, oldest byte first. -/
def snapshotInto (r : ReplayRing) (out : List UInt8) : List UInt8 :=
  out ++ r.buf.drop r.head ++ r.buf.take r.head

def snapshot (r : ReplayRing) : List UInt8 :=
  r.snapshotInto []

/-- Whether the ring holds the entire byte stream. -/
def isComplete (r : ReplayRing) : Bool :=
  r.totalWritten == r.buf.length

/-- The newline byte. -/
def NEWLINE : UInt8 := 10

/-- `out` followed by everything stored, from the first line boundary on when bytes were
evicted, and the size spans of the whole. -/
def replaySnapshotInto (r : ReplayRing) (out : List UInt8) :
    List UInt8 × List ReplaySizeSpan :=
  let start := out.length
  let out := r.snapshotInto out
  let cut :=
    if r.isComplete then none else (out.drop start).findIdx? (· == NEWLINE)
  let (out, dropped) :=
    match cut with
    | some rel => (out.take start ++ out.drop (start + rel + 1), rel + 1)
    | none => (out, 0)
  let firstOffset := r.oldestOffset + dropped
  let (cols, rows) := r.sizeAt firstOffset
  let changes := (r.sizes.filter (fun e => firstOffset < e.1)).map
    (fun e => ReplaySizeSpan.mk (start + (e.1 - firstOffset)) e.2.1 e.2.2)
  (out, ⟨0, cols, rows⟩ :: changes)

/-- The bytes kept at stream offset `pos` and after it, and whether `pos` was still kept. -/
def readSince (r : ReplayRing) (pos : ℕ) : List UInt8 × Bool :=
  let oldest := r.oldestOffset
  let covers := decide (oldest ≤ pos)
  let start := min (max pos oldest) r.totalWritten
  let skip := start - oldest
  let front := r.buf.drop r.head
  let back := r.buf.take r.head
  if skip < front.length then (front.drop skip ++ back, covers)
  else (back.drop (skip - front.length), covers)

/-! ### The representation invariant -/

/-- Storage stays within the capacity, `head` is `0` until the ring is full, and below the
capacity from then on. -/
structure Wf (r : ReplayRing) : Prop where
  length_le : r.buf.length ≤ r.cap
  head_eq_zero : r.buf.length < r.cap → r.head = 0
  head_lt : r.buf.length = r.cap → r.head < r.cap

variable {cap : ℕ}

theorem empty_wf (h : 0 < cap) :
  (empty cap).Wf
  where
  length_le := Nat.zero_le _
  head_eq_zero _ := rfl
  head_lt _ := h

/-! ### The ring stores the end of the stream -/

/-- The storage of `r` is well formed and, read from `head` on, is the end of `stream`. -/
structure Stores (r : ReplayRing) (stream : List UInt8) : Prop where
  wf : r.Wf
  unwrap_eq : unwrap r.buf r.head = stream.rtake r.cap

variable {r : ReplayRing}

theorem Stores.length_buf {stream : List UInt8} (h : r.Stores stream) :
  r.buf.length = min stream.length r.cap
  := by
  rw [← length_unwrap r.buf r.head, h.unwrap_eq, length_rtake]

/-- Until the ring is full its storage is the stream itself. -/
theorem Stores.buf_eq {stream : List UInt8} (h : r.Stores stream) (hlt : r.buf.length < r.cap) :
  r.buf = stream
  := by
  have hlen := h.length_buf
  have hbuf := h.unwrap_eq
  rw [h.wf.head_eq_zero hlt, rtake_of_length_le (by omega)] at hbuf
  simpa [unwrap] using hbuf

theorem empty_stores (h : 0 < cap) :
  (empty cap).Stores []
  where
  wf := empty_wf h
  unwrap_eq := by simp [empty, unwrap]

/-- What a ring stores depends on its bytes only. -/
theorem Stores.of_eq {r' : ReplayRing} {stream : List UInt8} (h : r.Stores stream)
    (hbuf : r'.buf = r.buf) (hcap : r'.cap = r.cap) (hhead : r'.head = r.head) :
  r'.Stores stream
  := by
  obtain ⟨⟨hlen, hzero, hlt⟩, hunwrap⟩ := h
  constructor
  · constructor
    · rwa [hbuf, hcap]
    · rwa [hbuf, hcap, hhead]
    · rwa [hbuf, hcap, hhead]
  · rwa [hbuf, hcap, hhead]

variable {bytes : List UInt8}

/-- A burst of at least a capacity of bytes leaves the ring with its tail. -/
theorem stores_burst (stream : List UInt8) (hcap : 0 < r.cap) (hburst : r.cap ≤ bytes.length) :
  { r with buf := bytes.drop (bytes.length - r.cap), head := 0 }.Stores (stream ++ bytes)
  := by
  have hlen : (bytes.drop (bytes.length - r.cap)).length = r.cap := by
    rw [List.length_drop]
    omega
  constructor
  · exact ⟨hlen.le, fun _ => rfl, fun _ => hcap⟩
  · rw [rtake_append_of_le hburst]
    simp [unwrap, List.rtake]

/-- Bytes that fit into the free part of the storage are appended to it. -/
theorem Stores.append {stream : List UInt8} (h : r.Stores stream) (hlt : r.buf.length < r.cap)
    (hfit : r.buf.length + bytes.length ≤ r.cap) :
  { r with buf := r.buf ++ bytes }.Stores (stream ++ bytes)
  := by
  have hbuf := h.buf_eq hlt
  have hhead := h.wf.head_eq_zero hlt
  have hlen : (stream ++ bytes).length ≤ r.cap := by
    rw [List.length_append, ← hbuf]
    apply hfit
  constructor
  · constructor
    · rw [hbuf]
      apply hlen
    · intro _
      apply hhead
    · intro _
      apply hhead.trans_lt (Nat.zero_lt_of_lt hlt)
  · rw [rtake_of_length_le hlen, hbuf, hhead]
    simp [unwrap]

/-- On a full ring, `overwriteBytes` is the circular overwriting of its storage. -/
theorem overwriteBytes_buf (hfull : r.buf.length = r.cap) :
  (r.overwriteBytes bytes).buf = overwrite r.buf r.head bytes
  := by
  rw [overwriteBytes, overwrite, hfull]

/-- Writing less than a capacity of bytes over a full ring evicts as many of the oldest
bytes. -/
theorem Stores.overwriteBytes {stream : List UInt8} (h : r.Stores stream)
    (hfull : r.buf.length = r.cap) (hlen : bytes.length < r.cap) :
  (r.overwriteBytes bytes).Stores (stream ++ bytes)
  := by
  have hhead := h.wf.head_lt hfull
  have hcap : (r.overwriteBytes bytes).cap = r.cap := rfl
  have hbuf : (r.overwriteBytes bytes).buf.length = r.cap := by
    rw [overwriteBytes_buf hfull, length_overwrite (by omega) (by omega), hfull]
  constructor
  · constructor
    · rw [hbuf, hcap]
    · intro hlt
      omega
    · intro _
      apply Nat.mod_lt _ (by omega)
  · have hunwrap := unwrap_overwrite (hhead.trans_eq hfull.symm) (hlen.trans_eq hfull.symm)
    rw [hfull, h.unwrap_eq] at hunwrap
    have hkept : (stream.rtake r.cap ++ bytes).length - r.cap = bytes.length := by
      rw [List.length_append, ← h.unwrap_eq, length_unwrap, hfull, Nat.add_sub_cancel_left]
    rw [overwriteBytes_buf hfull, hcap, ← rtake_rtake_append, List.rtake.eq_def _ r.cap, hkept]
    apply hunwrap

@[simp]
theorem pushBytes_cap (r : ReplayRing) (bytes : List UInt8) :
  (r.pushBytes bytes).cap = r.cap
  := by
  simp only [pushBytes, ReplayRing.overwriteBytes]
  split_ifs <;> rfl

@[simp]
theorem pushBytes_totalWritten (r : ReplayRing) (bytes : List UInt8) :
  (r.pushBytes bytes).totalWritten = r.totalWritten + bytes.length
  := by
  simp only [pushBytes, ReplayRing.overwriteBytes]
  split_ifs <;> rfl

/-- A ring storing the end of a stream stores, once `bytes` were pushed, the end of the
stream followed by `bytes`. -/
theorem Stores.pushBytes
    {stream : List UInt8} (bytes : List UInt8) (hcap : 0 < r.cap) (h : r.Stores stream) :
  (r.pushBytes bytes).Stores (stream ++ bytes)
  := by
  have h' : { r with totalWritten := r.totalWritten + bytes.length }.Stores stream :=
    h.of_eq rfl rfl rfl
  rw [ReplayRing.pushBytes]
  by_cases hburst : r.cap ≤ bytes.length
  · rw [if_pos hburst]
    exact (stores_burst stream hcap hburst).of_eq rfl rfl rfl
  · rw [if_neg hburst]
    by_cases hfill : r.buf.length < r.cap
    · -- the bytes that fit are appended, and the rest goes over the full storage
      rw [if_pos hfill]
      obtain hroom | hroom := Nat.le_total bytes.length (r.cap - r.buf.length)
      · simp only [Nat.min_eq_right hroom, List.take_length, List.drop_length, List.isEmpty_nil,
          if_true]
        apply h'.append hfill
        simp only
        omega
      · have hlen : (bytes.take (r.cap - r.buf.length)).length = r.cap - r.buf.length := by
          rw [List.length_take, Nat.min_eq_left hroom]
        have hfit : r.buf.length + (bytes.take (r.cap - r.buf.length)).length ≤ r.cap := by
          omega
        have hgrown := h'.append hfill hfit
        simp only [Nat.min_eq_left hroom]
        split
        · next hnil =>
            have htake := List.take_append_drop (r.cap - r.buf.length) bytes
            rw [List.isEmpty_iff.mp hnil, List.append_nil] at htake
            rw [htake] at hgrown ⊢
            apply hgrown
        · conv_rhs => rw [← List.take_append_drop (r.cap - r.buf.length) bytes, ← List.append_assoc]
          apply hgrown.overwriteBytes
          · simp only [List.length_append, hlen]
            omega
          · simp only [List.length_drop]
            omega
    · rw [if_neg hfill]
      have hle := h.wf.length_le
      apply h'.overwriteBytes
      · simp only
        omega
      · simp only
        omega

/-- The ring holds the end of `stream`, and `totalWritten` counts all of it. -/
structure Holds (r : ReplayRing) (stream : List UInt8) : Prop where
  stores : r.Stores stream
  total_eq : r.totalWritten = stream.length

theorem empty_holds (h : 0 < cap) :
  (empty cap).Holds []
  where
  stores := empty_stores h
  total_eq := rfl

theorem Holds.push
    {stream : List UInt8} (bytes : List UInt8) (hcap : 0 < r.cap) (h : r.Holds stream) :
  (r.push bytes).Holds (stream ++ bytes)
  where
  stores := (h.stores.pushBytes bytes hcap).of_eq rfl rfl rfl
  total_eq := by
    rw [List.length_append, ← h.total_eq]
    apply pushBytes_totalWritten

/-- Noting a size changes the size log only. -/
theorem noteSize_eq (r : ReplayRing) (cols rows : UInt16) :
  ∃ sizes, r.noteSize cols rows = { r with sizes := sizes }
  := by
  by_cases h : r.size = (cols, rows)
  · use r.sizes
    rw [noteSize, if_pos h]
  · rw [noteSize, if_neg h]
    exact ⟨_, rfl⟩

theorem Holds.noteSize {stream : List UInt8} (cols rows : UInt16) (h : r.Holds stream) :
  (r.noteSize cols rows).Holds stream
  := by
  obtain ⟨sizes, hr⟩ := noteSize_eq r cols rows
  rw [hr]
  exact ⟨h.stores.of_eq rfl rfl rfl, h.total_eq⟩

/-! ### Runs -/

/-- The operations that change a ring. -/
inductive Op where
  | push (bytes : List UInt8)
  | noteSize (cols rows : UInt16)

/-- The ring, driven by its operations. -/
def machine : Machine ReplayRing Op Empty where
  step r
    | .push bytes => (r.push bytes, [])
    | .noteSize cols rows => (r.noteSize cols rows, [])

/-- The append-only byte stream, driven by the same operations. -/
def stream : Machine (List UInt8) Op Empty where
  step written
    | .push bytes => (written ++ bytes, [])
    | .noteSize _ _ => (written, [])

/-- Everything pushed by a list of operations, in order. -/
def pushed : List Op → List UInt8
  | [] => []
  | .push bytes :: ops => bytes ++ pushed ops
  | .noteSize _ _ :: ops => pushed ops

/-- The stream ends with what it started with, followed by everything pushed. -/
theorem stream_final (written : List UInt8) (ops : List Op) :
  stream.final written ops = written ++ pushed ops
  := by
  induction ops generalizing written with
  | nil => simp [Machine.final, pushed]
  | cons op ops ih =>
    cases op with
    | push bytes => exact (ih (written ++ bytes)).trans (List.append_assoc _ _ _)
    | noteSize cols rows => exact ih written

/-- One operation on a ring holding the end of a stream is one operation on the stream. -/
theorem step_holds (hcap : 0 < cap) (r : ReplayRing) (written : List UInt8) (op : Op)
    (h : r.cap = cap ∧ r.Holds written) :
  (machine.next r op).cap = cap ∧ (machine.next r op).Holds (stream.next written op)
  := by
  obtain ⟨hr, hholds⟩ := h
  cases op with
  | push bytes =>
    constructor
    · exact (pushBytes_cap r bytes).trans hr
    · apply hholds.push bytes (hr ▸ hcap)
  | noteSize cols rows =>
    constructor
    · obtain ⟨sizes, hsizes⟩ := noteSize_eq r cols rows
      simp only [machine, Machine.next, hsizes]
      apply hr
    · apply hholds.noteSize cols rows

/-- Every well-formed ring stores what it is read as. -/
theorem Wf.stores (h : r.Wf) :
  r.Stores (unwrap r.buf r.head)
  where
  wf := h
  unwrap_eq := by
    rw [rtake_of_length_le]
    rw [length_unwrap]
    apply h.length_le

/-- Every operation preserves the representation invariant. -/
theorem Wf.next (hcap : 0 < r.cap) (h : r.Wf) (op : Op) :
  (machine.next r op).Wf
  := by
  cases op with
  | push bytes =>
    apply Stores.wf
    exact (h.stores.pushBytes bytes hcap).of_eq rfl rfl rfl
  | noteSize cols rows =>
    obtain ⟨sizes, hsizes⟩ := noteSize_eq r cols rows
    simp only [machine, Machine.next, hsizes]
    exact ⟨h.length_le, h.head_eq_zero, h.head_lt⟩

/-- The ring that a list of operations leads to from the empty one. -/
def run (cap : ℕ) (ops : List Op) : ReplayRing :=
  machine.final (empty cap) ops

theorem run_holds (hcap : 0 < cap) (ops : List Op) :
  (run cap ops).cap = cap ∧ (run cap ops).Holds (pushed ops)
  := by
  have h := Machine.simulation (M := machine) (N := stream)
    (R := fun r written => r.cap = cap ∧ r.Holds written) (s := empty cap) (t := [])
    ⟨rfl, empty_holds hcap⟩ (step_holds hcap) ops
  rw [stream_final] at h
  apply h

theorem Holds.snapshotInto_eq {stream : List UInt8} (h : r.Holds stream) (out : List UInt8) :
  r.snapshotInto out = out ++ stream.rtake r.cap
  := by
  rw [snapshotInto, List.append_assoc, ← h.stores.unwrap_eq, unwrap]

theorem Holds.isComplete_iff {stream : List UInt8} (h : r.Holds stream) :
  r.isComplete = true ↔ stream.length ≤ r.cap
  := by
  rw [isComplete, beq_iff_eq, h.total_eq, h.stores.length_buf]
  omega

theorem Holds.oldestOffset_eq {stream : List UInt8} (h : r.Holds stream) :
  r.oldestOffset = stream.length - r.cap
  := by
  rw [oldestOffset, h.total_eq, h.stores.length_buf]
  omega

/-- What a replay of `stream` from a ring of capacity `cap` consists of: all of it while it
fits, and otherwise its last `cap` bytes from the first line boundary on. -/
def replayTail (cap : ℕ) (stream : List UInt8) : List UInt8 :=
  if stream.length ≤ cap then stream
  else
    match (stream.rtake cap).findIdx? (· == NEWLINE) with
    | some rel => (stream.rtake cap).drop (rel + 1)
    | none => stream.rtake cap

theorem Holds.replaySnapshotInto_fst {stream : List UInt8} (h : r.Holds stream) (out : List UInt8) :
  (r.replaySnapshotInto out).1 = out ++ replayTail r.cap stream
  := by
  have hdrop : (r.snapshotInto out).drop out.length = stream.rtake r.cap := by
    rw [h.snapshotInto_eq, List.drop_left]
  by_cases hfit : stream.length ≤ r.cap
  · simp only [replaySnapshotInto, h.isComplete_iff.mpr hfit, if_true, replayTail, if_pos hfit]
    rw [h.snapshotInto_eq, rtake_of_length_le hfit]
  · have hcomplete : ¬ r.isComplete = true := fun hc => hfit (h.isComplete_iff.mp hc)
    simp only [replaySnapshotInto, if_neg hcomplete, hdrop, replayTail, if_neg hfit]
    cases (stream.rtake r.cap).findIdx? (· == NEWLINE) with
    | none => apply h.snapshotInto_eq
    | some rel =>
      simp only
      rw [h.snapshotInto_eq, List.take_left, Nat.add_assoc, List.drop_length_add_append]

/-- The ring refines the append-only byte stream: after any operations, a snapshot is the
last `min total cap` bytes of everything pushed, `totalWritten` counts all of them,
the ring is complete exactly when the snapshot is everything pushed, and the representation
invariant holds, which every operation preserves. -/
theorem run_refines_stream {cap : ℕ} (hcap : 0 < cap) (ops : List Op) :
  (∀ out, (run cap ops).snapshotInto out = out ++ (pushed ops).rtake cap)
    ∧ (run cap ops).snapshot.length = min (run cap ops).totalWritten cap
    ∧ (run cap ops).totalWritten = (pushed ops).length
    ∧ ((run cap ops).isComplete = true ↔ (run cap ops).snapshot = pushed ops)
    ∧ (run cap ops).cap = cap
    ∧ (run cap ops).Wf
    ∧ ∀ (r : ReplayRing) (op : Op), 0 < r.cap → r.Wf → (machine.next r op).Wf
  := by
  obtain ⟨hr, h⟩ := run_holds hcap ops
  have hsnapshot : (run cap ops).snapshot = (pushed ops).rtake cap := by
    rw [snapshot, h.snapshotInto_eq, hr, List.nil_append]
  refine ⟨?_, ?_, h.total_eq, ?_, hr, h.stores.wf, fun r op hcap h => h.next hcap op⟩
  · intro out
    rw [h.snapshotInto_eq, hr]
  · rw [hsnapshot, length_rtake, h.total_eq]
  · rw [h.isComplete_iff, hr, hsnapshot]
    constructor
    · apply rtake_of_length_le
    · intro heq
      have hlen := length_rtake (pushed ops) cap
      rw [heq] at hlen
      omega

/-- A ring of four bytes after a size change, a chunk that wraps and an empty chunk. -/
theorem run_refines_stream_wrapped :
  let ops := [Op.noteSize 80 24, .push [1, 2, 3], .push [4, 5], .push []]
  (∀ out, (run 4 ops).snapshotInto out = out ++ (pushed ops).rtake 4)
    ∧ (run 4 ops).snapshot = [2, 3, 4, 5] ∧ (run 4 ops).isComplete = false
  := by
  intro ops
  refine ⟨(run_refines_stream (by decide) ops).1, ?_, ?_⟩
  · decide
  · decide

end ReplayRing

end Lazybox
