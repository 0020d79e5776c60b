import Mathlib.Data.List.GetD
import Lazybox.Library.ChangeLog
import Lazybox.Pty.ReplayRing

/-!
# The sizes of a replay

The size log of a ring follows the sizes its bytes were produced at: changes that are evicted are
folded into the baseline, and past `SIZE_LOG_CAP` the second-oldest one is.  The spans of a replay
are the log counted from the first byte that is replayed.
-/

namespace Lazybox.ReplayRing

open ChangeLog

/-! ### What the log follows -/

/-- The sizes the bytes pushed so far were produced at, and the size noted last. -/
abbrev Production := List (UInt16 × UInt16) × (UInt16 × UInt16)

/-- The sizes of the bytes, driven by the operations on the ring. -/
def production : Machine Production Op Empty where
  step s
    | .push bytes => ((s.1 ++ List.replicate bytes.length s.2, s.2), [])
    | .noteSize cols rows => ((s.1, cols, rows), [])

theorem production_noteSize_same {s : Production} {cols rows : UInt16} (h : s.2 = (cols, rows)) :
  production.next s (.noteSize cols rows) = s
  := by
  obtain ⟨sizes, size⟩ := s
  cases h
  rfl

/-- The sizes last noted before each of the bytes that a list of operations pushes. -/
def producedAt (size : UInt16 × UInt16) : List Op → List (UInt16 × UInt16)
  | [] => []
  | .push bytes :: ops => List.replicate bytes.length size ++ producedAt size ops
  | .noteSize cols rows :: ops => producedAt (cols, rows) ops

theorem production_final (s : Production) (ops : List Op) :
  (production.final s ops).1 = s.1 ++ producedAt s.2 ops
  := by
  induction ops generalizing s with
  | nil => exact (List.append_nil _).symm
  | cons op ops ih =>
    cases op with
    | push bytes => exact (ih _).trans (List.append_assoc _ _ _)
    | noteSize cols rows => exact ih _

theorem length_producedAt (size : UInt16 × UInt16) (ops : List Op) :
  (producedAt size ops).length = (pushed ops).length
  := by
  induction ops generalizing size with
  | nil => rfl
  | cons op ops ih =>
    cases op with
    | push bytes => rw [producedAt, pushed, List.length_append, List.length_append,
        List.length_replicate, ih]
    | noteSize cols rows => exact ih _

/-- The size at every offset of the stream, that of the bytes to come included. -/
def history (s : Production) (p : ℕ) : UInt16 × UInt16 := s.1.getD p s.2

theorem history_push (s : Production) (bytes : List UInt8) :
  history (production.next s (.push bytes)) = history s
  := by
  funext p
  rw [history, history, production, Machine.next]
  dsimp only
  obtain hp | hp := Nat.lt_or_ge p s.1.length
  · rw [List.getD_append _ _ _ _ hp]
  · rw [List.getD_append_right _ _ _ _ hp, List.getD_eq_default _ _ hp,
      List.getD_eq_getElem?_getD, List.getElem?_getD_replicate_default_eq]

theorem history_noteSize (s : Production) (cols rows : UInt16) :
  history (production.next s (.noteSize cols rows))
    = changed (history s) s.1.length (cols, rows)
  := by
  funext p
  rw [changed, history, history, production, Machine.next]
  dsimp only
  split
  · next hp => rw [List.getD_eq_default _ _ hp]
  · next hp =>
      have hlt : p < s.1.length := by omega
      rw [List.getD_eq_getElem _ _ hlt, List.getD_eq_getElem _ _ hlt]

/-! ### The log of one operation -/

/-- The size log after a change, before it is cut to `SIZE_LOG_CAP`. -/
def logged (r : ReplayRing) (cols rows : UInt16) : List SizeEntry :=
  match r.sizes.getLast? with
  | some last =>
      if last.1 = r.totalWritten then r.sizes.dropLast ++ [(r.totalWritten, cols, rows)]
      else r.sizes ++ [(r.totalWritten, cols, rows)]
  | none => r.sizes ++ [(r.totalWritten, cols, rows)]

variable {r : ReplayRing}

theorem noteSize_of_ne {cols rows : UInt16} (h : r.size ≠ (cols, rows)) :
  r.noteSize cols rows = { r with sizes := capSizes (r.logged cols rows) }
  := if_neg h

/-- The operation leaves no more changes than are kept. -/
def Retained (r : ReplayRing) : Op → Prop
  | .push _ => True
  | .noteSize cols rows =>
      r.size = (cols, rows) ∨ (r.logged cols rows).length ≤ SIZE_LOG_CAP

theorem sizeAt_eq_valueAt (r : ReplayRing) (p : ℕ) :
  r.sizeAt p = valueAt (0, 0) r.sizes p
  := by
  rw [sizeAt, valueAt]
  cases r.sizes.reverse.find? fun e => e.1 ≤ p with
  | none => rfl
  | some e => rfl

@[simp]
theorem pushBytes_sizes (r : ReplayRing) (bytes : List UInt8) :
  (r.pushBytes bytes).sizes = r.sizes
  := by
  simp only [pushBytes, ReplayRing.overwriteBytes]
  split_ifs <;> rfl

theorem capSizes_of_length_le {log : List SizeEntry} (h : log.length ≤ SIZE_LOG_CAP) :
  capSizes log = log
  := by
  cases log with
  | nil => rfl
  | cons e log =>
    rw [capSizes]
    cases log with
    | nil => rfl
    | cons e' log =>
      rw [List.length_cons, List.length_cons] at h
      rw [dropSecond, if_neg]
      omega

section Log

variable {now : ℕ} {history : ℕ → UInt16 × UInt16} {log : List SizeEntry}

theorem follows_dropEvicted {oldest : ℕ} (h : Follows (0, 0) history oldest now log) :
  Follows (0, 0) history oldest now (dropEvicted oldest log)
  := by
  induction log with
  | nil => exact h
  | cons e log ih =>
    cases log with
    | nil => exact h
    | cons e' log =>
      rw [dropEvicted]
      split
      · next he => exact ih (h.evict he)
      · exact h

theorem valueAt_dropEvicted {oldest p : ℕ} (hp : oldest ≤ p) (log : List SizeEntry) :
  valueAt (0, 0) (dropEvicted oldest log) p = valueAt (0, 0) log p
  := by
  induction log with
  | nil => rfl
  | cons e log ih =>
    cases log with
    | nil => rfl
    | cons e' log =>
      rw [dropEvicted]
      split
      · next he => rw [ih, valueAt_evict (he.trans hp)]
      · rfl

theorem follows_capSizes {oldest : ℕ} (h : Follows (0, 0) history oldest now log) :
  Follows (0, 0) history oldest now (capSizes log)
  := by
  cases log with
  | nil => exact h
  | cons e log =>
    rw [capSizes]
    induction log with
    | nil => exact h
    | cons e₁ log ih =>
      rw [dropSecond]
      split
      · next hlength =>
          cases log with
          | nil => exact absurd hlength (by decide)
          | cons e₂ log => exact ih h.forget
      · exact h

end Log

/-! ### Runs -/

/-- The log of a ring follows the sizes its bytes were produced at. -/
structure Tracks (r : ReplayRing) (s : Production) : Prop where
  total_eq : r.totalWritten = s.1.length
  follows : Follows (0, 0) (history s) r.oldestOffset r.totalWritten r.sizes

section Tracks

variable {r : ReplayRing} {s : Production}

/-- The last entry of the log is the size noted last. -/
theorem Tracks.size_eq (h : r.Tracks s) :
  r.size = s.2
  := by
  have hnow : valueAt (0, 0) r.sizes r.totalWritten = s.2 := by
    have hold : r.oldestOffset ≤ r.totalWritten := Nat.sub_le _ _
    have hsecond : ∀ e ∈ r.sizes.tail.head?, e.1 ≤ r.totalWritten := by
      intro e he
      exact h.follows.reached e (List.mem_of_mem_tail (List.mem_of_mem_head? he))
    rw [h.follows.exact _ hold hsecond, history, h.total_eq, List.getD_eq_default _ _ le_rfl]
  rw [← hnow, size]
  obtain hnil | ⟨log, last, hlog⟩ := r.sizes.eq_nil_or_concat'
  · rw [hnil]
    rfl
  · have hreached : last.1 ≤ r.totalWritten := by
      apply h.follows.reached
      rw [hlog]
      exact List.mem_concat_self
    rw [hlog, List.getLast?_concat, valueAt_concat, if_pos hreached]

/-- A change is logged at the end, in the place of one at the same offset. -/
theorem Tracks.logged_cases (h : r.Tracks s) (cols rows : UInt16) :
  (r.logged cols rows = r.sizes ++ [(r.totalWritten, cols, rows)]
      ∧ ∀ e ∈ r.sizes, e.1 < r.totalWritten)
    ∨ ∃ log size, r.sizes = log ++ [(r.totalWritten, size)]
      ∧ r.logged cols rows = log ++ [(r.totalWritten, cols, rows)]
  := by
  rw [logged]
  obtain hnil | ⟨log, last, hlog⟩ := r.sizes.eq_nil_or_concat'
  · rw [hnil]
    left
    exact ⟨rfl, fun e he => nomatch he⟩
  · have hreached : last.1 ≤ r.totalWritten := by
      apply h.follows.reached
      rw [hlog]
      exact List.mem_concat_self
    rw [hlog, List.getLast?_concat, List.dropLast_concat]
    dsimp only
    split
    · next heq =>
        right
        use log, last.2
        rw [← heq]
        exact ⟨rfl, rfl⟩
    · next hne =>
        left
        refine ⟨rfl, ?_⟩
        have hincreasing := h.follows.increasing
        rw [hlog, List.pairwise_append] at hincreasing
        rw [List.forall_mem_append, List.forall_mem_singleton]
        constructor
        · intro e he
          have hlt := hincreasing.2.2 e he last (List.mem_singleton_self last)
          omega
        · omega

theorem Tracks.noteSize (h : r.Tracks s) (cols rows : UInt16) :
  (r.noteSize cols rows).Tracks (production.next s (.noteSize cols rows))
  := by
  by_cases hsize : r.size = (cols, rows)
  · rw [production_noteSize_same (h.size_eq.symm.trans hsize), ReplayRing.noteSize, if_pos hsize]
    exact h
  · rw [noteSize_of_ne hsize]
    refine ⟨h.total_eq, ?_⟩
    rw [history_noteSize, ← h.total_eq]
    apply follows_capSizes
    rcases h.logged_cases cols rows with ⟨hlogged, hlt⟩ | ⟨log, size, hlog, hlogged⟩
    · rw [hlogged]
      exact h.follows.change hlt (cols, rows)
    · have hfollows := h.follows
      rw [hlog] at hfollows
      rw [hlogged]
      exact hfollows.rechange (cols, rows)

variable {written : List UInt8}

/-- The bytes that are kept only move on. -/
theorem Holds.oldestOffset_le (hcap : 0 < r.cap) (h : r.Holds written) (bytes : List UInt8) :
  r.oldestOffset ≤ (r.push bytes).oldestOffset
  := by
  have hpush : (r.push bytes).cap = r.cap := pushBytes_cap r bytes
  rw [h.oldestOffset_eq, (h.push bytes hcap).oldestOffset_eq, hpush, List.length_append]
  omega

theorem Tracks.push
    (hcap : 0 < r.cap) (hholds : r.Holds written) (h : r.Tracks s) (bytes : List UInt8) :
  (r.push bytes).Tracks (production.next s (.push bytes))
  := by
  have htotal : (r.push bytes).totalWritten = r.totalWritten + bytes.length :=
    pushBytes_totalWritten r bytes
  have hsizes : (r.push bytes).sizes = dropEvicted (r.push bytes).oldestOffset r.sizes := by
    rw [← pushBytes_sizes r bytes]
    rfl
  constructor
  · rw [htotal, h.total_eq, production, Machine.next, List.length_append,
      List.length_replicate]
  · rw [history_push, hsizes, htotal]
    apply follows_dropEvicted
    apply h.follows.later (hholds.oldestOffset_le hcap bytes)
    omega

/-- A ring on which no change is folded for the bound tells every size. -/
theorem exact_next {op : Op} (hcap : 0 < r.cap) (hholds : r.Holds written) (h : r.Tracks s)
    (hretained : r.Retained op) (hexact : Exact (0, 0) (history s) r.oldestOffset r.sizes) :
  Exact (0, 0) (history (production.next s op)) (machine.next r op).oldestOffset
    (machine.next r op).sizes
  := by
  cases op with
  | push bytes =>
    have hsizes : (r.push bytes).sizes = dropEvicted (r.push bytes).oldestOffset r.sizes := by
      rw [← pushBytes_sizes r bytes]
      rfl
    intro p hp
    have hold : r.oldestOffset ≤ p := (hholds.oldestOffset_le hcap bytes).trans hp
    rw [history_push, ← hexact p hold]
    exact (congrArg (fun log => valueAt (0, 0) log p) hsizes).trans
      (valueAt_dropEvicted hp r.sizes)
  | noteSize cols rows =>
    have hnext : machine.next r (.noteSize cols rows) = r.noteSize cols rows := rfl
    rw [hnext]
    by_cases hsize : r.size = (cols, rows)
    · rw [production_noteSize_same (h.size_eq.symm.trans hsize), ReplayRing.noteSize,
        if_pos hsize]
      exact hexact
    · have hlength := hretained.resolve_left hsize
      rw [noteSize_of_ne hsize, history_noteSize, ← h.total_eq,
        capSizes_of_length_le hlength]
      rcases h.logged_cases cols rows with ⟨hlogged, -⟩ | ⟨log, size, hlog, hlogged⟩
      · rw [hlogged]
        exact hexact.change r.totalWritten (cols, rows)
      · rw [hlog] at hexact
        rw [hlogged]
        exact hexact.rechange (cols, rows)

end Tracks

theorem empty_tracks (cap : ℕ) :
  (empty cap).Tracks ([], 0, 0)
  where
  total_eq := rfl
  follows := Follows.nil (0, 0)

/-- The sizes of the bytes of a run. -/
theorem production_run (ops : List Op) :
  (production.final ([], 0, 0) ops).1 = producedAt (0, 0) ops
  := production_final ([], 0, 0) ops

/-- The ring of a run: it holds what was pushed, and its log follows the sizes. -/
structure Simulates (cap : ℕ) (r : ReplayRing) (s : Production) : Prop where
  cap_eq : r.cap = cap
  holds : ∃ written, r.Holds written
  tracks : r.Tracks s

variable {cap : ℕ}

theorem empty_simulates (hcap : 0 < cap) :
  Simulates cap (empty cap) ([], 0, 0)
  where
  cap_eq := rfl
  holds := ⟨[], empty_holds hcap⟩
  tracks := empty_tracks cap

theorem Simulates.next (hcap : 0 < cap) {s : Production} (h : Simulates cap r s) (op : Op) :
  Simulates cap (machine.next r op) (production.next s op)
  := by
  obtain ⟨hr, ⟨written, hholds⟩, htracks⟩ := h
  obtain ⟨hr', hholds'⟩ := step_holds hcap r written op ⟨hr, hholds⟩
  refine ⟨hr', ⟨_, hholds'⟩, ?_⟩
  cases op with
  | push bytes => exact htracks.push (hr ▸ hcap) hholds bytes
  | noteSize cols rows => exact htracks.noteSize cols rows

/-- After any operations the log follows the sizes the bytes were produced at. -/
theorem run_tracks (hcap : 0 < cap) (ops : List Op) :
  (run cap ops).Tracks (production.final ([], 0, 0) ops)
  := by
  have hrun : Simulates cap (run cap ops) (production.final ([], 0, 0) ops) :=
    Machine.simulation (M := machine) (empty_simulates hcap)
      (fun r s op h => h.next hcap op) ops
  exact hrun.tracks

/-- As long as no change is folded for the bound, the log tells every size. -/
theorem run_exact
    (hcap : 0 < cap) {ops : List Op} (hretained : machine.Along Retained (empty cap) ops) :
  Exact (0, 0) (history (production.final ([], 0, 0) ops)) (run cap ops).oldestOffset
    (run cap ops).sizes
  := by
  have hstart :
      Simulates cap (empty cap) ([], 0, 0)
        ∧ Exact (0, 0) (history ([], 0, 0)) (empty cap).oldestOffset (empty cap).sizes :=
    ⟨empty_simulates hcap, fun p _ => rfl⟩
  have hstep :
      ∀ (r : ReplayRing) (s : Production) (op : Op), r.Retained op →
        Simulates cap r s ∧ Exact (0, 0) (history s) r.oldestOffset r.sizes →
          Simulates cap (machine.next r op) (production.next s op)
            ∧ Exact (0, 0) (history (production.next s op)) (machine.next r op).oldestOffset
              (machine.next r op).sizes := by
    rintro r s op hop ⟨h, hexact⟩
    obtain ⟨written, hholds⟩ := h.holds
    exact ⟨h.next hcap op, exact_next (h.cap_eq ▸ hcap) hholds h.tracks hop hexact⟩
  exact (Machine.simulation_along (M := machine) hstart hstep hretained).2

/-! ### Spans -/

/-- The spans of a replay whose first byte after the caller's is at an offset of the stream. -/
def spansFrom (r : ReplayRing) (start firstOffset : ℕ) : List ReplaySizeSpan :=
  ⟨0, (r.sizeAt firstOffset).1, (r.sizeAt firstOffset).2⟩
    :: (r.sizes.filter fun e => firstOffset < e.1).map fun e =>
      ⟨start + (e.1 - firstOffset), e.2.1, e.2.2⟩

/-- The size of the span that contains a position: the last that starts at or before it. -/
def spanSize (spans : List ReplaySizeSpan) (pos : ℕ) : UInt16 × UInt16 :=
  valueAt (0, 0) (spans.map fun span => (span.pos, span.cols, span.rows)) pos

/-- The offset of the first byte that is replayed. -/
def replayOffset (cap : ℕ) (stream : List UInt8) : ℕ :=
  stream.length - (replayTail cap stream).length

theorem replayTail_suffix (cap : ℕ) (stream : List UInt8) :
  replayTail cap stream <:+ stream
  := by
  have hring : stream.rtake cap <:+ stream := List.drop_suffix _ _
  rw [replayTail]
  split
  · exact List.suffix_refl stream
  · split
    · exact (List.drop_suffix _ _).trans hring
    · exact hring

/-- What is replayed is kept. -/
theorem le_replayOffset (cap : ℕ) (stream : List UInt8) :
  stream.length - cap ≤ replayOffset cap stream
  := by
  have hlength := Circular.length_rtake stream cap
  rw [replayOffset, replayTail]
  split
  · omega
  · split
    · rw [List.length_drop]
      omega
    · omega

theorem Holds.replaySnapshotInto_snd {stream : List UInt8} (h : r.Holds stream) (out : List UInt8) :
  (r.replaySnapshotInto out).2 = r.spansFrom out.length (replayOffset r.cap stream)
  := by
  have hdrop : (r.snapshotInto out).drop out.length = stream.rtake r.cap := by
    rw [h.snapshotInto_eq, List.drop_left]
  have hlength := Circular.length_rtake stream r.cap
  by_cases hfit : stream.length ≤ r.cap
  · have hoffset : replayOffset r.cap stream = r.oldestOffset + 0 := by
      rw [replayOffset, replayTail, if_pos hfit, h.oldestOffset_eq]
      omega
    rw [hoffset]
    simp only [replaySnapshotInto, h.isComplete_iff.mpr hfit, if_true]
    rfl
  · have hcomplete : ¬ r.isComplete = true := fun hc => hfit (h.isComplete_iff.mp hc)
    cases hcut : (stream.rtake r.cap).findIdx? (· == NEWLINE) with
    | none =>
      have hoffset : replayOffset r.cap stream = r.oldestOffset + 0 := by
        rw [replayOffset, replayTail, if_neg hfit, hcut, h.oldestOffset_eq]
        dsimp only
        omega
      rw [hoffset]
      simp only [replaySnapshotInto, if_neg hcomplete, hdrop, hcut]
      rfl
    | some rel =>
      have hrel := (List.findIdx?_eq_some_iff_getElem.mp hcut).1
      have hoffset : replayOffset r.cap stream = r.oldestOffset + (rel + 1) := by
        rw [replayOffset, replayTail, if_neg hfit, hcut, h.oldestOffset_eq]
        dsimp only
        rw [List.length_drop]
        omega
      rw [hoffset]
      simp only [replaySnapshotInto, if_neg hcomplete, hdrop, hcut]
      rfl

theorem spanSize_spansFrom
    (hincreasing : r.sizes.Pairwise fun a b => a.1 < b.1) (start firstOffset k : ℕ) :
  spanSize (r.spansFrom start firstOffset) (start + k)
    = valueAt (0, 0) r.sizes (firstOffset + k)
  := by
  have hafter : ∀ e ∈ r.sizes.filter (fun e => firstOffset < e.1), firstOffset < e.1 := by
    intro e he
    simpa using (List.mem_filter.mp he).2
  rw [spanSize, spansFrom, List.map_cons, List.map_map, valueAt_cons, if_pos (Nat.zero_le _),
    sizeAt_eq_valueAt, ← valueAt_filter hincreasing (Nat.le_add_right firstOffset k),
    ← valueAt_shift hafter start k]
  rfl

theorem pairwise_spansFrom
    (hincreasing : r.sizes.Pairwise fun a b => a.1 < b.1) (start firstOffset : ℕ) :
  (r.spansFrom start firstOffset).Pairwise fun a b => a.pos < b.pos
  := by
  rw [spansFrom, List.pairwise_cons, List.pairwise_map]
  constructor
  · intro span hspan
    obtain ⟨e, he, rfl⟩ := List.mem_map.mp hspan
    have hafter := (List.mem_filter.mp he).2
    rw [decide_eq_true_eq] at hafter
    dsimp only
    omega
  · apply (hincreasing.filter _).imp_of_mem
    intro a b ha _ hlt
    have hafter := (List.mem_filter.mp ha).2
    rw [decide_eq_true_eq] at hafter
    dsimp only
    omega

/-- What the spans of a replay say of the bytes that a list of operations pushed. -/
structure SpansRight (cap : ℕ) (ops : List Op) (out replay : List UInt8)
    (spans : List ReplaySizeSpan) : Prop where
  first : spans.head?.map ReplaySizeSpan.pos = some 0
  increasing : spans.Pairwise fun a b => a.pos < b.pos
  within : ∀ span ∈ spans, span.pos ≤ replay.length
  byte :
    ∀ k, out.length + k < replay.length →
      replay[out.length + k]? = (pushed ops)[replayOffset cap (pushed ops) + k]?
  exact :
    ∀ k, out.length + k < replay.length →
      machine.Along Retained (empty cap) ops
          ∨ (∀ e ∈ (run cap ops).sizes.tail.head?, e.1 ≤ replayOffset cap (pushed ops) + k) →
        (producedAt (0, 0) ops)[replayOffset cap (pushed ops) + k]?
          = some (spanSize spans (out.length + k))
  older :
    ∀ k, out.length + k < replay.length →
      ∃ q ≤ replayOffset cap (pushed ops) + k,
        (producedAt (0, 0) ops)[q]? = some (spanSize spans (out.length + k))

theorem history_eq_some {ops : List Op} {p : ℕ} (hp : p < (pushed ops).length)
    {size : UInt16 × UInt16} (h : size = history (production.final ([], 0, 0) ops) p) :
  (producedAt (0, 0) ops)[p]? = some size
  := by
  rw [← length_producedAt (0, 0)] at hp
  rw [h, history, production_run, List.getElem?_eq_getElem hp, List.getD_eq_getElem _ _ hp]

/-- The spans of a replay are right for every byte, whatever was evicted and whatever the caller put
in front, and past the bound of the log for every byte that is not older than the changes it
kept. -/
theorem replaySnapshotInto_spansRight
    {cap : ℕ} (hcap : 0 < cap) (ops : List Op) (out : List UInt8) :
  SpansRight cap ops out ((run cap ops).replaySnapshotInto out).1
    ((run cap ops).replaySnapshotInto out).2
  := by
  obtain ⟨hr, hholds⟩ := run_holds hcap ops
  have htracks := run_tracks hcap ops
  have hfollows := htracks.follows
  have hreplay := hholds.replaySnapshotInto_fst out
  have hspans := hholds.replaySnapshotInto_snd out
  rw [hr] at hreplay hspans
  have hsuffix := replayTail_suffix cap (pushed ops)
  have hlength : ((run cap ops).replaySnapshotInto out).1.length
      = out.length + (replayTail cap (pushed ops)).length := by
    rw [hreplay, List.length_append]
  have hle := hsuffix.length_le
  have hoffset : replayOffset cap (pushed ops) + (replayTail cap (pushed ops)).length
      = (pushed ops).length := Nat.sub_add_cancel hle
  have hbound (k : ℕ) (hk : out.length + k < ((run cap ops).replaySnapshotInto out).1.length) :
      (run cap ops).oldestOffset ≤ replayOffset cap (pushed ops) + k
        ∧ replayOffset cap (pushed ops) + k < (pushed ops).length := by
    have holdest := le_replayOffset cap (pushed ops)
    rw [hholds.oldestOffset_eq, hr]
    omega
  have hsize (k : ℕ) :
      spanSize ((run cap ops).replaySnapshotInto out).2 (out.length + k)
        = valueAt (0, 0) (run cap ops).sizes (replayOffset cap (pushed ops) + k) := by
    rw [hspans]
    apply spanSize_spansFrom hfollows.increasing
  exact {
    first := by
      rw [hspans]
      rfl
    increasing := by
      rw [hspans]
      apply pairwise_spansFrom hfollows.increasing
    within := by
      rw [hspans, hlength]
      intro span hspan
      obtain rfl | hspan := List.mem_cons.mp hspan
      · exact Nat.zero_le _
      · obtain ⟨e, he, rfl⟩ := List.mem_map.mp hspan
        have hreached := hfollows.reached e (List.mem_of_mem_filter he)
        rw [hholds.total_eq] at hreached
        dsimp only
        omega
    byte := by
      intro k hk
      obtain ⟨before, hbefore⟩ := hsuffix
      have hcount := congrArg List.length hbefore
      rw [List.length_append] at hcount
      have hstart : before.length = replayOffset cap (pushed ops) := by omega
      rw [hreplay, List.getElem?_append_right (Nat.le_add_right _ _), Nat.add_sub_cancel_left,
        ← hstart]
      conv_rhs => rw [← hbefore]
      rw [List.getElem?_append_right (Nat.le_add_right _ _), Nat.add_sub_cancel_left]
    exact := by
      intro k hk hknown
      obtain ⟨hold, hlt⟩ := hbound k hk
      apply history_eq_some hlt
      rw [hsize]
      rcases hknown with hretained | hsecond
      · exact run_exact hcap hretained _ hold
      · exact hfollows.exact _ hold hsecond
    older := by
      intro k hk
      obtain ⟨hold, hlt⟩ := hbound k hk
      obtain ⟨q, hq, hvalue⟩ := hfollows.exists_valueAt hold
      use q, hq
      apply history_eq_some (hq.trans_lt hlt)
      rw [hsize, hvalue] }

/-- A resize between two chunks, the first of which is evicted up to a line boundary. -/
theorem replaySnapshotInto_spansRight_wrapped :
  let ops := [Op.noteSize 80 24, .push [1, 2, 3, 10, 4], .noteSize 100 30, .push [5, 6]]
  ((run 5 ops).replaySnapshotInto [7]) = ([7, 4, 5, 6], [⟨0, 80, 24⟩, ⟨2, 100, 30⟩])
    ∧ SpansRight 5 ops [7] ((run 5 ops).replaySnapshotInto [7]).1
      ((run 5 ops).replaySnapshotInto [7]).2
  := by
  intro ops
  constructor
  · decide
  · exact replaySnapshotInto_spansRight (by decide) ops [7]

end Lazybox.ReplayRing
