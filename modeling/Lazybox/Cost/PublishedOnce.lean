import Lazybox.Cost.Recorders

/-!
# A slice of cost is settled once, when no other is under way

A recorder that measured may settle what it measured long after.  Until it marks, the other
recorders measure the same slice again, and nothing tells them apart: two of them which measure
before either marks both publish it, and the watermark passes the total.

What was spent is numbered, one micro-dollar after another, and the slice of a recorder is an
interval of it.  A recorder is `Fresh` when it settles if the watermark is where it was when it
measured and no other recorder has settled a slice it has not marked.  The slices that were
settled are disjoint exactly in the runs in which every recorder is, and in these what was
published was spent, and the watermark stays within the total.
-/

namespace Lazybox

namespace Slice

/-- The slice holds the micro-dollar of this number. -/
def Contains (slice : Slice) (micro : ℕ) : Prop := slice.mark ≤ micro ∧ micro < slice.total

def width (slice : Slice) : ℕ := slice.total - slice.mark

end Slice

namespace Cost

namespace RecordObs

def addedMicros : RecordObs → ℕ
  | added n => n
  | settles _ _ => 0

def publishedMicros : RecordObs → ℕ
  | settles _ n => n
  | added _ => 0

def settledSlice : RecordObs → Option Slice
  | settles seen _ => some seen
  | added _ => none

end RecordObs

def addedTotal (os : List RecordObs) : ℕ := (os.map RecordObs.addedMicros).sum

def publishedTotal (os : List RecordObs) : ℕ := (os.map RecordObs.publishedMicros).sum

def settledSlices (os : List RecordObs) : List Slice := os.filterMap RecordObs.settledSlice

/-- No micro-dollar is settled twice. -/
def SettledOnce (os : List RecordObs) : Prop :=
  (settledSlices os).Pairwise fun a b => ∀ micro, ¬(a.Contains micro ∧ b.Contains micro)

namespace MergeCosts

variable (key : String)

/-- What was spent and what was reported of the workspace. -/
def slice (s : MergeCosts) : Slice := slices s.store key

/-- The slice an answer settles. -/
def settling (s : MergeCosts) : RecordAct → Option Slice
  | .answerMerge id answer =>
      match s.recorder id with
      | some ⟨.merge, .measured trailers seen⟩ =>
          if mergeVerdict answer trailers = .marks then some seen else none
      | _ => none
  | .answerRecord id (some answer) =>
      match s.recorder id with
      | some ⟨.external, .measured trailers seen⟩ =>
          if recordVerdict (recordMergedTrailers answer trailers) = .marks then some seen else none
      | _ => none
  | _ => none

/-- A slice of something that was settled, and is not marked yet. -/
def HasUnmarked (s : MergeCosts) (id : ℕ) (seen : Slice) : Prop :=
  seen.mark < seen.total ∧ ∃ kind trailers, s.recorder id = some ⟨kind, .settled trailers seen⟩

/-- A slice of something is settled only where the recorder measured it, and while no other one
is to be marked. -/
def Fresh (s : MergeCosts) (act : RecordAct) : Prop :=
  ∀ seen, s.settling act = some seen → seen.mark < seen.total →
    (s.slice key).mark = seen.mark ∧ ∀ id other, ¬s.HasUnmarked id other

end MergeCosts

/-! ### What a step does -/

/-- A row of another kind leaves the slices alone. -/
theorem slices_setKv_of_ne (store : Kv) {written value : String}
    (hcost : ∀ k, sessionCostKvPrefix ++ k ≠ written)
    (hmark : ∀ k, sessionCostMarkKvPrefix ++ k ≠ written) :
  slices (store.setKv written value) = slices store
  := by
  funext k
  rw [slices, readMicros_setKv_of_ne _ (hcost k), readMicros_setKv_of_ne _ (hmark k), slices]

theorem slices_deleteKv_of_ne (store : Kv) {deleted : String}
    (hcost : ∀ k, sessionCostKvPrefix ++ k ≠ deleted)
    (hmark : ∀ k, sessionCostMarkKvPrefix ++ k ≠ deleted) :
  slices (store.deleteKv deleted) = slices store
  := by
  funext k
  rw [slices, readMicros_deleteKv_of_ne _ (hcost k), readMicros_deleteKv_of_ne _ (hmark k), slices]

theorem costKey_ne_pendingKey (k key : String) :
  sessionCostKvPrefix ++ k ≠ pendingMergeCostPrefix ++ key
  := by
  intro h
  have h' := congrArg String.toList h
  rw [String.toList_append, String.toList_append] at h'
  simp [sessionCostKvPrefix, pendingMergeCostPrefix] at h'

theorem markKey_ne_pendingKey (k key : String) :
  sessionCostMarkKvPrefix ++ k ≠ pendingMergeCostPrefix ++ key
  := by
  intro h
  have h' := congrArg String.toList h
  rw [String.toList_append, String.toList_append] at h'
  simp [sessionCostMarkKvPrefix, pendingMergeCostPrefix] at h'

namespace MergeCosts

variable {key : String}

@[simp] theorem slice_noteMergeOwesCost (s : MergeCosts) :
  (s.noteMergeOwesCost key).slice key = s.slice key
  := by
  rw [slice, noteMergeOwesCost,
    slices_setKv_of_ne _ (costKey_ne_pendingKey · key) (markKey_ne_pendingKey · key), slice]

@[simp] theorem slice_clearMergeCostIntent (s : MergeCosts) :
  (s.clearMergeCostIntent key).slice key = s.slice key
  := by
  rw [slice, clearMergeCostIntent,
    slices_deleteKv_of_ne _ (costKey_ne_pendingKey · key) (markKey_ne_pendingKey · key), slice]

@[simp] theorem slice_setPhase
    (s : MergeCosts) (id : ℕ) (kind : RecorderKind) (phase : RecorderPhase) :
  (s.setPhase id kind phase).slice key = s.slice key
  := rfl

end MergeCosts

/-- A figure that is measured is the width of the slice. -/
theorem micros_measure (store : Kv) (key : String) (others : Bool) :
  (measure store key others).micros.getD 0 = (slices store key).width
  := by
  rw [measure, measured, unreportedSessionCost_eq, PrTrailers.micros]
  split_ifs with hpos
  · rfl
  · simp only [Option.bind_none, Option.getD_none]
    have : (slices store).unreported key = (slices store key).width := rfl
    omega

theorem micros_filter_hasValue_le (cost : Option CostTrailer) :
  ((cost.filter CostTrailer.hasValue).bind CostTrailer.micros).getD 0
    ≤ (cost.bind CostTrailer.micros).getD 0
  := by
  rcases cost with _ | ⟨_ | n, _ | t⟩ <;> simp [Option.filter, CostTrailer.hasValue]

theorem micros_apply_le
    {mode : TrailerMode} {trailers out : PrTrailers} (h : mode.apply trailers = some out) :
  out.micros.getD 0 ≤ trailers.micros.getD 0
  := by
  cases mode with
  | off => simp [TrailerMode.apply] at h
  | full =>
    simp only [TrailerMode.apply, Option.ite_none_left_eq_some, Option.some.injEq] at h
    obtain ⟨-, rfl⟩ := h
    apply micros_filter_hasValue_le
  | shape =>
    simp only [TrailerMode.apply, Option.ite_none_left_eq_some, Option.some.injEq] at h
    obtain ⟨-, rfl⟩ := h
    apply (micros_filter_hasValue_le _).trans
    cases trailers.cost <;> simp

/-- No mode publishes more than was measured. -/
theorem publishedMicros_le (mode : TrailerMode) (trailers : PrTrailers) (outcome : TrailerOutcome) :
  publishedMicros mode trailers outcome ≤ trailers.micros.getD 0
  := by
  unfold publishedMicros
  split_ifs
  · cases happly : mode.apply trailers with
    | none => apply Nat.zero_le
    | some out => apply micros_apply_le happly
  · apply Nat.zero_le

/-- Marking advances the watermark by the figure the trailers carry. -/
theorem slice_markReported (store : Kv) (key : String) (trailers : PrTrailers) :
  slices (markReported store key trailers) key
    = ⟨(slices store key).total, saturatingAdd (slices store key).mark (trailers.micros.getD 0)⟩
  := by
  unfold markReported
  cases trailers.micros with
  | none =>
    rw [Option.getD_none, saturatingAdd_eq (by apply readMicros_le)]
    rfl
  | some reported =>
    rw [slices_markSessionCostReported, Meter.mark, Function.update_self, Option.getD_some]

/-- What a recorder is when it has not settled anything: it is gone, it sleeps, it has marked,
or it has measured what is there now. -/
inductive Unsettled (slice : Slice) : Option Recorder → Prop where
  | gone : Unsettled slice none
  | sleeping {kind wakesAt} : Unsettled slice (some ⟨kind, .sleeping wakesAt⟩)
  | marked {kind} : Unsettled slice (some ⟨kind, .marked⟩)
  | measured {kind trailers} (figure : trailers.micros.getD 0 = slice.width) :
      Unsettled slice (some ⟨kind, .measured trailers slice⟩)

namespace MergeCosts

variable (key : String)

/-- The steps of the daemon. -/
inductive Moves (s : MergeCosts) (act : RecordAct) : MergeCosts × List RecordObs → Prop where
  | spent {delta} (settling : s.settling act = none) :
      Moves s act ({ s with store := addSessionCost s.store key delta }, [.added delta])
  | kept {s' : MergeCosts}
      (settling : s.settling act = none)
      (slice_eq : s'.slice key = s.slice key)
      (recorder_eq : s'.recorder = s.recorder) :
      Moves s act (s', [])
  | moved {s' : MergeCosts} {id recorder}
      (settling : s.settling act = none)
      (slice_eq : s'.slice key = s.slice key)
      (recorder_eq : s'.recorder = Function.update s.recorder id recorder)
      (was : ∀ kind trailers seen, s.recorder id ≠ some ⟨kind, .settled trailers seen⟩)
      (becomes : Unsettled (s.slice key) recorder) :
      Moves s act (s', [])
  | settled {id kind trailers seen published}
      (settling : s.settling act = some seen)
      (found : s.recorder id = some ⟨kind, .measured trailers seen⟩)
      (le : published ≤ trailers.micros.getD 0) :
      Moves s act (s.setPhase id kind (.settled trailers seen), [.settles seen published])
  | marked {s' : MergeCosts} {id kind trailers seen recorder}
      (settling : s.settling act = none)
      (found : s.recorder id = some ⟨kind, .settled trailers seen⟩)
      (store_eq : s'.store = markReported s.store key trailers)
      (recorder_eq : s'.recorder = Function.update s.recorder id recorder)
      (becomes : Unsettled (s.slice key) recorder) :
      Moves s act (s', [])

variable {key : String}

section

variable {s t : MergeCosts} {act : RecordAct} {id : ℕ} (settling : s.settling act = none)
  (slice_eq : t.slice key = s.slice key) (recorder_eq : t.recorder = s.recorder)
  (was : ∀ kind trailers seen, s.recorder id ≠ some ⟨kind, .settled trailers seen⟩)
include settling slice_eq recorder_eq was

theorem moves_setPhase {kind : RecorderKind} {phase : RecorderPhase}
    (becomes : Unsettled (s.slice key) (some ⟨kind, phase⟩)) :
  Moves key s act (t.setPhase id kind phase, [])
  := by
  apply Moves.moved settling _ _ was becomes
  · apply slice_eq
  · rw [setPhase, recorder_eq]

theorem moves_finish :
  Moves key s act (t.finish id, [])
  := by
  apply Moves.moved settling _ _ was .gone
  · apply slice_eq
  · rw [finish, recorder_eq]

omit slice_eq recorder_eq was in
theorem moves_same :
  Moves key s act (s, [])
  := by
  apply Moves.kept settling
  · rfl
  · rfl

end

variable {id : ℕ}

theorem moves_recordPendingMergeCost
    (s : MergeCosts) {act : RecordAct} (loaded others : Bool) (settling : s.settling act = none)
    (was : ∀ kind trailers seen, s.recorder id ≠ some ⟨kind, .settled trailers seen⟩) :
  Moves key s act (s.recordPendingMergeCost key id loaded others, [])
  := by
  unfold recordPendingMergeCost
  split_ifs
  · apply moves_finish settling (slice_clearMergeCostIntent s) rfl was
  · dsimp only
    split_ifs
    · apply moves_setPhase settling rfl rfl was
      apply Unsettled.measured (micros_measure s.store key others)
    · apply moves_finish settling (slice_clearMergeCostIntent s) rfl was

variable {s : MergeCosts}

variable {trailers : PrTrailers}

theorem moves_answeredMerge {seen : Slice} (answer : MergeAnswer)
    (found : s.recorder id = some ⟨.merge, .measured trailers seen⟩) :
  Moves key s (.answerMerge id answer) (s.answeredMerge key id trailers seen answer)
  := by
  have was : ∀ kind trailers seen, s.recorder id ≠ some ⟨kind, .settled trailers seen⟩ := by
    intro kind trailers seen h
    simp [found] at h
  have hsettling : s.settling (.answerMerge id answer)
      = if mergeVerdict answer trailers = .marks then some seen else none := by
    simp only [settling, found]
  cases answer with
  | failed | queued | reconciled => apply moves_finish hsettling rfl rfl was
  | merged mode rebase body comment =>
    simp only [answeredMerge]
    cases hverdict : mergeVerdict (.merged mode rebase body comment) trailers with
    | marks =>
      rw [hverdict, if_pos rfl] at hsettling
      apply Moves.settled hsettling found
      apply publishedMicros_le
    | clears =>
      rw [hverdict] at hsettling
      apply moves_finish hsettling (slice_clearMergeCostIntent s) rfl was
    | ends =>
      rw [hverdict] at hsettling
      apply moves_finish hsettling rfl rfl was

theorem moves_answeredRecord {seen : Slice} (answer : Option RecordAnswer)
    (found : s.recorder id = some ⟨.external, .measured trailers seen⟩) :
  Moves key s (.answerRecord id answer) (s.answeredRecord key id trailers seen answer)
  := by
  have was : ∀ kind trailers seen, s.recorder id ≠ some ⟨kind, .settled trailers seen⟩ := by
    intro kind trailers seen h
    simp [found] at h
  cases answer with
  | none => apply moves_finish rfl rfl rfl was
  | some answer =>
    have hsettling : s.settling (.answerRecord id (some answer))
        = if recordVerdict (recordMergedTrailers answer trailers) = .marks then some seen
          else none := by
      simp only [settling, found]
    simp only [answeredRecord]
    cases hverdict : recordVerdict (recordMergedTrailers answer trailers) with
    | marks =>
      rw [hverdict, if_pos rfl] at hsettling
      cases answer.mode with
      | ok mode =>
        apply Moves.settled hsettling found
        apply publishedMicros_le
      | error e =>
        apply Moves.settled hsettling found
        apply Nat.zero_le
    | clears =>
      rw [hverdict] at hsettling
      apply moves_finish hsettling (slice_clearMergeCostIntent s) rfl was
    | ends =>
      rw [hverdict] at hsettling
      apply moves_finish hsettling rfl rfl was

/-- Every step of the daemon is one of these. -/
theorem moves_step (s : MergeCosts) (act : RecordAct) :
  Moves key s act ((machine key).step s act)
  := by
  cases act with
  | spend delta => apply Moves.spent rfl
  | pass ms =>
    apply Moves.kept
    · rfl
    · rfl
    · rfl
  | observeMerged id =>
    simp only [machine]
    cases hfound : s.recorder id with
    | some r => apply moves_same rfl
    | none =>
      apply moves_setPhase rfl (slice_noteMergeOwesCost s) rfl _ .sleeping
      simp [hfound]
  | wake id loaded others =>
    simp only [machine]
    split
    · next hfound =>
        split_ifs
        · apply moves_recordPendingMergeCost s loaded others rfl
          simp [hfound]
        · apply moves_same rfl
    · apply moves_same rfl
  | sweep id loaded others =>
    simp only [machine]
    cases hfound : s.recorder id with
    | some r => apply moves_same rfl
    | none =>
      dsimp only
      split_ifs
      · apply moves_recordPendingMergeCost s loaded others rfl
        simp [hfound]
      · apply moves_same rfl
  | startMerge id others =>
    simp only [machine]
    cases hfound : s.recorder id with
    | some r => apply moves_same rfl
    | none =>
      apply moves_setPhase rfl rfl rfl
      · simp [hfound]
      · apply Unsettled.measured (micros_measure s.store key others)
  | answerMerge id answer =>
    simp only [machine]
    split
    · next hfound => apply moves_answeredMerge answer hfound
    · next hother =>
        apply moves_same
        simp only [settling]
  | answerRecord id answer =>
    simp only [machine]
    split
    · next hfound => apply moves_answeredRecord answer hfound
    · next hother =>
        apply moves_same
        cases answer <;> simp only [settling]
  | mark id =>
    simp only [machine]
    split
    · next hfound =>
        apply Moves.marked rfl hfound _ _ .gone
        · rfl
        · rfl
    · next hfound =>
        have becomes : Unsettled (s.slice key) (some ⟨.external, .marked⟩) := .marked
        apply Moves.marked rfl hfound _ _ becomes
        · rfl
        · rfl
    · apply moves_same rfl
  | clear id =>
    simp only [machine]
    split
    · next hfound =>
        apply moves_finish rfl (slice_clearMergeCostIntent s) rfl
        simp [hfound]
    · apply moves_same rfl

/-! ### What was settled, in order -/

variable (key) in
/-- What was settled is the micro-dollars up to `upTo`.  They are reported, but for the last slice
while its recorder has not marked it. -/
structure Ledgered (s : MergeCosts) (os : List RecordObs) (upTo : ℕ) : Prop where
  total_le : (s.slice key).total ≤ addedTotal os
  mark_le : (s.slice key).mark ≤ upTo
  upTo_le : upTo ≤ (s.slice key).total
  published_le : publishedTotal os ≤ upTo
  covered : ∀ micro, micro < upTo ↔ ∃ seen ∈ settledSlices os, seen.Contains micro
  once : SettledOnce os
  figure : ∀ id kind trailers seen,
    s.recorder id = some ⟨kind, .measured trailers seen⟩
        ∨ s.recorder id = some ⟨kind, .settled trailers seen⟩ →
      trailers.micros.getD 0 = seen.width ∧ seen.mark ≤ (s.slice key).mark
        ∧ seen.mark ≤ seen.total ∧ seen.total ≤ (s.slice key).total
  unmarked : ∀ id seen, s.HasUnmarked id seen →
    seen.mark = (s.slice key).mark ∧ seen.total = upTo
  only : ∀ id id' seen seen', s.HasUnmarked id seen → s.HasUnmarked id' seen' → id = id'
  marked : (∀ id seen, ¬s.HasUnmarked id seen) → (s.slice key).mark = upTo

theorem Ledgered.start :
  Ledgered key start [] 0
  where
    total_le := Nat.le_refl 0
    mark_le := Nat.le_refl 0
    upTo_le := Nat.le_refl 0
    published_le := Nat.le_refl 0
    covered micro := by simp [settledSlices]
    once := List.Pairwise.nil
    figure id kind trailers seen h := by simp [MergeCosts.start] at h
    unmarked id seen h := by simp [HasUnmarked, MergeCosts.start] at h
    only id id' seen seen' h := by simp [HasUnmarked, MergeCosts.start] at h
    marked _ := rfl

variable {s' : MergeCosts}

/-- A recorder that is not settled after a step is not among those that are to mark. -/
theorem hasUnmarked_update {recorder : Option Recorder} {slice : Slice}
    (recorder_eq : s'.recorder = Function.update s.recorder id recorder)
    (becomes : Unsettled slice recorder) (i : ℕ) (seen : Slice) :
  s'.HasUnmarked i seen ↔ i ≠ id ∧ s.HasUnmarked i seen
  := by
  rw [HasUnmarked, HasUnmarked, recorder_eq]
  by_cases hi : i = id
  · subst hi
    rw [Function.update_self]
    cases becomes <;> simp
  · simp [hi]

/-- What a recorder of a step has measured or settled, it had before, or it has just measured. -/
theorem figure_update
    {recorder : Option Recorder} {slice : Slice}
    (recorder_eq : s'.recorder = Function.update s.recorder id recorder)
    (becomes : Unsettled slice recorder) {i : ℕ} {kind : RecorderKind}
    {seen : Slice}
    (h : s'.recorder i = some ⟨kind, .measured trailers seen⟩
      ∨ s'.recorder i = some ⟨kind, .settled trailers seen⟩) :
  (trailers.micros.getD 0 = seen.width ∧ seen = slice)
    ∨ s.recorder i = some ⟨kind, .measured trailers seen⟩
    ∨ s.recorder i = some ⟨kind, .settled trailers seen⟩
  := by
  rw [recorder_eq] at h
  by_cases hi : i = id
  · subst hi
    rw [Function.update_self] at h
    cases becomes with
    | gone | sleeping | marked => simp at h
    | measured figure =>
      simp only [Option.some.injEq, Recorder.mk.injEq, RecorderPhase.measured.injEq,
        reduceCtorEq, and_false, or_false] at h
      obtain ⟨-, rfl, rfl⟩ := h
      left
      exact ⟨figure, rfl⟩
  · right
    rwa [Function.update_of_ne hi] at h

namespace Ledgered

variable {s : MergeCosts} {os : List RecordObs} {upTo : ℕ} (h : Ledgered key s os upTo)
include h

theorem bounded : (s.slice key).mark ≤ (s.slice key).total := h.mark_le.trans h.upTo_le

theorem spent (delta : ℕ) :
  Ledgered key { s with store := addSessionCost s.store key delta } (os ++ [.added delta]) upTo
  := by
  have hslice : slice key { s with store := addSessionCost s.store key delta }
      = ⟨saturatingAdd (s.slice key).total delta, (s.slice key).mark⟩ := by
    rw [slice, slices_addSessionCost, Meter.add, Function.update_self, slice]
  have hmax : (s.slice key).total ≤ u64Max := by
    apply readMicros_le
  have hgrows : (s.slice key).total ≤ saturatingAdd (s.slice key).total delta := by
    rw [saturatingAdd]
    omega
  have htotal : saturatingAdd (s.slice key).total delta ≤ (s.slice key).total + delta := by
    apply min_le_left
  have hslices : settledSlices (os ++ [.added delta]) = settledSlices os := by
    simp [settledSlices, RecordObs.settledSlice]
  have hadded := h.total_le
  constructor
  · rw [hslice]
    simp only [addedTotal, List.map_append, List.sum_append, List.map_cons, List.map_nil,
      List.sum_cons, List.sum_nil, RecordObs.addedMicros] at hadded ⊢
    omega
  · rw [hslice]
    apply h.mark_le
  · rw [hslice]
    apply h.upTo_le.trans hgrows
  · simpa [publishedTotal, RecordObs.publishedMicros] using h.published_le
  · rw [hslices]
    apply h.covered
  · rw [SettledOnce, hslices]
    apply h.once
  · intro id kind trailers seen hseen
    obtain ⟨hfigure, hmark, hwidth, hle⟩ := h.figure id kind trailers seen hseen
    rw [hslice]
    exact ⟨hfigure, hmark, hwidth, hle.trans hgrows⟩
  · intro id seen hseen
    rw [hslice]
    apply h.unmarked id seen hseen
  · apply h.only
  · intro hnone
    rw [hslice]
    apply h.marked hnone

variable {s' : MergeCosts}

/-- A step that changes neither the slice nor the recorders that are to mark. -/
theorem kept
    (slice_eq : s'.slice key = s.slice key)
    (unmarked : ∀ id seen, s'.HasUnmarked id seen ↔ s.HasUnmarked id seen)
    (figure : ∀ id kind trailers seen,
      s'.recorder id = some ⟨kind, .measured trailers seen⟩
          ∨ s'.recorder id = some ⟨kind, .settled trailers seen⟩ →
        (trailers.micros.getD 0 = seen.width ∧ seen = s.slice key)
          ∨ s.recorder id = some ⟨kind, .measured trailers seen⟩
          ∨ s.recorder id = some ⟨kind, .settled trailers seen⟩) :
  Ledgered key s' os upTo
  := by
  constructor
  · rw [slice_eq]
    apply h.total_le
  · rw [slice_eq]
    apply h.mark_le
  · rw [slice_eq]
    apply h.upTo_le
  · apply h.published_le
  · apply h.covered
  · apply h.once
  · intro id kind trailers seen hseen
    rw [slice_eq]
    obtain ⟨hfigure, rfl⟩ | hbefore := figure id kind trailers seen hseen
    · exact ⟨hfigure, Nat.le_refl _, h.bounded, Nat.le_refl _⟩
    · apply h.figure id kind trailers seen hbefore
  · intro id seen hseen
    rw [slice_eq]
    apply h.unmarked id seen ((unmarked id seen).mp hseen)
  · intro id id' seen seen' hseen hseen'
    apply h.only id id' seen seen' ((unmarked id seen).mp hseen) ((unmarked id' seen').mp hseen')
  · intro hnone
    rw [slice_eq]
    apply h.marked
    intro id seen hseen
    apply hnone id seen ((unmarked id seen).mpr hseen)

section Settled

variable {id : ℕ} {kind : RecorderKind} {trailers : PrTrailers} {seen : Slice}
  (found : s.recorder id = some ⟨kind, .measured trailers seen⟩) {published : ℕ}
  (published_le : published ≤ trailers.micros.getD 0)
include found published_le

/-- A slice of nothing settles nothing. -/
theorem settledNothing (nothing : ¬seen.mark < seen.total) :
  Ledgered key (s.setPhase id kind (.settled trailers seen)) (os ++ [.settles seen published]) upTo
  := by
  obtain ⟨hfigure, -, -, -⟩ := h.figure id kind trailers seen (Or.inl found)
  have hslices : settledSlices (os ++ [.settles seen published]) = settledSlices os ++ [seen] := by
    simp [settledSlices, RecordObs.settledSlice]
  have hcontains : ∀ micro, ¬seen.Contains micro := by
    rintro micro ⟨hlow, hhigh⟩
    omega
  have hsame : Ledgered key (s.setPhase id kind (.settled trailers seen)) os upTo := by
    apply h.kept
    · rw [slice_setPhase]
    · intro i other
      by_cases hi : i = id
      · subst hi
        simp only [HasUnmarked, setPhase, Function.update_self, Option.some.injEq,
          Recorder.mk.injEq, RecorderPhase.settled.injEq, found, reduceCtorEq, and_false,
          exists_false, iff_false, not_and]
        rintro hsome ⟨_, _, -, -, rfl⟩
        apply nothing hsome
      · simp [HasUnmarked, setPhase, hi]
    · intro i kind' trailers' seen' hseen
      right
      by_cases hi : i = id
      · subst hi
        simp only [setPhase, Function.update_self, Option.some.injEq, Recorder.mk.injEq,
          reduceCtorEq, and_false, RecorderPhase.settled.injEq, false_or] at hseen
        obtain ⟨rfl, rfl, rfl⟩ := hseen
        left
        apply found
      · simpa [setPhase, hi] using hseen
  have hpublished := h.published_le
  have hwidth : seen.width = 0 := by
    rw [Slice.width]
    omega
  constructor
  · simpa [addedTotal, RecordObs.addedMicros] using hsame.total_le
  · apply hsame.mark_le
  · apply hsame.upTo_le
  · simp only [publishedTotal, List.map_append, List.sum_append, List.map_cons, List.map_nil,
      List.sum_cons, List.sum_nil, RecordObs.publishedMicros] at hpublished ⊢
    omega
  · intro micro
    rw [h.covered micro, hslices]
    simp [hcontains]
  · rw [SettledOnce, hslices, List.pairwise_append]
    constructor
    · apply h.once
    · constructor
      · apply List.pairwise_singleton
      · intro a _ b hb micro hboth
        rw [List.mem_singleton.mp hb] at hboth
        apply hcontains micro hboth.2
  · apply hsame.figure
  · apply hsame.unmarked
  · apply hsame.only
  · apply hsame.marked

/-- A slice that is fresh extends what was settled. -/
theorem settledFresh (some : seen.mark < seen.total) (mark_eq : (s.slice key).mark = seen.mark)
    (none_unmarked : ∀ id other, ¬s.HasUnmarked id other) :
  Ledgered key (s.setPhase id kind (.settled trailers seen)) (os ++ [.settles seen published])
    seen.total
  := by
  obtain ⟨hfigure, -, -, hle⟩ := h.figure id kind trailers seen (Or.inl found)
  have hupTo : upTo = seen.mark := by rw [← h.marked none_unmarked, mark_eq]
  have hslices : settledSlices (os ++ [.settles seen published]) = settledSlices os ++ [seen] := by
    simp [settledSlices, RecordObs.settledSlice]
  have hunmarked : ∀ i other, (s.setPhase id kind (.settled trailers seen)).HasUnmarked i other →
      i = id ∧ other = seen := by
    intro i other hother
    by_cases hi : i = id
    · subst hi
      obtain ⟨-, kind', trailers', hphase⟩ := hother
      simp only [setPhase, Function.update_self, Option.some.injEq, Recorder.mk.injEq,
        RecorderPhase.settled.injEq] at hphase
      exact ⟨rfl, hphase.2.2.symm⟩
    · exfalso
      apply none_unmarked i other
      simpa [HasUnmarked, setPhase, hi] using hother
  have hpublished := h.published_le
  have hmark := h.mark_le
  have hwidth : seen.mark + seen.width = seen.total := by
    rw [Slice.width]
    omega
  constructor
  · simpa [addedTotal, RecordObs.addedMicros] using h.total_le
  · change (s.slice key).mark ≤ seen.total
    omega
  · apply hle
  · simp only [publishedTotal, List.map_append, List.sum_append, List.map_cons, List.map_nil,
      List.sum_cons, List.sum_nil, RecordObs.publishedMicros] at hpublished ⊢
    omega
  · intro micro
    rw [hslices]
    simp only [List.mem_append, List.mem_singleton, or_and_right, exists_or, exists_eq_left]
    rw [← h.covered micro, hupTo]
    constructor
    · intro hmicro
      rcases Nat.lt_or_ge micro seen.mark with hlow | hhigh
      · left
        apply hlow
      · right
        exact ⟨hhigh, hmicro⟩
    · rintro (hlow | ⟨-, hhigh⟩)
      · omega
      · apply hhigh
  · rw [SettledOnce, hslices, List.pairwise_append]
    constructor
    · apply h.once
    · constructor
      · apply List.pairwise_singleton
      · intro a ha b hb micro hboth
        rw [List.mem_singleton.mp hb] at hboth
        have hlow := (h.covered micro).mpr ⟨a, ha, hboth.1⟩
        have hhigh := hboth.2.1
        omega
  · intro i kind' trailers' seen' hseen
    apply h.figure i kind' trailers' seen'
    by_cases hi : i = id
    · subst hi
      simp only [setPhase, Function.update_self, Option.some.injEq, Recorder.mk.injEq,
        reduceCtorEq, and_false, RecorderPhase.settled.injEq, false_or] at hseen
      obtain ⟨rfl, rfl, rfl⟩ := hseen
      left
      apply found
    · simpa [setPhase, hi] using hseen
  · intro i other hother
    rw [slice_setPhase, (hunmarked i other hother).2]
    exact ⟨mark_eq.symm, rfl⟩
  · intro i i' other other' hother hother'
    rw [(hunmarked i other hother).1, (hunmarked i' other' hother').1]
  · intro hnone
    exfalso
    apply hnone id seen
    constructor
    · apply some
    · use kind, trailers
      simp [setPhase]

end Settled

/-- A slice that is not fresh overlaps what was settled. -/
theorem overlaps_of_not_fresh {seen : Slice} (le : seen.mark ≤ (s.slice key).mark)
    (stale : ¬((s.slice key).mark = seen.mark ∧ ∀ id other, ¬s.HasUnmarked id other)) :
  seen.mark < upTo
  := by
  have hmark := h.mark_le
  by_cases hnone : ∀ id other, ¬s.HasUnmarked id other
  · have := h.marked hnone
    have hne : (s.slice key).mark ≠ seen.mark := by
      intro heq
      exact stale ⟨heq, hnone⟩
    omega
  · simp only [not_forall, not_not] at hnone
    obtain ⟨id, other, hother⟩ := hnone
    obtain ⟨hlow, hhigh⟩ := h.unmarked id other hother
    have hsome := hother.1
    omega

/-- A slice that is marked is reported, up to where it was settled. -/
theorem mark {id : ℕ} {kind : RecorderKind} {trailers : PrTrailers} {seen : Slice}
    {recorder : Option Recorder} (found : s.recorder id = some ⟨kind, .settled trailers seen⟩)
    (store_eq : s'.store = markReported s.store key trailers)
    (recorder_eq : s'.recorder = Function.update s.recorder id recorder)
    (becomes : Unsettled (s.slice key) recorder) :
  Ledgered key s' os upTo
  := by
  obtain ⟨hfigure, hseen, hwidth, hle⟩ := h.figure id kind trailers seen (Or.inr found)
  have hslice : s'.slice key
      = ⟨(s.slice key).total, saturatingAdd (s.slice key).mark seen.width⟩ := by
    rw [slice, store_eq, slice_markReported, hfigure, slice]
  have hunmarked := hasUnmarked_update recorder_eq becomes
  have hmax : (s.slice key).total ≤ u64Max := by
    apply readMicros_le
  have hupTo := h.upTo_le
  have hmark := h.mark_le
  by_cases hsome : seen.mark < seen.total
  case neg =>
    have hzero : seen.width = 0 := by
      rw [Slice.width]
      omega
    apply h.kept
    · rw [hslice, hzero, saturatingAdd_eq (by omega)]
      rfl
    · intro i other
      rw [hunmarked i other, and_iff_right_iff_imp]
      rintro hother rfl
      obtain ⟨hpos, kind', trailers', hphase⟩ := hother
      rw [found] at hphase
      simp only [Option.some.injEq, Recorder.mk.injEq, RecorderPhase.settled.injEq] at hphase
      rw [← hphase.2.2] at hpos
      apply hsome hpos
    · intro i kind' trailers' seen' hboth
      apply figure_update recorder_eq becomes hboth
  case pos =>
    have hmine : s.HasUnmarked id seen := ⟨hsome, kind, trailers, found⟩
    obtain ⟨hlow, hhigh⟩ := h.unmarked id seen hmine
    have hsum : saturatingAdd (s.slice key).mark seen.width = upTo := by
      rw [Slice.width, hlow, hhigh, saturatingAdd_eq (by omega)]
      omega
    have hnone : ∀ i other, ¬s'.HasUnmarked i other := by
      intro i other hother
      obtain ⟨hne, hbefore⟩ := (hunmarked i other).mp hother
      apply hne (h.only i id other seen hbefore hmine)
    rw [hsum] at hslice
    constructor
    · rw [hslice]
      apply h.total_le
    · rw [hslice]
    · rw [hslice]
      apply hupTo
    · apply h.published_le
    · apply h.covered
    · apply h.once
    · intro i kind' trailers' seen' hboth
      rw [hslice]
      obtain ⟨hwide, rfl⟩ | hbefore := figure_update recorder_eq becomes hboth
      · exact ⟨hwide, hmark, h.bounded, Nat.le_refl _⟩
      · obtain ⟨hwide, hbase, hbounds, htop⟩ := h.figure i kind' trailers' seen' hbefore
        exact ⟨hwide, hbase.trans hmark, hbounds, htop⟩
    · intro i other hother
      exact absurd hother (hnone i other)
    · intro i i' other other' hother
      exact absurd hother (hnone i other)
    · intro _
      rw [hslice]

/-- A step that settles nothing stale keeps the account. -/
theorem step {act : RecordAct} {new : List RecordObs} (moves : Moves key s act (s', new))
    (fresh : s.Fresh key act) :
  ∃ upTo', Ledgered key s' (os ++ new) upTo'
  := by
  cases moves with
  | spent settling =>
    use upTo
    apply h.spent
  | kept settling slice_eq recorder_eq =>
    use upTo
    rw [List.append_nil]
    apply h.kept slice_eq
    · intro id seen
      rw [HasUnmarked, HasUnmarked, recorder_eq]
    · intro id kind trailers seen hboth
      right
      rwa [recorder_eq] at hboth
  | moved settling slice_eq recorder_eq was becomes =>
    use upTo
    rw [List.append_nil]
    apply h.kept slice_eq
    · intro i other
      rw [hasUnmarked_update recorder_eq becomes i other, and_iff_right_iff_imp]
      rintro ⟨-, kind, trailers, hphase⟩ rfl
      apply was kind trailers other hphase
    · intro i kind trailers seen hboth
      apply figure_update recorder_eq becomes hboth
  | @settled id kind trailers seen published settling found le =>
    by_cases hsome : seen.mark < seen.total
    · obtain ⟨hmark, hnone⟩ := fresh seen settling hsome
      use seen.total
      apply h.settledFresh found le hsome hmark hnone
    · use upTo
      apply h.settledNothing found le hsome
  | marked settling found store_eq recorder_eq becomes =>
    use upTo
    rw [List.append_nil]
    apply h.mark found store_eq recorder_eq becomes

end Ledgered

/-- Once a slice is settled that is not fresh, a micro-dollar is settled twice. -/
theorem fresh_of_settledOnce
    {os new : List RecordObs} {upTo : ℕ} {act : RecordAct} (h : Ledgered key s os upTo)
    (moves : Moves key s act (s', new)) (once : SettledOnce (os ++ new)) :
  s.Fresh key act
  := by
  intro seen hsettling hsome
  cases moves with
  | spent settling | kept settling | moved settling | marked settling =>
    rw [settling] at hsettling
    cases hsettling
  | @settled id kind trailers seen' published settling found =>
    rw [settling] at hsettling
    cases hsettling
    obtain ⟨-, hlow, -, -⟩ := h.figure id kind trailers seen (Or.inl found)
    by_contra hstale
    obtain ⟨earlier, hearlier, hcontains⟩ :=
      (h.covered seen.mark).mp (h.overlaps_of_not_fresh hlow hstale)
    have hslices : settledSlices (os ++ [.settles seen published])
        = settledSlices os ++ [seen] := by
      simp [settledSlices, RecordObs.settledSlice]
    rw [SettledOnce, hslices, List.pairwise_append] at once
    apply once.2.2 earlier hearlier seen (List.mem_singleton_self _) seen.mark
    exact ⟨hcontains, Nat.le_refl _, hsome⟩

/-! ### Runs -/

/-- A run settles every micro-dollar at most once exactly when each recorder that settles is
fresh.  What such a run published was spent, and its watermark is within the total. -/
theorem settledOnce_iff_fresh (key : String) (acts : List RecordAct) :
  (SettledOnce ((machine key).trace start acts) ↔ (machine key).Along (Fresh key) start acts)
    ∧ ((machine key).Along (Fresh key) start acts →
      publishedTotal ((machine key).trace start acts) ≤ addedTotal ((machine key).trace start acts)
        ∧ (((machine key).final start acts).slice key).mark
            ≤ (((machine key).final start acts).slice key).total)
  := by
  have hstart : ∃ upTo, Ledgered key start [] upTo := ⟨0, Ledgered.start⟩
  have hpreserved : ∀ s os act, s.Fresh key act → (∃ upTo, Ledgered key s os upTo) →
      ∃ upTo, Ledgered key ((machine key).next s act) (os ++ (machine key).emit s act) upTo := by
    rintro s os act hfresh ⟨upTo, h⟩
    apply h.step (moves_step s act) hfresh
  have hend : (machine key).Along (Fresh key) start acts →
      ∃ upTo, Ledgered key ((machine key).final start acts) ((machine key).trace start acts) upTo
    := by
    intro along
    apply (machine key).invariant (I := fun s os => ∃ upTo, Ledgered key s os upTo) hstart
      hpreserved along
  constructor
  · constructor
    · apply (machine key).along_of_trace (I := fun s os => ∃ upTo, Ledgered key s os upTo)
        hstart hpreserved
      · intro os new h
        rw [SettledOnce, settledSlices, List.filterMap_append, List.pairwise_append] at h
        apply h.1
      · rintro s os act ⟨upTo, h⟩ once
        apply fresh_of_settledOnce h (moves_step s act) once
    · intro along
      obtain ⟨upTo, h⟩ := hend along
      apply h.once
  · intro along
    obtain ⟨upTo, h⟩ := hend along
    constructor
    · apply h.published_le.trans (h.upTo_le.trans h.total_le)
    · apply h.bounded

/-- A merge call measures, a poll observes the merge before the call is answered, and the
recorder of the poll measures the same slice when its settle window has passed.  Both publish. -/
def mergeAndPoll : List RecordAct :=
  [.spend 10, .startMerge 0 true, .observeMerged 1, .pass 60000, .wake 1 true true,
    .answerMerge 0 (.merged .full false (.ok ()) (.ok ())),
    .answerRecord 1 (some ⟨true, some "PR_1", .ok .full, .ok ()⟩), .mark 0, .mark 1]

/-- The same figure is published by both, and the watermark is twice the total. -/
theorem mergeAndPoll_publishes_twice :
  addedTotal ((machine "github-o-r-1").trace start mergeAndPoll) = 10
    ∧ publishedTotal ((machine "github-o-r-1").trace start mergeAndPoll) = 20
    ∧ ((machine "github-o-r-1").final start mergeAndPoll).slice "github-o-r-1" = ⟨10, 20⟩
  := by
  and_intros
  · decide
  · decide
  · decide

end MergeCosts

end Cost

end Lazybox
