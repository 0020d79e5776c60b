import Lazybox.Cost.Meter
import Lazybox.Library.Run
import Mathlib.Algebra.BigOperators.Finprod

/-!
# Metered money is conserved, but for what a move forgets

Money is added to a key, moved from one key to another, and reported: what a key has not
reported is measured and its watermark is advanced by that figure.  A move folds the whole total
of a key into another one and drops the watermark of the key.  So the part that was reported
becomes unreported money of the other key, and what is billed from then on exceeds what was spent
by exactly that part.

`Accounted` is the invariant: what was added, and what moves made billable again, is what was
reported and what is unreported.
-/

namespace Lazybox

open Function

/-! ### Sums over all keys -/

/-- What a sum over all keys becomes when the value at one key is replaced. -/
theorem finsum_update_add
    {κ : Type*} [DecidableEq κ] {f : κ → ℕ} (hf : f.support.Finite) (a : κ) (b : ℕ) :
  ∑ᶠ k, update f a b k + f a = ∑ᶠ k, f k + b
  := by
  classical
  have hold : f.support ⊆ ↑(insert a hf.toFinset) := by
    intro k hk
    simp [mem_support.mp hk]
  have hnew : (update f a b).support ⊆ ↑(insert a hf.toFinset) := by
    intro k hk
    by_cases hka : k = a
    · simp [hka]
    · rw [mem_support, update_of_ne hka] at hk
      simp [hk]
  have ha : a ∈ insert a hf.toFinset := Finset.mem_insert_self a _
  rw [finsum_eq_sum_of_support_subset _ hold, finsum_eq_sum_of_support_subset _ hnew,
    Finset.sum_update_of_mem ha, ← Finset.sum_sdiff (Finset.singleton_subset_iff.mpr ha),
    Finset.sum_singleton]
  omega

theorem finite_support_update
    {κ : Type*} [DecidableEq κ] {f : κ → ℕ} (hf : f.support.Finite) (a : κ) (b : ℕ) :
  (update f a b).support.Finite
  := by
  apply (hf.insert a).subset
  intro k hk
  by_cases hka : k = a
  · apply Set.mem_insert_iff.mpr (Or.inl hka)
  · rw [mem_support, update_of_ne hka] at hk
    apply Set.mem_insert_of_mem _ hk

/-! ### What is unreported after each operation -/

namespace Meter

variable {κ : Type*}

/-- No key has reported more than was spent under it. -/
def Bounded (m : Meter κ) : Prop := ∀ key, (m key).mark ≤ (m key).total

theorem bounded_empty :
  (empty : Meter κ).Bounded
  := by
  intro key
  apply Nat.le_refl

variable [DecidableEq κ]

/-- The unreported parts when the slice of one key is replaced. -/
theorem unreported_update (m : Meter κ) (key : κ) (slice : Slice) :
  Meter.unreported (update m key slice)
    = update m.unreported key (slice.total - slice.mark)
  := by
  funext k
  by_cases hk : k = key
  · subst hk
    simp [unreported]
  · simp [unreported, update_of_ne hk]

theorem Bounded.update {m : Meter κ} (h : m.Bounded) (key : κ) {slice : Slice}
    (hslice : slice.mark ≤ slice.total) :
  Meter.Bounded (update m key slice)
  := by
  intro k
  by_cases hk : k = key
  · subst hk
    simpa using hslice
  · rw [update_of_ne hk]
    apply h

variable {m : Meter κ} (h : m.Bounded)
include h

theorem Bounded.add (key : κ) {delta : ℕ} (fits : (m key).total + delta ≤ u64Max) :
  (m.add key delta).Bounded
  := by
  apply h.update
  rw [saturatingAdd_eq fits]
  apply Nat.le_add_right_of_le (h key)

theorem unreported_add (key : κ) {delta : ℕ} (fits : (m key).total + delta ≤ u64Max) :
  (m.add key delta).unreported = update m.unreported key (m.unreported key + delta)
  := by
  have hsum : (m key).total + delta - (m key).mark = m.unreported key + delta := by
    have := h key
    rw [unreported]
    omega
  rw [add, unreported_update, saturatingAdd_eq fits, hsum]

/-- Marking what is unreported reports all of it. -/
theorem mark_unreported (key : κ) (fits : (m key).total ≤ u64Max) :
  m.mark key (m.unreported key) = update m key ⟨(m key).total, (m key).total⟩
  := by
  have hsum : (m key).mark + m.unreported key = (m key).total := Nat.add_sub_of_le (h key)
  rw [mark, saturatingAdd_eq (by omega), hsum]

theorem Bounded.move {src dst : κ} (fits : src = dst ∨ (m dst).total + (m src).total ≤ u64Max) :
  (m.move src dst).Bounded
  := by
  unfold Meter.move
  split_ifs with hstays
  · apply h
  · rw [not_or] at hstays
    rw [saturatingAdd_eq (fits.resolve_left hstays.1)]
    apply Bounded.update _ _ (Nat.le_refl 0)
    apply h.update
    apply Nat.le_add_right_of_le (h dst)

/-- What is moved to a key is the whole total of the other, its reported part included. -/
theorem unreported_move {src dst : κ} (hne : src ≠ dst) (hsome : (m src).total ≠ 0)
    (fits : (m dst).total + (m src).total ≤ u64Max) :
  (m.move src dst).unreported
    = update (update m.unreported dst (m.unreported dst + (m src).total)) src 0
  := by
  have hdst := h dst
  have hmoves : ¬(src = dst ∨ (m src).total = 0) := not_or.mpr ⟨hne, hsome⟩
  have hsum : (m dst).total + (m src).total - (m dst).mark
      = m.unreported dst + (m src).total := by
    rw [unreported]
    omega
  rw [move, if_neg hmoves, unreported_update, unreported_update, saturatingAdd_eq fits, hsum,
    Nat.sub_zero]

end Meter

/-! ### Runs -/

inductive CostAct where
  /-- Spend metered under a key. -/
  | add (key : String) (deltaMicros : ℕ)
  | move (src dst : String)
  /-- What a key has not reported is measured, published and marked. -/
  | report (key : String)
deriving DecidableEq, Repr

inductive CostObs where
  | added (micros : ℕ)
  | reported (micros : ℕ)
  /-- The watermark a move deletes. -/
  | dropped (micros : ℕ)
deriving DecidableEq, Repr

namespace CostObs

def addedMicros : CostObs → ℕ
  | added n => n
  | reported _ | dropped _ => 0

def reportedMicros : CostObs → ℕ
  | reported n => n
  | added _ | dropped _ => 0

def droppedMicros : CostObs → ℕ
  | dropped n => n
  | added _ | reported _ => 0

end CostObs

def droppedMark (store : Kv) (src dst : String) : ℕ :=
  if src = dst ∨ readMicros store sessionCostKvPrefix src = 0 then 0
  else readMicros store sessionCostMarkKvPrefix src

def costMachine : Machine Kv CostAct CostObs where
  step store
    | .add key delta => (addSessionCost store key delta, [.added delta])
    | .move src dst => (moveSessionCost store src dst, [.dropped (droppedMark store src dst)])
    | .report key =>
        let figure := unreportedSessionCost store key
        (markSessionCostReported store key figure, [.reported figure])

/-- No total leaves the range of its type. -/
def NoSaturation (store : Kv) : CostAct → Prop
  | .add key delta => readMicros store sessionCostKvPrefix key + delta ≤ u64Max
  | .move src dst =>
      src = dst ∨ readMicros store sessionCostKvPrefix dst
        + readMicros store sessionCostKvPrefix src ≤ u64Max
  | .report _ => True

/-- A key is moved to another one before anything of it was reported. -/
def MovesUnreported (store : Kv) : CostAct → Prop
  | .move src dst => src ≠ dst → readMicros store sessionCostMarkKvPrefix src = 0
  | .add _ _ | .report _ => True

instance (store : Kv) : (act : CostAct) → Decidable (NoSaturation store act)
  | .add _ _ => inferInstanceAs (Decidable (_ ≤ _))
  | .move _ _ => inferInstanceAs (Decidable (_ ∨ _))
  | .report _ => isTrue trivial

instance (store : Kv) : (act : CostAct) → Decidable (MovesUnreported store act)
  | .move _ _ => inferInstanceAs (Decidable (_ → _))
  | .add _ _ | .report _ => isTrue trivial

/-- A step which saturates nothing reports no more than was spent. -/
theorem bounded_next {store : Kv} {act : CostAct} (fits : NoSaturation store act)
    (h : (slices store).Bounded) :
  (slices (costMachine.next store act)).Bounded
  := by
  cases act with
  | add key delta =>
    change (slices (addSessionCost store key delta)).Bounded
    rw [slices_addSessionCost]
    apply h.add key fits
  | move src dst =>
    change (slices (moveSessionCost store src dst)).Bounded
    rw [slices_moveSessionCost]
    apply h.move fits
  | report key =>
    change (slices (markSessionCostReported store key _)).Bounded
    rw [slices_markSessionCostReported, unreportedSessionCost_eq,
      Meter.mark_unreported h _ (by apply readMicros_le)]
    apply h.update key (Nat.le_refl _)

/-- The store holds no rows. -/
def noRows : Kv := fun _ => none

/-- All that was added is what was reported and what is unreported. -/
def Conserved (store : Kv) (os : List CostObs) : Prop :=
  (os.map CostObs.addedMicros).sum
    = (os.map CostObs.reportedMicros).sum + ∑ᶠ key, unreportedSessionCost store key

/-- What was added and what moves made billable again is what was reported and what is
unreported. -/
structure Accounted (store : Kv) (os : List CostObs) : Prop where
  bounded : (slices store).Bounded
  finite : (slices store).unreported.support.Finite
  balance : (os.map CostObs.addedMicros).sum + (os.map CostObs.droppedMicros).sum
    = (os.map CostObs.reportedMicros).sum + ∑ᶠ key, (slices store).unreported key

namespace Accounted

variable {store : Kv} {os : List CostObs}

theorem empty :
  Accounted noRows []
  where
    bounded := Meter.bounded_empty
    finite := by
      apply Set.Finite.subset Set.finite_empty
      intro key hkey
      exact absurd rfl hkey
    balance := by
      change 0 = 0 + ∑ᶠ key : String, (Meter.empty : Meter String).unreported key
      rw [Nat.zero_add, eq_comm]
      apply finsum_eq_zero_of_forall_eq_zero
      intro key
      rfl

theorem add (h : Accounted store os) (key : String) {delta : ℕ}
    (fits : NoSaturation store (.add key delta)) :
  Accounted (addSessionCost store key delta) (os ++ [.added delta])
  := by
  have hsum := finsum_update_add h.finite key ((slices store).unreported key + delta)
  have hbalance := h.balance
  constructor
  · apply bounded_next fits h.bounded
  · rw [slices_addSessionCost, Meter.unreported_add h.bounded key fits]
    apply finite_support_update h.finite
  · rw [slices_addSessionCost, Meter.unreported_add h.bounded key fits]
    simp only [List.map_append, List.sum_append, List.map_cons, List.map_nil, List.sum_cons,
      List.sum_nil, CostObs.addedMicros, CostObs.droppedMicros, CostObs.reportedMicros]
    omega

theorem report (h : Accounted store os) (key : String) :
  Accounted (markSessionCostReported store key (unreportedSessionCost store key))
    (os ++ [.reported (unreportedSessionCost store key)])
  := by
  have hsum := finsum_update_add h.finite key 0
  have hbalance := h.balance
  have hmark : slices (markSessionCostReported store key (unreportedSessionCost store key))
      = Function.update (slices store) key
          ⟨(slices store key).total, (slices store key).total⟩ := by
    rw [slices_markSessionCostReported, unreportedSessionCost_eq, Meter.mark_unreported h.bounded]
    apply readMicros_le
  constructor
  · have hfits : NoSaturation store (.report key) := trivial
    apply bounded_next hfits h.bounded
  · rw [hmark, Meter.unreported_update]
    apply finite_support_update h.finite
  · rw [hmark, Meter.unreported_update, Nat.sub_self]
    simp only [List.map_append, List.sum_append, List.map_cons, List.map_nil, List.sum_cons,
      List.sum_nil, CostObs.addedMicros, CostObs.droppedMicros, CostObs.reportedMicros,
      unreportedSessionCost_eq]
    omega

/-- A move makes the watermark it drops billable again. -/
theorem move
    (h : Accounted store os) {src dst : String} (fits : NoSaturation store (.move src dst)) :
  Accounted (moveSessionCost store src dst) (os ++ [.dropped (droppedMark store src dst)])
  := by
  have hbalance := h.balance
  have hsrcle := h.bounded src
  have hnew : (slices (moveSessionCost store src dst)).Bounded := bounded_next fits h.bounded
  by_cases hstays : src = dst ∨ (slices store src).total = 0
  · have hsame : slices (moveSessionCost store src dst) = slices store := by
      rw [slices_moveSessionCost, Meter.move, if_pos hstays]
    have hdropped : droppedMark store src dst = 0 := if_pos hstays
    constructor
    · apply hnew
    · rw [hsame]
      apply h.finite
    · rw [hsame, hdropped]
      simpa [CostObs.addedMicros, CostObs.droppedMicros, CostObs.reportedMicros] using hbalance
  · have hdropped : droppedMark store src dst = (slices store src).mark := if_neg hstays
    rw [not_or] at hstays
    have hmoved := Meter.unreported_move h.bounded hstays.1 hstays.2 (fits.resolve_left hstays.1)
    have hdst := finsum_update_add h.finite dst
      ((slices store).unreported dst + (slices store src).total)
    have hfinite := finite_support_update h.finite dst
      ((slices store).unreported dst + (slices store src).total)
    have hsrc := finsum_update_add hfinite src 0
    rw [update_of_ne hstays.1] at hsrc
    constructor
    · apply hnew
    · rw [slices_moveSessionCost, hmoved]
      apply finite_support_update hfinite
    · rw [slices_moveSessionCost, hmoved, hdropped]
      simp only [List.map_append, List.sum_append, List.map_cons, List.map_nil, List.sum_cons,
        List.sum_nil, CostObs.addedMicros, CostObs.droppedMicros, CostObs.reportedMicros]
      have : (slices store).unreported src = (slices store src).total - (slices store src).mark :=
        rfl
      omega

/-- A step which saturates nothing keeps the account. -/
theorem step (h : Accounted store os) {act : CostAct} (fits : NoSaturation store act) :
  Accounted (costMachine.next store act) (os ++ costMachine.emit store act)
  := by
  cases act with
  | add key delta => apply h.add key fits
  | move src dst => apply h.move fits
  | report key => apply h.report key

/-- A key with a watermark has a total, so a move of it is never idle. -/
theorem dropped_eq_zero_iff (h : (slices store).Bounded) (act : CostAct) :
  ((costMachine.emit store act).map CostObs.droppedMicros).sum = 0 ↔ MovesUnreported store act
  := by
  cases act with
  | add key delta => simp [costMachine, Machine.emit, CostObs.droppedMicros, MovesUnreported]
  | report key => simp [costMachine, Machine.emit, CostObs.droppedMicros, MovesUnreported]
  | move src dst =>
    have hsrc : readMicros store sessionCostMarkKvPrefix src
        ≤ readMicros store sessionCostKvPrefix src := h src
    simp only [costMachine, Machine.emit, List.map_cons, List.map_nil, List.sum_cons,
      List.sum_nil, Nat.add_zero, CostObs.droppedMicros, MovesUnreported, droppedMark]
    split_ifs with hstays
    · constructor
      · intro _ hne
        have := hstays.resolve_left hne
        omega
      · intro _
        rfl
    · rw [not_or] at hstays
      constructor
      · intro hmark _
        apply hmark
      · intro hmark
        apply hmark hstays.1

end Accounted

/-- Every run in which no sum saturates is accounted for. -/
theorem accounted_final (acts : List CostAct) (fits : costMachine.Along NoSaturation noRows acts) :
  Accounted (costMachine.final noRows acts) (costMachine.trace noRows acts)
  := by
  apply costMachine.invariant Accounted.empty _ fits
  intro store os act hfits h
  apply h.step hfits

/-- In a run in which no sum saturates, all that was added is what was reported and what is
unreported exactly when no key was moved after a part of it was reported. -/
theorem conserved_iff_movesUnreported
    (acts : List CostAct) (fits : costMachine.Along NoSaturation noRows acts) :
  Conserved (costMachine.final noRows acts) (costMachine.trace noRows acts)
    ↔ costMachine.Along MovesUnreported noRows acts
  := by
  have hbalance := (accounted_final acts fits).balance
  have hsteps : costMachine.Along
        (fun store act => ((costMachine.emit store act).map CostObs.droppedMicros).sum = 0)
        noRows acts ↔ costMachine.Along MovesUnreported noRows acts := by
    have hstart : (slices noRows).Bounded := Meter.bounded_empty
    apply costMachine.along_congr (I := fun store => (slices store).Bounded) hstart _ _ fits
    · intro store act hfits h
      apply bounded_next hfits h
    · intro store act _ h
      apply Accounted.dropped_eq_zero_iff h act
  rw [← hsteps, ← costMachine.sum_trace_eq_zero_iff, Conserved]
  simp only [unreportedSessionCost_eq]
  omega

/-- The law holds of a fold before the report, and its condition is met. -/
theorem conserved_when_moved_before_report :
  Conserved (costMachine.final noRows [.add "issue" 5, .move "issue" "pr", .report "pr"])
    (costMachine.trace noRows [.add "issue" 5, .move "issue" "pr", .report "pr"])
  := by
  apply (conserved_iff_movesUnreported _ (by decide)).mpr
  decide

/-- The total of a key of which everything was reported is billable again under the key it was
moved to. -/
theorem not_conserved_when_moved_after_report :
  ¬Conserved (costMachine.final noRows [.add "issue" 5, .report "issue", .move "issue" "pr"])
      (costMachine.trace noRows [.add "issue" 5, .report "issue", .move "issue" "pr"])
    ∧ unreportedSessionCost
        (costMachine.final noRows [.add "issue" 5, .report "issue", .move "issue" "pr"]) "pr" = 5
  := by
  have hbalance := (accounted_final [.add "issue" 5, .report "issue", .move "issue" "pr"]
    (by decide)).balance
  have hdropped : ((costMachine.trace noRows
      [.add "issue" 5, .report "issue", .move "issue" "pr"]).map CostObs.droppedMicros).sum = 5 :=
    by decide
  constructor
  · intro h
    rw [Conserved] at h
    simp only [unreportedSessionCost_eq] at h
    omega
  · decide

end Lazybox
