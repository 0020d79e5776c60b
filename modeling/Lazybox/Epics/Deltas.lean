import Lazybox.Epics.BlockerAges
import Lazybox.Epics.CycleBlame
import Lazybox.Library.Keyed

/-!
# What changed between two snapshots

The deltas from one snapshot of an epic to the next are about the members that both have: their
statuses, one delta for each change at most, and the blockers that appeared or went away, told apart
by kind and reason.  Members that are new show in the snapshot itself.
-/

namespace Lazybox.Epics

inductive EpicDelta where
  | unblocked (key : WorkspaceKey) (because : List WorkspaceKey)
  | statusChanged (key : WorkspaceKey) (before after : EpicMemberStatus)
  | blockerAdded (key : WorkspaceKey) (blocker : Blocker)
  | blockerCleared (key : WorkspaceKey) (kind : BlockerKind) (reason : String)
  | stalled (reason : String)
  | held (key : WorkspaceKey) (preds : List WorkspaceKey)
  | released (key : WorkspaceKey)
  | completed
  | reviewed (key : WorkspaceKey) (blocking : Bool)
deriving DecidableEq, Repr

/-- The predecessors a merge is held on, if the member could be merged. -/
def heldPreds : EpicMemberStatus → Option (List WorkspaceKey)
  | .mergeable heldBy => some heldBy
  | _ => none

def isHeld (status : EpicMemberStatus) : Bool := (heldPreds status).any fun preds => !preds.isEmpty

/-- The delta of a status, one at most. -/
def statusDelta (new : EpicSnapshot) (prev m : EpicMember) : Option EpicDelta :=
  if prev.status = m.status then none
  else if prev.status = .reviewBlocked ∨ m.status = .reviewBlocked then
    some (.reviewed m.key (decide (m.status = .reviewBlocked)))
  else if prev.status = .blocked ∧ m.status ≠ .blocked then
    some (.unblocked m.key
      (prev.blockedBy.filter fun dep => new.members.any fun x => x.key = dep && x.status = .done))
  else if isHeld m.status ∧ ¬ isHeld prev.status then
    some (.held m.key ((heldPreds m.status).getD []))
  else if isHeld prev.status ∧ (heldPreds m.status).any List.isEmpty then some (.released m.key)
  else if ¬ ((heldPreds prev.status).isSome ∧ (heldPreds m.status).isSome) then
    some (.statusChanged m.key prev.status m.status)
  else none

def Blocker.identity (b : Blocker) : BlockerKind × String := (b.kind, b.reason)

/-- The blockers that appeared, then those that went away. -/
def blockerDeltas (prev m : EpicMember) : List EpicDelta :=
  ((m.blockers.filter fun b => b.identity ∉ prev.blockers.map Blocker.identity).map
    (.blockerAdded m.key ·))
    ++ (prev.blockers.filter fun b => b.identity ∉ m.blockers.map Blocker.identity).map fun b =>
      .blockerCleared m.key b.kind b.reason

def complete (s : EpicSnapshot) : Bool := 0 < s.total && s.done = s.total

/-- Work remains but no member can move. -/
def stalled (s : EpicSnapshot) : Bool :=
  if s.total = 0 ∨ s.done = s.total then false
  else !s.members.any fun m => match m.status with
    | .ready | .inProgress | .asking | .mergeable _ | .reviewBlocked => true
    | _ => false

def stalledReason (new : EpicSnapshot) : String :=
  if new.cycle then "dependency cycle" else "every remaining member is blocked"

/-- The deltas of a member. -/
def memberDeltas (old new : EpicSnapshot) (m : EpicMember) : List EpicDelta :=
  match Keyed.last (old.members.map fun m => (m.key, m)) m.key with
  | none => []
  | some prev => (statusDelta new prev m).toList ++ blockerDeltas prev m

def diff (old : Option EpicSnapshot) (new : EpicSnapshot) : List EpicDelta :=
  match old with
  | none => []
  | some old =>
      new.members.flatMap (memberDeltas old new)
        ++ (if complete new && !complete old then [.completed] else [])
        ++ if stalled new && !stalled old then [.stalled (stalledReason new)] else []

/-- Two snapshots say the same, whenever they were computed. -/
def sameStatus (a b : EpicSnapshot) : Bool := { a with computedAt := b.computedAt } = b

/-! ### What deltas do to the blockers -/

/-- The blockers of a snapshot, as the deltas name them. -/
def blockerKeys (s : EpicSnapshot) : List LatchKey :=
  s.members.flatMap fun m => m.blockers.map fun b => (m.key, b.identity)

def EpicDelta.apply (blockers : List LatchKey) : EpicDelta → List LatchKey
  | .blockerAdded key b => (key, b.identity) :: blockers
  | .blockerCleared key kind reason => blockers.filter (· ≠ (key, kind, reason))
  | _ => blockers

/-- The blockers after some deltas, one after another. -/
def applyDeltas (deltas : List EpicDelta) (blockers : List LatchKey) : List LatchKey :=
  deltas.foldl EpicDelta.apply blockers

def EpicDelta.Adds (k : LatchKey) (d : EpicDelta) : Prop :=
  ∃ b, d = .blockerAdded k.1 b ∧ b.identity = k.2

def EpicDelta.Clears (k : LatchKey) (d : EpicDelta) : Prop :=
  d = .blockerCleared k.1 k.2.1 k.2.2

theorem mem_apply {blockers : List LatchKey} {k : LatchKey} {d : EpicDelta} :
  k ∈ EpicDelta.apply blockers d ↔ d.Adds k ∨ (k ∈ blockers ∧ ¬ d.Clears k)
  := by
  obtain ⟨key, kind, reason⟩ := k
  cases d with
  | blockerAdded key' b =>
    simp only [EpicDelta.apply, EpicDelta.Adds, EpicDelta.Clears, List.mem_cons, Prod.mk.injEq,
      EpicDelta.blockerAdded.injEq, reduceCtorEq, not_false_eq_true, and_true]
    apply or_congr_left
    constructor
    · rintro ⟨rfl, hb⟩
      use b, ⟨rfl, rfl⟩, hb.symm
    · rintro ⟨_, ⟨rfl, rfl⟩, hb⟩
      exact ⟨rfl, hb.symm⟩
  | blockerCleared key' kind' reason' =>
    simp only [EpicDelta.apply, EpicDelta.Adds, EpicDelta.Clears, List.mem_filter, reduceCtorEq,
      false_and, exists_false, false_or, EpicDelta.blockerCleared.injEq, decide_eq_true_eq]
    grind
  | unblocked | statusChanged | stalled | held | released | completed | reviewed =>
    simp [EpicDelta.apply, EpicDelta.Adds, EpicDelta.Clears]

/-- Unless a blocker is both added and cleared, it is there in the end when it was added, or was
there and was not cleared. -/
theorem mem_applyDeltas {deltas : List EpicDelta} {blockers : List LatchKey} {k : LatchKey}
    (once : ∀ d ∈ deltas, ∀ d' ∈ deltas, d.Adds k → ¬ d'.Clears k) :
  k ∈ applyDeltas deltas blockers
    ↔ (∃ d ∈ deltas, d.Adds k) ∨ (k ∈ blockers ∧ ∀ d ∈ deltas, ¬ d.Clears k)
  := by
  induction deltas using List.reverseRecOn with
  | nil => simp [applyDeltas]
  | append_singleton deltas d ih =>
    have honce : ∀ d ∈ deltas, ∀ d' ∈ deltas, d.Adds k → ¬ d'.Clears k := by
      intro e he e' he'
      apply once e (List.mem_append_left _ he) e' (List.mem_append_left _ he')
    have hlast : ∀ e ∈ deltas, e.Adds k → ¬ d.Clears k := by
      intro e he
      apply once e (List.mem_append_left _ he) d (by simp)
    rw [applyDeltas, List.foldl_append, List.foldl_cons, List.foldl_nil, mem_apply,
      ← applyDeltas, ih honce]
    simp only [List.mem_append, List.mem_singleton]
    constructor
    · rintro (hd | ⟨⟨e, he, hadds⟩ | ⟨hk, hclear⟩, hd⟩)
      · exact Or.inl ⟨d, Or.inr rfl, hd⟩
      · exact Or.inl ⟨e, Or.inl he, hadds⟩
      · right
        refine ⟨hk, ?_⟩
        rintro e (he | rfl)
        · exact hclear e he
        · exact hd
    · rintro (⟨e, he | rfl, hadds⟩ | ⟨hk, hclear⟩)
      · exact Or.inr ⟨Or.inl ⟨e, he, hadds⟩, hlast e he hadds⟩
      · exact Or.inl hadds
      · right
        exact ⟨Or.inr ⟨hk, fun e he => hclear e (Or.inl he)⟩, hclear d (Or.inr rfl)⟩

/-! ### The status of a member -/

theorem isHeld_iff {status : EpicMemberStatus} :
  isHeld status = true ↔ ∃ preds, status = .mergeable preds ∧ preds ≠ []
  := by
  cases status with
  | mergeable preds => simp [isHeld, heldPreds]
  | _ => simp [isHeld, heldPreds]

variable {prev m : EpicMember}

theorem statusDelta_self (new : EpicSnapshot) (h : prev.status = m.status) :
  statusDelta new prev m = none
  := by
  rw [statusDelta, if_pos h]

/-- What a member that was held, and no longer is, is reported as. -/
def releaseDelta (prev m : EpicMember) : EpicDelta :=
  if m.status = .mergeable [] then .released m.key
  else if m.status = .reviewBlocked then .reviewed m.key true
  else .statusChanged m.key prev.status m.status

/-- What a member that was not held, and now is, is reported as. -/
def holdDelta (new : EpicSnapshot) (prev m : EpicMember) (preds : List WorkspaceKey) : EpicDelta :=
  if prev.status = .reviewBlocked then .reviewed m.key false
  else if prev.status = .blocked then
    .unblocked m.key
      (prev.blockedBy.filter fun dep => new.members.any fun x => x.key = dep && x.status = .done)
  else .held m.key preds

variable {new : EpicSnapshot}

theorem statusDelta_of_released (hprev : isHeld prev.status = true)
    (hm : ¬ isHeld m.status = true) :
  statusDelta new prev m = some (releaseDelta prev m)
  := by
  obtain ⟨preds, hpreds, hne⟩ := isHeld_iff.mp hprev
  cases hstatus : m.status with
  | mergeable heldBy =>
    obtain rfl : heldBy = [] := by
      by_contra hheld
      apply hm (isHeld_iff.mpr ⟨heldBy, hstatus, hheld⟩)
    simp [statusDelta, releaseDelta, hpreds, hstatus, isHeld, heldPreds, hne]
  | _ => simp [statusDelta, releaseDelta, hpreds, hstatus, isHeld, heldPreds]

theorem statusDelta_of_held {preds : List WorkspaceKey} (hprev : ¬ isHeld prev.status = true)
    (hm : m.status = .mergeable preds) (hne : preds ≠ []) :
  statusDelta new prev m = some (holdDelta new prev m preds)
  := by
  cases hstatus : prev.status with
  | mergeable heldBy =>
    obtain rfl : heldBy = [] := by
      by_contra hheld
      apply hprev (isHeld_iff.mpr ⟨heldBy, hstatus, hheld⟩)
    simp [statusDelta, holdDelta, hm, hstatus, isHeld, heldPreds, hne, Ne.symm hne]
  | _ => simp [statusDelta, holdDelta, hm, hstatus, isHeld, heldPreds, hne]

theorem statusDelta_eq_released {key : WorkspaceKey} :
  statusDelta new prev m = some (.released key)
    ↔ m.key = key ∧ isHeld prev.status = true ∧ m.status = .mergeable []
  := by
  constructor
  · intro h
    simp only [statusDelta, ite_eq_iff, reduceCtorEq, Option.some.injEq, EpicDelta.released.injEq,
      and_false, false_or, or_false] at h
    obtain ⟨-, -, -, -, ⟨hprev, hempty⟩, hkey⟩ := h
    refine ⟨hkey, hprev, ?_⟩
    cases hstatus : m.status with
    | mergeable heldBy => simpa [hstatus, heldPreds] using hempty
    | _ => simp [hstatus, heldPreds] at hempty
  · rintro ⟨rfl, hprev, hm⟩
    rw [statusDelta_of_released hprev (by simp [hm, isHeld, heldPreds]), releaseDelta, if_pos hm]

theorem statusDelta_eq_held {key : WorkspaceKey} {preds : List WorkspaceKey} :
  statusDelta new prev m = some (.held key preds)
    ↔ m.key = key ∧ m.status = .mergeable preds ∧ preds ≠ [] ∧ ¬ isHeld prev.status = true
      ∧ prev.status ≠ .blocked ∧ prev.status ≠ .reviewBlocked
  := by
  constructor
  · intro h
    simp only [statusDelta, ite_eq_iff, reduceCtorEq, Option.some.injEq, EpicDelta.held.injEq,
      and_false, false_or, or_false] at h
    obtain ⟨-, hreview, hblocked, ⟨hm, hprev⟩, hkey, hpreds⟩ := h
    obtain ⟨heldBy, hstatus, hne⟩ := isHeld_iff.mp hm
    rw [hstatus] at hpreds hblocked
    obtain rfl : heldBy = preds := hpreds
    rw [not_or] at hreview
    refine ⟨hkey, hstatus, hne, hprev, ?_, hreview.1⟩
    intro hprevBlocked
    apply hblocked
    simp [hprevBlocked]
  · rintro ⟨rfl, hm, hne, hprev, hblocked, hreview⟩
    rw [statusDelta_of_held hprev hm hne, holdDelta, if_neg hreview, if_neg hblocked]

/-- The delta of a status is not about blockers. -/
theorem not_adds_or_clears_of_statusDelta {d : EpicDelta} (h : statusDelta new prev m = some d)
    (k : LatchKey) :
  ¬ d.Adds k ∧ ¬ d.Clears k
  := by
  cases d with
  | blockerAdded key b =>
    simp [statusDelta, ite_eq_iff] at h
  | blockerCleared key kind reason =>
    simp [statusDelta, ite_eq_iff] at h
  | _ => simp [EpicDelta.Adds, EpicDelta.Clears]

theorem mem_blockerDeltas {k : LatchKey} :
  ((∃ d ∈ blockerDeltas prev m, d.Adds k)
      ↔ m.key = k.1 ∧ k.2 ∈ m.blockers.map Blocker.identity
        ∧ k.2 ∉ prev.blockers.map Blocker.identity)
    ∧ ((∃ d ∈ blockerDeltas prev m, d.Clears k)
      ↔ m.key = k.1 ∧ k.2 ∈ prev.blockers.map Blocker.identity
        ∧ k.2 ∉ m.blockers.map Blocker.identity)
  := by
  obtain ⟨key, kind, reason⟩ := k
  simp only [blockerDeltas, List.mem_append, List.mem_map, List.mem_filter, decide_eq_true_eq]
  constructor
  · constructor
    · rintro ⟨d, ⟨b, ⟨hb, hnew⟩, rfl⟩ | ⟨b, -, rfl⟩, b', hadds, hb'⟩
      · cases hadds
        have hid : b.identity = (kind, reason) := hb'
        rw [← hid]
        exact ⟨rfl, ⟨b, hb, rfl⟩, hnew⟩
      · cases hadds
    · rintro ⟨rfl, ⟨b, hb, hid⟩, hnew⟩
      rw [← hid] at hnew
      exact ⟨_, Or.inl ⟨b, ⟨hb, hnew⟩, rfl⟩, b, rfl, hid⟩
  · constructor
    · rintro ⟨d, ⟨b, -, rfl⟩ | ⟨b, ⟨hb, hgone⟩, rfl⟩, hclears⟩
      · cases hclears
      · cases hclears
        exact ⟨rfl, ⟨b, hb, rfl⟩, hgone⟩
    · rintro ⟨rfl, ⟨b, hb, hid⟩, hgone⟩
      cases hid
      exact ⟨_, Or.inr ⟨b, ⟨hb, hgone⟩, rfl⟩, rfl⟩

/-! ### The deltas of two snapshots -/

section Diff

variable {old new : EpicSnapshot}

theorem last_members_eq_some (distinct : (old.members.map EpicMember.key).Nodup)
    {key : WorkspaceKey} {prev : EpicMember} :
  Keyed.last (old.members.map fun m => (m.key, m)) key = some prev
    ↔ prev ∈ old.members ∧ prev.key = key
  := Keyed.last_map_eq_some_iff distinct

theorem mem_diff {d : EpicDelta} (distinct : (old.members.map EpicMember.key).Nodup)
    (hcompleted : d ≠ .completed) (hstalled : d ≠ .stalled (stalledReason new)) :
  d ∈ diff (some old) new
    ↔ ∃ prev ∈ old.members, ∃ m ∈ new.members, prev.key = m.key
      ∧ (statusDelta new prev m = some d ∨ d ∈ blockerDeltas prev m)
  := by
  have htail : d ∈ diff (some old) new ↔ ∃ m ∈ new.members, d ∈ memberDeltas old new m := by
    rw [diff, List.mem_append, List.mem_append, List.mem_flatMap]
    constructor
    · rintro ((h | h) | h)
      · exact h
      · split at h
        · exact absurd (List.mem_singleton.mp h) hcompleted
        · cases h
      · split at h
        · exact absurd (List.mem_singleton.mp h) hstalled
        · cases h
    · intro h
      exact Or.inl (Or.inl h)
  rw [htail]
  constructor
  · rintro ⟨m, hm, hd⟩
    rw [memberDeltas] at hd
    cases hprev : Keyed.last (old.members.map fun m => (m.key, m)) m.key with
    | none =>
      rw [hprev] at hd
      cases hd
    | some prev =>
      rw [hprev, List.mem_append, Option.mem_toList] at hd
      obtain ⟨hmem, hkey⟩ := (last_members_eq_some distinct).mp hprev
      exact ⟨prev, hmem, m, hm, hkey, hd⟩
  · rintro ⟨prev, hprev, m, hm, hkey, hd⟩
    refine ⟨m, hm, ?_⟩
    rw [memberDeltas, (last_members_eq_some distinct).mpr ⟨hprev, hkey⟩, List.mem_append,
      Option.mem_toList]
    exact hd

/-- The delta of a member's status is among the deltas. -/
theorem mem_diff_of_statusDelta (distinct : (old.members.map EpicMember.key).Nodup)
    {d : EpicDelta} {prev m : EpicMember} (hprev : prev ∈ old.members) (hm : m ∈ new.members)
    (hkey : prev.key = m.key) (hd : statusDelta new prev m = some d) :
  d ∈ diff (some old) new
  := by
  rw [mem_diff distinct]
  · exact ⟨prev, hprev, m, hm, hkey, Or.inl hd⟩
  · rintro rfl
    simp [statusDelta, ite_eq_iff] at hd
  · rintro rfl
    simp [statusDelta, ite_eq_iff] at hd

variable {k : LatchKey}

theorem mem_blockerKeys {s : EpicSnapshot} :
  k ∈ blockerKeys s
    ↔ ∃ m ∈ s.members, m.key = k.1 ∧ k.2 ∈ m.blockers.map Blocker.identity
  := by
  obtain ⟨key, identity⟩ := k
  simp only [blockerKeys, List.mem_flatMap, List.mem_map, Prod.mk.injEq]
  constructor
  · rintro ⟨m, hm, b, hb, rfl, rfl⟩
    exact ⟨m, hm, rfl, b, hb, rfl⟩
  · rintro ⟨m, hm, rfl, b, hb, rfl⟩
    exact ⟨m, hm, b, hb, rfl, rfl⟩

/-- Which blockers the deltas add, and which they clear. -/
theorem mem_diff_blockers (distinct : (old.members.map EpicMember.key).Nodup) :
  ((∃ d ∈ diff (some old) new, d.Adds k)
      ↔ ∃ prev ∈ old.members, ∃ m ∈ new.members, prev.key = m.key ∧ m.key = k.1
        ∧ k.2 ∈ m.blockers.map Blocker.identity ∧ k.2 ∉ prev.blockers.map Blocker.identity)
    ∧ ((∃ d ∈ diff (some old) new, d.Clears k)
      ↔ ∃ prev ∈ old.members, ∃ m ∈ new.members, prev.key = m.key ∧ m.key = k.1
        ∧ k.2 ∈ prev.blockers.map Blocker.identity ∧ k.2 ∉ m.blockers.map Blocker.identity)
  := by
  constructor
  · constructor
    · rintro ⟨d, hd, hadds⟩
      rw [mem_diff distinct (by rintro rfl; obtain ⟨b, hb, -⟩ := hadds; cases hb)
        (by rintro rfl; obtain ⟨b, hb, -⟩ := hadds; cases hb)] at hd
      obtain ⟨prev, hprev, m, hm, hkey, hstatus | hblocker⟩ := hd
      · exact absurd hadds (not_adds_or_clears_of_statusDelta hstatus k).1
      · exact ⟨prev, hprev, m, hm, hkey, mem_blockerDeltas.1.mp ⟨d, hblocker, hadds⟩⟩
    · rintro ⟨prev, hprev, m, hm, hkey, hadded⟩
      obtain ⟨d, hd, hadds⟩ := mem_blockerDeltas.1.mpr hadded
      refine ⟨d, ?_, hadds⟩
      rw [mem_diff distinct (by rintro rfl; obtain ⟨b, hb, -⟩ := hadds; cases hb)
        (by rintro rfl; obtain ⟨b, hb, -⟩ := hadds; cases hb)]
      exact ⟨prev, hprev, m, hm, hkey, Or.inr hd⟩
  · constructor
    · rintro ⟨d, hd, rfl⟩
      rw [mem_diff distinct (by simp) (by simp)] at hd
      obtain ⟨prev, hprev, m, hm, hkey, hstatus | hblocker⟩ := hd
      · exact absurd rfl (not_adds_or_clears_of_statusDelta hstatus k).2
      · exact ⟨prev, hprev, m, hm, hkey, mem_blockerDeltas.2.mp ⟨_, hblocker, rfl⟩⟩
    · rintro ⟨prev, hprev, m, hm, hkey, hcleared⟩
      obtain ⟨d, hd, rfl⟩ := mem_blockerDeltas.2.mpr hcleared
      refine ⟨_, ?_, rfl⟩
      rw [mem_diff distinct (by simp) (by simp)]
      exact ⟨prev, hprev, m, hm, hkey, Or.inr hd⟩

/-- Where the keys are distinct, a member has the blockers of its key. -/
theorem mem_blockerKeys_of_mem {s : EpicSnapshot} (distinct : (s.members.map EpicMember.key).Nodup)
    {m : EpicMember} (hm : m ∈ s.members) (hkey : m.key = k.1) :
  k ∈ blockerKeys s ↔ k.2 ∈ m.blockers.map Blocker.identity
  := by
  rw [mem_blockerKeys]
  constructor
  · rintro ⟨p, hp, hpkey, hin⟩
    obtain rfl := List.inj_on_of_nodup_map distinct hp hm (hpkey.trans hkey.symm)
    exact hin
  · intro hin
    exact ⟨m, hm, hkey, hin⟩

/-- Where the keys are distinct, a key has one member in each of two snapshots. -/
theorem exists_pair_iff (distinct : (old.members.map EpicMember.key).Nodup)
    (distinct' : (new.members.map EpicMember.key).Nodup) {prev m : EpicMember}
    (hprev : prev ∈ old.members) (hm : m ∈ new.members) {key : WorkspaceKey}
    (hprevkey : prev.key = key) (hmkey : m.key = key) {P : EpicMember → EpicMember → Prop} :
  (∃ p ∈ old.members, ∃ q ∈ new.members, p.key = q.key ∧ q.key = key ∧ P p q) ↔ P prev m
  := by
  constructor
  · rintro ⟨p, hp, q, hq, hpq, hqkey, h⟩
    obtain rfl :=
      List.inj_on_of_nodup_map distinct hp hprev (hpq.trans (hqkey.trans hprevkey.symm))
    obtain rfl := List.inj_on_of_nodup_map distinct' hq hm (hqkey.trans hmkey.symm)
    exact h
  · intro h
    exact ⟨prev, hprev, m, hm, hprevkey.trans hmkey.symm, hmkey, h⟩

/-- After the deltas, the blockers of a member that both snapshots have are those of the new one,
and the others are as they were. -/
theorem mem_applyDeltas_diff (distinct : (old.members.map EpicMember.key).Nodup)
    (distinct' : (new.members.map EpicMember.key).Nodup) :
  k ∈ applyDeltas (diff (some old) new) (blockerKeys old)
    ↔ if k.1 ∈ old.members.map EpicMember.key ∧ k.1 ∈ new.members.map EpicMember.key then
        k ∈ blockerKeys new
      else k ∈ blockerKeys old
  := by
  obtain ⟨hadds, hclears⟩ : ((∃ d ∈ diff (some old) new, d.Adds k) ↔ _)
      ∧ ((∃ d ∈ diff (some old) new, d.Clears k) ↔ _) := mem_diff_blockers distinct
  have honce : ∀ d ∈ diff (some old) new, ∀ d' ∈ diff (some old) new,
      d.Adds k → ¬ d'.Clears k := by
    intro d hd d' hd' hadd hclear
    obtain ⟨prev, -, m, hm, -, hkey, hnew, -⟩ := hadds.mp ⟨d, hd, hadd⟩
    obtain ⟨prev', -, m', hm', -, hkey', -, hgone⟩ := hclears.mp ⟨d', hd', hclear⟩
    rw [List.inj_on_of_nodup_map distinct' hm hm' (hkey.trans hkey'.symm)] at hnew
    apply hgone hnew
  have hnone : (∀ d ∈ diff (some old) new, ¬ d.Clears k)
      ↔ ¬ ∃ d ∈ diff (some old) new, d.Clears k := by push Not; rfl
  rw [mem_applyDeltas honce, hnone, hadds, hclears]
  split
  · next hboth =>
      obtain ⟨hold, hnew⟩ := hboth
      obtain ⟨prev, hprev, hprevkey⟩ := List.mem_map.mp hold
      obtain ⟨m, hm, hmkey⟩ := List.mem_map.mp hnew
      rw [mem_blockerKeys_of_mem distinct hprev hprevkey,
        mem_blockerKeys_of_mem distinct' hm hmkey,
        exists_pair_iff distinct distinct' hprev hm hprevkey hmkey,
        exists_pair_iff distinct distinct' hprev hm hprevkey hmkey]
      tauto
  · next hone =>
      have hpair : ∀ p ∈ old.members, ∀ q ∈ new.members, p.key = q.key → q.key ≠ k.1 := by
        intro p hp q hq hpq hqkey
        apply hone
        rw [← hqkey]
        exact ⟨List.mem_map.mpr ⟨p, hp, hpq⟩, List.mem_map_of_mem hq⟩
      constructor
      · rintro (⟨p, hp, q, hq, hpq, hqkey, -⟩ | ⟨hk, -⟩)
        · exact absurd hqkey (hpair p hp q hq hpq)
        · exact hk
      · intro hk
        right
        refine ⟨hk, ?_⟩
        rintro ⟨p, hp, q, hq, hpq, hqkey, -⟩
        apply hpair p hp q hq hpq hqkey

/-- Snapshots that say the same have no deltas. -/
theorem diff_of_sameStatus (distinct : (old.members.map EpicMember.key).Nodup)
    (h : sameStatus old new = true) :
  diff (some old) new = []
  := by
  rw [sameStatus, decide_eq_true_eq] at h
  have hmembers : new.members = old.members := by rw [← h]
  have hcomplete : complete new = complete old := by rw [← h]; rfl
  have hstalled : stalled new = stalled old := by rw [← h]; rfl
  have hnothing : ∀ m ∈ new.members, memberDeltas old new m = [] := by
    intro m hm
    rw [hmembers] at hm
    have hself : blockerDeltas m m = [] := by
      rw [blockerDeltas, List.append_eq_nil_iff, List.map_eq_nil_iff, List.map_eq_nil_iff,
        List.filter_eq_nil_iff]
      simp only [decide_eq_true_eq, not_not]
      exact ⟨fun b hb => List.mem_map_of_mem hb, fun b hb => List.mem_map_of_mem hb⟩
    rw [memberDeltas, (last_members_eq_some distinct).mpr ⟨hm, rfl⟩]
    dsimp only
    rw [statusDelta_self new rfl, hself]
    rfl
  rw [diff, List.flatMap_eq_nil_iff.mpr hnothing, hcomplete, hstalled]
  simp

/-- A snapshot's deltas, as far as they are about blockers and about what holds a merge.  The first
snapshot has none. -/
theorem diff_describes (distinct : (old.members.map EpicMember.key).Nodup)
    (distinct' : (new.members.map EpicMember.key).Nodup) :
  (∀ k, k ∈ applyDeltas (diff (some old) new) (blockerKeys old)
      ↔ if k.1 ∈ old.members.map EpicMember.key ∧ k.1 ∈ new.members.map EpicMember.key then
          k ∈ blockerKeys new
        else k ∈ blockerKeys old)
    ∧ (∀ prev ∈ old.members, ∀ m ∈ new.members, prev.key = m.key →
      (isHeld prev.status = true → ¬ isHeld m.status = true →
          releaseDelta prev m ∈ diff (some old) new)
        ∧ ∀ preds, ¬ isHeld prev.status = true → m.status = .mergeable preds → preds ≠ [] →
          holdDelta new prev m preds ∈ diff (some old) new)
    ∧ (∀ key, .released key ∈ diff (some old) new
      ↔ ∃ prev ∈ old.members, ∃ m ∈ new.members, prev.key = m.key ∧ m.key = key
        ∧ isHeld prev.status = true ∧ m.status = .mergeable [])
    ∧ (∀ key preds, .held key preds ∈ diff (some old) new
      ↔ ∃ prev ∈ old.members, ∃ m ∈ new.members, prev.key = m.key ∧ m.key = key
        ∧ m.status = .mergeable preds ∧ preds ≠ [] ∧ ¬ isHeld prev.status = true
        ∧ prev.status ≠ .blocked ∧ prev.status ≠ .reviewBlocked)
    ∧ diff (some old) old = []
  := by
  refine ⟨fun k => mem_applyDeltas_diff distinct distinct', ?_, ?_, ?_, ?_⟩
  · intro prev hprev m hm hkey
    constructor
    · intro hheld hreleased
      apply mem_diff_of_statusDelta distinct hprev hm hkey
      apply statusDelta_of_released hheld hreleased
    · intro preds hfree hstatus hne
      apply mem_diff_of_statusDelta distinct hprev hm hkey
      apply statusDelta_of_held hfree hstatus hne
  · intro key
    rw [mem_diff distinct (by simp) (by simp)]
    simp [statusDelta_eq_released, blockerDeltas]
  · intro key preds
    rw [mem_diff distinct (by simp) (by simp)]
    simp [statusDelta_eq_held, blockerDeltas]
  · apply diff_of_sameStatus distinct
    rw [sameStatus, decide_eq_true_eq]

end Diff

/-! ### Snapshots of an epic -/

/-- The resolver makes one member for each key. -/
theorem nodup_members_resolve (i : Inputs) (latch : SinceLatch) (now : ℤ) :
  ((i.resolve latch now).1.members.map EpicMember.key).Nodup
  := by
  have hsort := (List.perm_insertionSort (fun a b : EpicMember =>
    toLex (a.wave, a.key.asStr) ≤ toLex (b.wave, b.key.asStr))
      (i.resolveMembers now i.resolved.members ⟨latch, []⟩).1).map EpicMember.key
  apply hsort.nodup_iff.mpr
  rw [(i.resolveMembers_spec now i.resolved.members ⟨latch, []⟩).1]
  have hkeys : ∀ keys : List WorkspaceKey,
      ((keys.flatMap fun key => ((i.resolved.byKey key).map
        (i.member key · (i.blockersAt (fun k => (latch k).getD now) key))).toList).map
          EpicMember.key).Sublist keys := by
    intro keys
    induction keys with
    | nil => exact List.Sublist.refl []
    | cons key keys ih =>
      rw [List.flatMap_cons, List.map_append]
      cases i.resolved.byKey key with
      | none => exact ih.cons key
      | some ws => exact ih.cons_cons key
  apply (hkeys i.resolved.members).nodup
  apply (isGraph_resolvedGraph i.record i.workspaces).nodup

/-- An epic with a pull request, and one that is to land after it. -/
def twoPrs (members : List WorkspaceKey) (ci : CiStatus) (blockedOn : Option String)
    (reviewBlocking : List WorkspaceKey) : Inputs where
  record := ⟨"epic", "epic", none, members, true⟩
  workspaces := [
    ⟨⟨"a"⟩, "a", some (pullRequest .opened "1" []), [], []⟩,
    ⟨⟨"b"⟩, "b", some { pullRequest .opened "2" [] with
      mergeAfter := [⟨"github", "1"⟩], ci := ci, mergeable := .mergeable, blockedOn := blockedOn },
      [], []⟩]
  agentStates := fun _ => none
  declared := fun _ => none
  latches := ⟨fun _ => none, reviewBlocking⟩

def snapshotOf (i : Inputs) : EpicSnapshot := (i.resolve (fun _ => none) 0).1

/-- A member joins with a blocker; a held one was blocked by a review before; and one that was held
fails its checks. -/
theorem diff_not_complete :
  let alone := snapshotOf (twoPrs [⟨"a"⟩] .success (some "legal") [])
  let joined := snapshotOf (twoPrs [⟨"a"⟩, ⟨"b"⟩] .success (some "legal") [])
  let reviewed := snapshotOf (twoPrs [⟨"a"⟩, ⟨"b"⟩] .success none [⟨"b"⟩])
  let green := snapshotOf (twoPrs [⟨"a"⟩, ⟨"b"⟩] .success none [])
  let failing := snapshotOf (twoPrs [⟨"a"⟩, ⟨"b"⟩] .failure none [])
  ((⟨"b"⟩, BlockerKind.decision, "legal") ∈ blockerKeys joined
      ∧ (⟨"b"⟩, BlockerKind.decision, "legal")
        ∉ applyDeltas (diff (some alone) joined) (blockerKeys alone))
    ∧ ((∃ m ∈ green.members, m.key = ⟨"b"⟩ ∧ isHeld m.status = true)
      ∧ diff (some reviewed) green = [.reviewed ⟨"b"⟩ false])
    ∧ (∃ m ∈ failing.members, m.key = ⟨"b"⟩ ∧ isHeld m.status = false)
    ∧ .released ⟨"b"⟩ ∉ diff (some green) failing
  := by
  decide +kernel

theorem diff_describes_twoPrs :
  let old := snapshotOf (twoPrs [⟨"a"⟩, ⟨"b"⟩] .failure none [])
  let new := snapshotOf (twoPrs [⟨"a"⟩, ⟨"b"⟩] .success (some "legal") [])
  (∀ k, k ∈ applyDeltas (diff (some old) new) (blockerKeys old)
    ↔ if k.1 ∈ old.members.map EpicMember.key ∧ k.1 ∈ new.members.map EpicMember.key then
        k ∈ blockerKeys new
      else k ∈ blockerKeys old)
    ∧ diff (some old) old = []
  := by
  intro old new
  have hdescribes :=
    diff_describes (nodup_members_resolve _ _ _ : (old.members.map EpicMember.key).Nodup)
      (nodup_members_resolve _ _ _ : (new.members.map EpicMember.key).Nodup)
  exact ⟨hdescribes.1, hdescribes.2.2.2.2⟩

end Lazybox.Epics
