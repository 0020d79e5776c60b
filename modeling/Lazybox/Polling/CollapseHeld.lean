import Lazybox.Polling.CollapseLocks

/-!
# A collapse absorbs the rows it holds

Between its load and its deletion, a row that is absorbed must not be changed by anyone else, or
the change is lost; and a row that was deleted must not be written back.  Both follow when an
operation holds the lock of every row it absorbs.  It does when each of these rows was a
candidate already in one of the scans that its locks were planned from.
-/

universe u

namespace Lazybox.Collapse

namespace Rows

variable {V : Type u} (rows : Rows V)

theorem record_saveWorkspace (ws : Workspace V) (key : String) :
  (rows.saveWorkspace ws).record key = if ws.key = key then some (.decoded ws) else rows.record key
  := by
  rw [record, saveWorkspace, Keyed.lookup_cons, Keyed.lookup_erase]
  by_cases h : ws.key = key
  · rw [if_pos h, WorkspaceRecord.key, if_pos h]
  · rw [if_neg h, WorkspaceRecord.key, if_neg h, if_neg fun h' => h h'.symm, record]

theorem record_deleteWorkspaces (keys : List String) (key : String) :
  (rows.deleteWorkspaces keys).record key = if key ∈ keys then none else rows.record key
  := by
  rw [deleteWorkspaces, ← Keyed.foldl_erase]
  induction keys generalizing rows with
  | nil => rw [List.foldl_nil, if_neg List.not_mem_nil]
  | cons deleted keys ih =>
    rw [List.foldl_cons, ih, record, Keyed.lookup_erase]
    by_cases h : key = deleted
    · simp [h]
    · simp [h, record]

theorem loadWorkspace_eq_some {key : String} {answers : Bool} {ws : Workspace V}
    (h : rows.loadWorkspace answers key = some ws) :
  rows.workspace key = some ws
  := by
  cases answers with
  | true => apply h
  | false => cases h

theorem isSome_record {key : String} {ws : Workspace V} (h : rows.workspace key = some ws) :
  (rows.record key).isSome
  := by
  obtain ⟨record, hrecord, -⟩ := Option.bind_eq_some_iff.mp h
  rw [hrecord, Option.isSome_some]

end Rows

namespace Plan

variable {V : Type u} {plan : Plan V}

/-- Before it has any lock, an operation plans for its own row and for the candidates of the pull
request it was given. -/
theorem first_covers (job : Job) (listing : Listing V) (key : String) :
  key ∈ (first job listing).keys ↔ (first job listing).Covers key
  := by
  rw [first]
  split
  · simp [Covers]
  · simp [Covers]

theorem first_nodup (job : Job) (listing : Listing V) :
  (first job listing).keys.Nodup
  := by
  rw [first]
  split
  · apply nodup_ordered
  · apply nodup_ordered

/-- The candidates of the pull request that is stored are planned for with the others. -/
theorem required_covers (covers : ∀ key, key ∈ plan.keys ↔ plan.Covers key)
    (stored : Option (Workspace V)) (listing : Listing V) (key : String) :
  key ∈ (plan.required stored listing).keys ↔ (plan.required stored listing).Covers key
  := by
  rw [required]
  split
  · simp only [mem_ordered, List.mem_append, covers, Covers, List.mem_cons, exists_eq_or_imp]
    rw [or_assoc, or_comm (a := ∃ scan ∈ plan.scans, _)]
  · apply covers

/-- Locks are taken again only when there are more of them. -/
theorem required_nodup {stored : Option (Workspace V)} {listing : Listing V}
    (h : (plan.required stored listing).keys ≠ plan.keys) :
  (plan.required stored listing).keys.Nodup
  := by
  rw [required] at h ⊢
  split at h
  · apply nodup_ordered
  · exact absurd rfl h

end Plan

namespace Stage

variable {V : Type u}

/-- The row that a change has loaded. -/
def edited : Stage V → Option String
  | .editing key _ => some key
  | .idle | .acquiring _ _ | .guarded _ | .loaded _ _ | .merging _ _ _ _ | .holding _
  | .allocated _ => none

/-- A change has the lock of the row it has loaded. -/
theorem held_of_edited {stage : Stage V} {key : String} (h : key ∈ stage.edited) :
  key ∈ stage.held
  := by
  cases stage with
  | editing key' ws =>
    cases h
    simp [held]
  | idle | acquiring | guarded | loaded | merging | holding | allocated => cases h

/-- The locks an operation has yet to take are locks of its plan, each of them once. -/
def Tidy : Stage V → Prop
  | .acquiring plan left => left.Nodup ∧ left ⊆ plan.keys
  | .idle | .guarded _ | .loaded _ _ | .merging _ _ _ _ | .holding _ | .editing _ _
  | .allocated _ => True

end Stage

namespace State

variable {V : Type u}

/-! ### What is claimed of a step, and when it holds -/

/-- The row of a key is not one that another operation has absorbed and has yet to delete. -/
def Unabsorbed (s : State V) (t : ℕ) (key : String) : Prop :=
  ∀ u, u ≠ t → ∀ a ∈ (s.stage u).absorbed, a.1 ≠ key

/-- The row that a visit absorbs, and its key. -/
def absorbs (s : State V) (t : ℕ) (answers folds : Bool) : Option (String × Workspace V) :=
  match s.stage t with
  | .merging _ ws (key :: _) _ => (s.issueAt ws key answers folds).map fun issue => (key, issue)
  | _ => none

/-- A row is absorbed by an operation that has its lock.  When it is deleted, the operation still
has its lock, and the row is as it was absorbed.  Meanwhile it is not written by anyone else.  A
row that a change has loaded is there when the change is written. -/
def Kept (s : State V) : Act V → Prop
  | .visit t answers folds => ∀ a ∈ s.absorbs t answers folds, s.owner a.1 = some t
  | .commit t true =>
      match s.stage t with
      | .merging _ ws [] absorbed =>
          s.Unabsorbed t ws.key
            ∧ ∀ a ∈ absorbed, s.owner a.1 = some t ∧ s.rows.workspace a.1 = some a.2
      | _ => True
  | .write t _ =>
      match s.stage t with
      | .editing key _ => s.Unabsorbed t key ∧ (s.rows.record key).isSome
      | _ => True
  | .create t _ =>
      match s.stage t with
      | .allocated key => s.Unabsorbed t key
      | _ => True
  | _ => True

/-- A row is absorbed only if the operation planned for it: if it was a candidate in a scan that
its locks were planned from.  What is written without the lock of its row, by a creation or by an
upsert that builds the workspace of another key than its own, is not a row that an operation has
absorbed and has yet to delete. -/
def Planned (s : State V) : Act V → Prop
  | .visit t answers folds =>
      ∀ a ∈ s.absorbs t answers folds, ∀ plan ∈ (s.stage t).plan, plan.Covers a.1
  | .commit t true =>
      match s.stage t with
      | .merging plan ws [] _ => ws.key ≠ plan.job.key → s.Unabsorbed t ws.key
      | _ => True
  | .create t _ =>
      match s.stage t with
      | .allocated key => s.Unabsorbed t key
      | _ => True
  | _ => True

/-! ### The invariant -/

/-- What holds of a task in its stage.  It has the locks its stage says; a plan has the keys its
scans cover; a row that is absorbed is held, and as it was absorbed; a row that is being changed
is there. -/
structure Steady (s : State V) (t : ℕ) (stage : Stage V) : Prop where
  owns : ∀ key, s.owner key = some t ↔ key ∈ stage.held
  tidy : stage.Tidy
  covers : ∀ plan ∈ stage.plan, ∀ key, key ∈ plan.keys ↔ plan.Covers key
  kept : ∀ a ∈ stage.absorbed, a.1 ∈ stage.held ∧ s.rows.workspace a.1 = some a.2
  present : ∀ key ∈ stage.edited, (s.rows.record key).isSome

def Inv (s : State V) : Prop := ∀ t, s.Steady t (s.stage t)

variable {stage : Stage V}

/-- A task that has absorbed no row, and has loaded none to change it. -/
theorem Steady.plain {s : State V} {t : ℕ} (owns : ∀ key, s.owner key = some t ↔ key ∈ stage.held)
    (tidy : stage.Tidy) (covers : ∀ plan ∈ stage.plan, ∀ key, key ∈ plan.keys ↔ plan.Covers key)
    (absorbed : stage.absorbed = []) (edited : stage.edited = none) :
  s.Steady t stage
  := by
  constructor
  · apply owns
  · apply tidy
  · apply covers
  · intro a ha
    rw [absorbed] at ha
    cases ha
  · intro key hkey
    rw [edited] at hkey
    cases hkey

/-- Rows that are written spare the other tasks: those they have absorbed are as they were, and
those they are changing are there. -/
def Spares (s : State V) (t : ℕ) (rows : Rows V) : Prop :=
  ∀ u, u ≠ t →
    (∀ a ∈ (s.stage u).absorbed, rows.workspace a.1 = s.rows.workspace a.1)
      ∧ ∀ key ∈ (s.stage u).edited, (s.rows.record key).isSome → (rows.record key).isSome

variable {s s' : State V} {t : ℕ}

theorem spares_rows :
  s.Spares t s.rows
  := by
  intro u _
  constructor
  · intro a _
    rfl
  · intro key _ h
    apply h

/-- Saving a row that no other operation has absorbed spares them. -/
theorem spares_saveWorkspace {ws : Workspace V} (h : s.Unabsorbed t ws.key) :
  s.Spares t (s.rows.saveWorkspace ws)
  := by
  intro u hu
  constructor
  · intro a ha
    rw [Rows.workspace, Rows.record_saveWorkspace, if_neg fun hkey => h u hu a ha hkey.symm]
    rfl
  · intro key _ hpresent
    rw [Rows.record_saveWorkspace]
    split
    · rfl
    · apply hpresent

/-- The rows whose locks a task has are not those of another. -/
theorem Inv.unabsorbed (inv : s.Inv) {key : String} (h : s.owner key = some t) :
  s.Unabsorbed t key
  := by
  rintro u hu a ha rfl
  have howner := ((inv u).owns a.1).mpr ((inv u).kept a ha).1
  rw [h, Option.some.injEq] at howner
  apply hu howner.symm

/-- Deleting rows whose locks a task has spares the others. -/
theorem Inv.spares_deleteWorkspaces (inv : s.Inv) {rows : Rows V} (spares : s.Spares t rows)
    {keys : List String} (h : ∀ key ∈ keys, s.owner key = some t) :
  s.Spares t (rows.deleteWorkspaces keys)
  := by
  intro u hu
  obtain ⟨hrows, hpresent⟩ := spares u hu
  have hother : ∀ key ∈ (s.stage u).held, key ∉ keys := by
    intro key hheld hkey
    rw [← (inv u).owns, h key hkey, Option.some.injEq] at hheld
    apply hu hheld.symm
  constructor
  · intro a ha
    rw [← hrows a ha, Rows.workspace, Rows.record_deleteWorkspaces, if_neg, Rows.workspace]
    apply hother
    apply ((inv u).kept a ha).1
  · intro key hkey h
    rw [Rows.record_deleteWorkspaces, if_neg]
    · apply hpresent key hkey h
    · apply hother
      apply Stage.held_of_edited hkey

/-- The invariant is kept when one task moves on, and what it writes spares the others. -/
theorem Inv.moves (inv : s.Inv) (stage : ∀ u, u ≠ t → s'.stage u = s.stage u)
    (owner : ∀ u, u ≠ t → ∀ key, s'.owner key = some u ↔ s.owner key = some u)
    (spares : s.Spares t s'.rows) (own : s'.Steady t (s'.stage t)) :
  s'.Inv
  := by
  intro u
  by_cases hu : u = t
  · rw [hu]
    apply own
  · have hs := inv u
    obtain ⟨hrows, hpresent⟩ := spares u hu
    rw [stage u hu]
    constructor
    · intro key
      rw [owner u hu, hs.owns]
    · apply hs.tidy
    · apply hs.covers
    · intro a ha
      rw [hrows a ha]
      apply hs.kept a ha
    · intro key hkey
      apply hpresent key hkey (hs.present key hkey)

@[simp]
theorem stage_goto (stage : Stage V) : (s.goto t stage).stage t = stage := Function.update_self ..

theorem stage_goto_of_ne {u : ℕ} (hu : u ≠ t) (stage : Stage V) :
  (s.goto t stage).stage u = s.stage u
  := Function.update_of_ne hu ..

/-- A task that only moves on from one stage to another. -/
theorem Inv.goto (inv : s.Inv) (own : s.Steady t stage) :
  (s.goto t stage).Inv
  := by
  apply inv.moves
  · intro u hu
    apply stage_goto_of_ne hu
  · intro u _ key
    rfl
  · apply spares_rows
  · rw [stage_goto]
    exact ⟨own.owns, own.tidy, own.covers, own.kept, own.present⟩

theorem owner_goto (stage : Stage V) :
  (s.goto t stage).owner = s.owner
  := rfl

theorem owner_take (key key' : String) :
  (s.take t key).owner key' = if key' = key then some t else s.owner key'
  := Function.update_apply ..

theorem owner_unlock (key : String) :
  (s.unlock t).owner key = if s.owner key = some t then none else s.owner key
  := rfl

theorem owner_unlock_of_ne {u : ℕ} (hu : u ≠ t) (key : String) :
  (s.unlock t).owner key = some u ↔ s.owner key = some u
  := by
  rw [owner_unlock]
  split
  · next h =>
      rw [h, Option.some.injEq]
      simp [hu.symm]
  · rfl

theorem owner_unlock_self (key : String) :
  (s.unlock t).owner key ≠ some t
  := by
  rw [owner_unlock]
  split
  · nofun
  · next h => apply h

/-- A task that has dropped its locks, and goes where it has none. -/
theorem Inv.unlock (inv : s.Inv) (held : stage.held = []) (tidy : stage.Tidy)
    (covers : ∀ plan ∈ stage.plan, ∀ key, key ∈ plan.keys ↔ plan.Covers key)
    (absorbed : stage.absorbed = []) (edited : stage.edited = none) :
  ((s.unlock t).goto t stage).Inv
  := by
  apply inv.moves
  · intro u hu
    apply stage_goto_of_ne hu
  · intro u hu key
    apply owner_unlock_of_ne hu
  · apply spares_rows
  · rw [stage_goto]
    apply Steady.plain
    · intro key
      rw [held]
      constructor
      · intro h
        exact absurd h (owner_unlock_self key)
      · intro h
        cases h
    · apply tidy
    · apply covers
    · apply absorbed
    · apply edited

/-- A task that has written what spares the others, and is done. -/
theorem Inv.release (inv : s.Inv) {rows : Rows V} (spares : s.Spares t rows) :
  ({ s with rows := rows }.release t).Inv
  := by
  apply inv.moves
  · intro u hu
    apply stage_goto_of_ne hu
  · intro u hu key
    apply owner_unlock_of_ne (s := { s with rows := rows }) hu
  · apply spares
  · rw [State.release, stage_goto]
    apply Steady.plain
    · intro key
      constructor
      · intro h
        exact absurd h (owner_unlock_self key)
      · intro h
        cases h
    · trivial
    · intro plan hplan
      cases hplan
    · rfl
    · rfl

/-- A task that takes a lock which is free. -/
theorem Inv.take (inv : s.Inv) {key : String} (free : s.owner key = none)
    (held : ∀ key', key' ∈ stage.held ↔ key' = key ∨ key' ∈ (s.stage t).held) (tidy : stage.Tidy)
    (covers : ∀ plan ∈ stage.plan, ∀ key, key ∈ plan.keys ↔ plan.Covers key)
    (absorbed : stage.absorbed = []) (edited : stage.edited = none) :
  ((s.take t key).goto t stage).Inv
  := by
  apply inv.moves
  · intro u hu
    apply stage_goto_of_ne hu
  · intro u hu key'
    rw [owner_goto, owner_take]
    split
    · next h =>
        rw [h, free]
        simp [hu.symm]
    · rfl
  · apply spares_rows
  · rw [stage_goto]
    apply Steady.plain
    · intro key'
      rw [held, ← (inv t).owns, owner_goto, owner_take]
      split
      · next h => simp [h]
      · next h => simp [h]
    · apply tidy
    · apply covers
    · apply absorbed
    · apply edited

/-! ### Steps -/

variable {carry : Carry V} {plan : Plan V} {ws : Workspace V} {key : String} {left : List String}
  {absorbed : List (String × Workspace V)}

theorem Inv.recheck (inv : s.Inv) (hstage : s.stage t = .acquiring plan []) (answers lists : Bool) :
  (s.recheck t plan answers lists).Inv
  := by
  have hs := inv t
  rw [hstage] at hs
  have hcovers := Plan.required_covers (hs.covers plan rfl)
    (s.rows.loadWorkspace answers plan.job.key) (s.rows.listWorkspaces lists)
  rw [State.recheck]
  split
  · next hkeys =>
      apply inv.goto
      apply Steady.plain
      · intro key
        rw [hs.owns]
        simp [Stage.held, hkeys]
      · trivial
      · rintro _ ⟨⟩
        apply hcovers
      · rfl
      · rfl
  · next hkeys =>
      apply inv.unlock
      · simp [Stage.held]
      · constructor
        · apply Plan.required_nodup hkeys
        · apply List.Subset.refl
      · rintro _ ⟨⟩
        apply hcovers
      · rfl
      · rfl

theorem Inv.load (inv : s.Inv) (hstage : s.stage t = .guarded plan) (admitted answers : Bool) :
  (s.load carry t plan admitted answers).Inv
  := by
  have hs := inv t
  rw [hstage] at hs
  unfold State.load
  extract_lets ws
  cases ws with
  | some ws =>
    apply inv.goto
    exact .plain hs.owns trivial hs.covers rfl rfl
  | none => apply inv.release spares_rows

variable {answers : Bool}

/-- The row a merge absorbs is the row that is stored. -/
theorem issueAt_eq_some {folds : Bool} {issue : Workspace V}
    (h : s.issueAt ws key answers folds = some issue) :
  s.rows.workspace key = some issue
  := by
  rw [issueAt] at h
  split at h
  · cases h
  · apply Rows.loadWorkspace_eq_some
    apply Option.eq_some_of_filter_eq_some h

theorem Inv.visit (inv : s.Inv) (hstage : s.stage t = .merging plan ws (key :: left) absorbed)
    {folds : Bool} (planned : s.Planned (.visit t answers folds)) :
  (s.next carry (.visit t answers folds)).Inv
  := by
  have hs := inv t
  rw [hstage] at hs
  simp only [next, hstage]
  cases hissue : s.issueAt ws key answers folds with
  | none =>
    apply inv.goto
    exact ⟨hs.owns, trivial, hs.covers, hs.kept, hs.present⟩
  | some issue =>
    apply inv.goto
    constructor
    · apply hs.owns
    · trivial
    · apply hs.covers
    · intro a ha
      rw [Stage.absorbed, List.mem_append, List.mem_singleton] at ha
      obtain ha | rfl := ha
      · apply hs.kept a ha
      · constructor
        · apply (hs.covers plan rfl key).mpr
          apply planned (key, issue)
          · simp [absorbs, hstage, hissue]
          · rw [hstage]
            rfl
        · apply issueAt_eq_some hissue
    · apply hs.present

theorem Inv.owner_absorbed (inv : s.Inv) {a : String × Workspace V} (h : a ∈ (s.stage t).absorbed) :
  s.owner a.1 = some t
  := by
  rw [(inv t).owns]
  apply ((inv t).kept a h).1

/-- The workspace an operation saves is not one that another has absorbed. -/
theorem Inv.unabsorbed_own (inv : s.Inv) (hstage : s.stage t = .merging plan ws left absorbed)
    (h : ws.key ≠ plan.job.key → s.Unabsorbed t ws.key) :
  s.Unabsorbed t ws.key
  := by
  by_cases hkey : ws.key = plan.job.key
  · have hs := inv t
    rw [hstage] at hs
    apply inv.unabsorbed
    rw [hs.owns]
    apply (hs.covers plan rfl _).mpr
    left
    apply hkey
  · apply h hkey

theorem Inv.commit (inv : s.Inv) (hstage : s.stage t = .merging plan ws [] absorbed)
    (planned : s.Planned (.commit t answers)) :
  (s.next carry (.commit t answers)).Inv
  := by
  simp only [next, hstage]
  apply inv.release
  cases answers with
  | false =>
    rw [commitMerge, Bool.not_false, Bool.or_true, if_pos rfl]
    apply spares_rows
  | true =>
    simp only [Planned, hstage] at planned
    rw [commitMerge]
    split
    · apply spares_rows
    · apply inv.spares_deleteWorkspaces
      · apply spares_saveWorkspace
        apply inv.unabsorbed_own hstage planned
      · intro key hkey
        obtain ⟨a, ha, rfl⟩ := List.mem_map.mp hkey
        apply inv.owner_absorbed
        rw [hstage]
        apply ha

theorem Inv.write (inv : s.Inv) (hstage : s.stage t = .editing key ws) (change : Change V) :
  (s.next carry (.write t change)).Inv
  := by
  have howner : s.owner key = some t := by
    rw [(inv t).owns, hstage]
    apply List.mem_singleton_self
  simp only [next, hstage]
  apply inv.release
  cases change with
  | keep => apply spares_rows
  | save ws' =>
    rw [State.write]
    split
    · next hkey =>
        apply spares_saveWorkspace
        apply inv.unabsorbed
        rw [hkey, howner]
    · apply spares_rows
  | delete =>
    apply inv.spares_deleteWorkspaces spares_rows
    intro key' hkey
    rw [List.mem_singleton.mp hkey, howner]

theorem Inv.create (inv : s.Inv) (hstage : s.stage t = .allocated key) {ws : Workspace V}
    (planned : s.Planned (.create t ws)) :
  (s.next carry (.create t ws)).Inv
  := by
  have hs := inv t
  rw [hstage] at hs
  simp only [Planned, hstage] at planned
  simp only [next, hstage]
  split
  · next hkey =>
      apply inv.moves
      · intro u hu
        apply stage_goto_of_ne hu
      · intro u _ key'
        rfl
      · apply spares_saveWorkspace
        rw [hkey]
        apply planned
      · rw [stage_goto]
        exact .plain hs.owns trivial hs.covers rfl rfl
  · apply inv

theorem Inv.start (inv : s.Inv) (hstage : s.stage t = .idle) (job : Job) (answers : Bool) :
  (s.next carry (.start t job answers)).Inv
  := by
  have hs := inv t
  rw [hstage] at hs
  simp only [State.next, hstage]
  apply inv.goto
  apply Steady.plain
  · intro key
    rw [hs.owns]
    simp [Stage.held]
  · constructor
    · apply Plan.first_nodup
    · apply List.Subset.refl
  · rintro _ ⟨⟩
    apply Plan.first_covers
  · rfl
  · rfl

theorem Inv.acquire (inv : s.Inv) (hstage : s.stage t = .acquiring plan (key :: left)) :
  (s.next carry (.acquire t)).Inv
  := by
  have hs := inv t
  rw [hstage] at hs
  obtain ⟨hnodup, hsubset⟩ := hs.tidy
  rw [List.nodup_cons] at hnodup
  rw [List.cons_subset] at hsubset
  simp only [State.next, hstage]
  split
  · next hfree =>
      apply inv.take hfree
      · intro key'
        rw [hstage]
        by_cases hkey : key' = key
        · simp [Stage.held, hkey, hnodup.1, hsubset.1]
        · simp [Stage.held, hkey]
      · exact ⟨hnodup.2, hsubset.2⟩
      · apply hs.covers
      · rfl
      · rfl
  · apply inv

theorem Inv.scan (inv : s.Inv) (hstage : s.stage t = .loaded plan ws) (answers : Bool) :
  (s.next carry (.scan t answers)).Inv
  := by
  have hs := inv t
  rw [hstage] at hs
  simp only [State.next, hstage]
  apply inv.goto
  exact .plain hs.owns trivial hs.covers rfl rfl

theorem Inv.lock (inv : s.Inv) (hstage : s.stage t = .idle) (key : String) :
  (s.next carry (.lock t key)).Inv
  := by
  simp only [State.next, hstage]
  split
  · next hfree =>
      apply inv.take hfree
      · simp [Stage.held, hstage]
      · trivial
      · intro plan hplan
        cases hplan
      · rfl
      · rfl
  · apply inv

theorem Inv.read (inv : s.Inv) (hstage : s.stage t = .holding key) (answers : Bool) :
  (s.next carry (.read t answers)).Inv
  := by
  have hs := inv t
  rw [hstage] at hs
  simp only [State.next, hstage]
  cases hws : s.rows.loadWorkspace answers key with
  | some ws =>
    apply inv.goto
    constructor
    · apply hs.owns
    · trivial
    · apply hs.covers
    · apply hs.kept
    · rintro _ ⟨⟩
      apply Rows.isSome_record
      apply Rows.loadWorkspace_eq_some _ hws
  | none => apply inv.release spares_rows

theorem Inv.allocate (inv : s.Inv) (hstage : s.stage t = .idle) (key : String) :
  (s.next carry (.allocate t key)).Inv
  := by
  have hs := inv t
  rw [hstage] at hs
  simp only [State.next, hstage]
  split
  · apply inv.goto
    exact .plain hs.owns trivial hs.covers rfl rfl
  · apply inv

/-- A step that keeps to what is planned keeps the invariant. -/
theorem Inv.next (inv : s.Inv) {a : Act V} (planned : s.Planned a) :
  (s.next carry a).Inv
  := by
  cases a with
  | start t job answers =>
    cases hstage : s.stage t with
    | idle => apply inv.start hstage
    | acquiring | guarded | loaded | merging | holding | editing | allocated =>
      simpa only [State.next, hstage] using inv
  | acquire t =>
    cases hstage : s.stage t with
    | acquiring plan left =>
      cases left with
      | nil => simpa only [State.next, hstage] using inv
      | cons key left => apply inv.acquire hstage
    | idle | guarded | loaded | merging | holding | editing | allocated =>
      simpa only [State.next, hstage] using inv
  | giveUp t =>
    rw [State.next]
    split
    · apply inv.release spares_rows
    · apply inv
  | recheck t answers lists =>
    cases hstage : s.stage t with
    | acquiring plan left =>
      cases left with
      | nil =>
        simp only [State.next, hstage]
        apply inv.recheck hstage
      | cons key left => simpa only [State.next, hstage] using inv
    | idle | guarded | loaded | merging | holding | editing | allocated =>
      simpa only [State.next, hstage] using inv
  | load t admitted answers =>
    cases hstage : s.stage t with
    | guarded plan =>
      simp only [State.next, hstage]
      apply inv.load hstage
    | idle | acquiring | loaded | merging | holding | editing | allocated =>
      simpa only [State.next, hstage] using inv
  | scan t answers =>
    cases hstage : s.stage t with
    | loaded plan ws =>
      apply inv.scan hstage
    | idle | acquiring | guarded | merging | holding | editing | allocated =>
      simpa only [State.next, hstage] using inv
  | visit t answers folds =>
    cases hstage : s.stage t with
    | merging plan ws left absorbed =>
      cases left with
      | nil => simpa only [State.next, hstage] using inv
      | cons key left => apply inv.visit hstage planned
    | idle | acquiring | guarded | loaded | holding | editing | allocated =>
      simpa only [State.next, hstage] using inv
  | commit t answers =>
    cases hstage : s.stage t with
    | merging plan ws left absorbed =>
      cases left with
      | nil => apply inv.commit hstage planned
      | cons key left => simpa only [State.next, hstage] using inv
    | idle | acquiring | guarded | loaded | holding | editing | allocated =>
      simpa only [State.next, hstage] using inv
  | lock t key =>
    cases hstage : s.stage t with
    | idle =>
      apply inv.lock hstage
    | acquiring | guarded | loaded | merging | holding | editing | allocated =>
      simpa only [State.next, hstage] using inv
  | read t answers =>
    cases hstage : s.stage t with
    | holding key =>
      apply inv.read hstage
    | idle | acquiring | guarded | loaded | merging | editing | allocated =>
      simpa only [State.next, hstage] using inv
  | write t change =>
    cases hstage : s.stage t with
    | editing key ws =>
      apply inv.write hstage
    | idle | acquiring | guarded | loaded | merging | holding | allocated =>
      simpa only [State.next, hstage] using inv
  | allocate t key =>
    cases hstage : s.stage t with
    | idle =>
      apply inv.allocate hstage
    | acquiring | guarded | loaded | merging | holding | editing | allocated =>
      simpa only [State.next, hstage] using inv
  | create t ws =>
    cases hstage : s.stage t with
    | allocated key =>
      apply inv.create hstage planned
    | idle | acquiring | guarded | loaded | merging | holding | editing =>
      simpa only [State.next, hstage] using inv

/-! ### Runs -/

theorem quiet_inv (rows : Rows V) :
  (quiet rows).Inv
  := by
  intro t
  apply Steady.plain
  · intro key
    constructor
    · intro h
      cases h
    · intro h
      cases h
  · trivial
  · intro plan hplan
    cases hplan
  · rfl
  · rfl

/-- An operation that absorbs a row has all the locks of its plan, and no others. -/
theorem plan_of_absorbs
    {folds : Bool} {a : String × Workspace V} (h : a ∈ s.absorbs t answers folds) :
  ∃ plan, (s.stage t).plan = some plan ∧ (s.stage t).held = plan.keys
  := by
  cases hstage : s.stage t with
  | merging plan ws left absorbed => exact ⟨plan, rfl, rfl⟩
  | idle | acquiring | guarded | loaded | holding | editing | allocated =>
    rw [absorbs, hstage] at h
    cases h

/-- A step keeps the rows exactly when it keeps to what is planned. -/
theorem Inv.kept_iff_planned (inv : s.Inv) (a : Act V) :
  s.Kept a ↔ s.Planned a
  := by
  cases a with
  | visit t answers folds =>
    apply forall₂_congr
    intro a ha
    obtain ⟨plan, hplan, hheld⟩ := plan_of_absorbs ha
    rw [(inv t).owns, hheld, (inv t).covers plan hplan, hplan]
    simp
  | commit t answers =>
    cases answers with
    | false => rfl
    | true =>
      cases hstage : s.stage t with
      | merging plan ws left absorbed =>
        cases left with
        | nil =>
          simp only [Kept, Planned, hstage]
          constructor
          · intro h _
            apply h.1
          · intro h
            constructor
            · apply inv.unabsorbed_own hstage h
            · intro a ha
              have hkept := (inv t).kept a
              have howner := inv.owner_absorbed (t := t) (a := a)
              rw [hstage] at hkept howner
              constructor
              · apply howner ha
              · apply (hkept ha).2
        | cons key left => simp only [Kept, Planned, hstage]
      | idle | acquiring | guarded | loaded | holding | editing | allocated =>
        simp only [Kept, Planned, hstage]
  | write t change =>
    cases hstage : s.stage t with
    | editing key ws =>
      have hs := inv t
      rw [hstage] at hs
      simp only [Kept, Planned, hstage, iff_true]
      constructor
      · apply inv.unabsorbed
        rw [hs.owns]
        apply List.mem_singleton_self
      · apply hs.present key rfl
    | idle | acquiring | guarded | loaded | merging | holding | allocated =>
      simp only [Kept, Planned, hstage]
  | create t ws => rfl
  | start | acquire | giveUp | recheck | load | scan | lock | read | allocate => rfl

end State

/-- Whatever the tasks of a daemon do, and in whatever order, the rows that collapses absorb are
kept exactly when each of them was planned for. -/
theorem absorbed_held {V : Type u} (carry : Carry V) (rows : Rows V) (as : List (Act V)) :
  (collapses carry).Along State.Kept (.quiet rows) as
    ↔ (collapses carry).Along State.Planned (.quiet rows) as
  := by
  apply Machine.along_iff_along (I := State.Inv)
  · apply State.quiet_inv
  · intro s a planned inv
    apply inv.next planned
  · intro s a inv
    apply inv.kept_iff_planned

/-! ### A row that is found too late -/

/-- What the user has set is counted, and added up. -/
def counted : Carry ℕ := ⟨fun _ => 0, fun ws _ => ws.own, fun ws issue => ws.own + issue.own⟩

/-- A workspace created by hand, before and after a session was started in it on a branch. -/
def notes (branch : String) (sessions : List ℕ) (own : ℕ) : Workspace ℕ :=
  ⟨"notes", none, [], [], some "github-o-r", true, false, false, branch, sessions, own⟩

/-- A pull request of the branch. -/
def featurePr : PolledTask :=
  { id := ⟨"github", "o/r#1"⟩, kind := some .pr, url := "", nodeId := none, repo := some "o/r",
    body := none, branch := some "feat", merged := false, closesIssues := [], linkedTasks := [] }

/-- The pull request is polled before the session is started.  The workspace is a candidate when
the merge scans the store, and the user is about to set something of it. -/
def lateSession : List (Act ℕ) :=
  [.start 0 ⟨"github-o-r-1", some featurePr⟩ true, .lock 1 "notes", .read 1 true,
    .write 1 (.save (notes "feat" [7] 0)), .acquire 0, .recheck 0 true true, .load 0 true true,
    .scan 0 true, .lock 2 "notes", .read 2 true]

/-- What the user sets is written before the row is deleted, or after it. -/
def lostChange : List (Act ℕ) :=
  [.visit 0 true true, .write 2 (.save (notes "feat" [7] 1)), .commit 0 true]

def writtenBack : List (Act ℕ) :=
  [.visit 0 true true, .commit 0 true, .write 2 (.save (notes "feat" [7] 1))]

/-- The row is absorbed while another has its lock.  In one order what the user set is lost, in
the other the row is back after it was deleted. -/
theorem lateSession_unheld :
  let s : State ℕ := .quiet [.decoded (notes "main" [] 0)]
  let M := collapses counted
  ¬ M.Along State.Kept s (lateSession ++ lostChange)
    ∧ ¬ M.Along State.Kept s (lateSession ++ writtenBack)
    ∧ (M.final s (lateSession ++ lostChange)).rows.map (fun record => (record.key,
        record.workspace.map Workspace.own)) = [("github-o-r-1", some 0)]
    ∧ (M.final s (lateSession ++ writtenBack)).rows.map WorkspaceRecord.key
        = ["notes", "github-o-r-1"]
  := by
  intro s M
  have hvisit : ¬ (M.final s lateSession).Kept (.visit 0 true true) := by
    intro h
    have howner := h ("notes", notes "feat" [7] 0) (by decide +kernel)
    exact absurd howner (by decide +kernel)
  constructor
  · rw [Machine.along_append]
    rintro ⟨-, h, -⟩
    apply hvisit h
  · constructor
    · rw [Machine.along_append]
      rintro ⟨-, h, -⟩
      apply hvisit h
    · constructor
      · decide +kernel
      · decide +kernel

end Lazybox.Collapse
