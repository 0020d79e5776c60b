import Lazybox.Polling.RotationCovers

/-!
# The clocks of the rotation

A repository that is in the rotation has a stamp, and keeps it while it is suspended for being
cold.  The stamps are in two maps, and operations move them from one to the other.

No repository is in both maps, and its stamp stays what it was until the repository is polled, or
the stamp is dropped for its age.
-/

namespace Lazybox.Rotation

namespace RoundRobinState

variable (s : RoundRobinState)

/-- A repository that is active again goes on with the stamp it was suspended with. -/
def restoreActive (repo : String) : RoundRobinState :=
  match s.suspendedCold repo with
  | some lastSync =>
      { s with
        suspendedCold := Function.update s.suspendedCold repo none
        cursor := Function.update s.cursor repo (some lastSync) }
  | none => s

def suspendCold (fallback : Instant) (repo : String) : RoundRobinState :=
  let lastSync := (s.cursor repo).getD fallback
  { s with
    cursor := Function.update s.cursor repo none
    suspendedCold := Function.update s.suspendedCold repo
      (some ((s.suspendedCold repo).getD lastSync)) }

/-- An hour ago, unless the clock started later. -/
def hourAgo (clockStart now : Instant) : Instant :=
  if clockStart ≤ now - seconds (60 * 60) then now - seconds (60 * 60) else now

/-- The repositories are given in the order their sets are gone through. -/
def updateEngagementRepos (clockStart : Instant) (cold active : List String) (now : Instant) :
    RoundRobinState :=
  cold.foldl (suspendCold · (hourAgo clockStart now)) (active.foldl restoreActive s)

def recordSyncs (repos : List String) (now : Instant) : RoundRobinState :=
  repos.foldl (fun s repo => s.recordSync repo now) s

def advance : RoundRobinState := { s with tick := (s.tick + 1) % 2 ^ 64 }

end RoundRobinState

/-- The entries of the cursor, in the order it is gone through. -/
def listed (names : List String) (cursor : String → Option Instant) : List (String × Instant) :=
  names.dedup.filterMap fun repo => (cursor repo).map (repo, ·)

def planRoundRobinTickBudgeted (s : RoundRobinState) (names : List String)
    (forced : Finset String) (willFullSweep : Bool) (n : ℕ) (maxRepos : Option ℕ) (now : Instant) :
    RoundRobinState × RoundRobinPick :=
  if !willFullSweep then (s, ⟨[], true⟩)
  else
    let s := s.prune now
    let pick := pickReposForTickBudgeted (listed names s.cursor) s.focusedRepo forced s.tick n
      maxRepos
    ((s.recordSyncs pick.repos now).advance, pick)

/-! ### Operations -/

inductive RotationOp where
  | prune (now : Instant)
  | recordSync (repo : String) (now : Instant)
  | seedRoster (roster : List String) (now : Instant)
  | updateEngagementRepos (cold active : List String) (now : Instant)
  | focus (repo : Option String)
  | advance
  | planRepoRotation (roster : List String) (forced : Finset String) (fanout : ℕ)
      (maxMembers : Option ℕ) (now : Instant)
  | planRoundRobinTick (names : List String) (forced : Finset String) (willFullSweep : Bool)
      (n : ℕ) (maxRepos : Option ℕ) (now : Instant)

/-- When an operation drops stamps for their age. -/
def RotationOp.prunesAt : RotationOp → Option Instant
  | .prune now | .planRepoRotation _ _ _ _ now => some now
  | .planRoundRobinTick _ _ willFullSweep _ _ now => if willFullSweep then some now else none
  | _ => none

/-- The operations of the rotation.  An observation is a repository that is polled, and when. -/
def rotation (clockStart : Instant) : Machine RoundRobinState RotationOp (String × Instant) where
  step s
    | .prune now => (s.prune now, [])
    | .recordSync repo now => (s.recordSync repo now, [(repo, now)])
    | .seedRoster roster now => (s.seedRoster clockStart roster now, [])
    | .updateEngagementRepos cold active now =>
        (s.updateEngagementRepos clockStart cold active now, [])
    | .focus repo => ({ s with focusedRepo := repo }, [])
    | .advance => (s.advance, [])
    | .planRepoRotation roster forced fanout maxMembers now =>
        let (next, picks) := planRepoRotation clockStart s roster forced fanout maxMembers now
        (next, picks.map (·, now))
    | .planRoundRobinTick names forced willFullSweep n maxRepos now =>
        let (next, pick) :=
          planRoundRobinTickBudgeted s names forced willFullSweep n maxRepos now
        (next, pick.repos.map (·, now))

/-! ### Clocks -/

namespace RoundRobinState

/-- The stamp of a repository, wherever it is kept. -/
def clock (s : RoundRobinState) (repo : String) : Option Instant :=
  (s.cursor repo).or (s.suspendedCold repo)

/-- No repository is in the rotation and suspended. -/
def Separate (s : RoundRobinState) : Prop :=
  ∀ repo, s.cursor repo = none ∨ s.suspendedCold repo = none

/-- Stamps were moved or added. -/
structure Moved (s s' : RoundRobinState) : Prop where
  separate : s'.Separate
  clock : ∀ repo x, s.clock repo = some x → s'.clock repo = some x

variable {s : RoundRobinState}

theorem Separate.moved (h : s.Separate) :
  Moved s s
  := ⟨h, fun _ _ => id⟩

/-- Only the stamps matter. -/
theorem Separate.moved_of_eq {s' : RoundRobinState} (h : s.Separate)
    (hcursor : s'.cursor = s.cursor) (hsuspended : s'.suspendedCold = s.suspendedCold) :
  Moved s s'
  := by
  constructor
  · rw [Separate, hcursor, hsuspended]
    exact h
  · intro repo x hx
    rw [clock, hcursor, hsuspended]
    exact hx

variable {t u : RoundRobinState}

theorem Moved.trans (h : Moved s t) (h' : Moved t u) :
  Moved s u
  := ⟨h'.separate, fun repo x hx => h'.clock repo x (h.clock repo x hx)⟩

/-- What moves stamps one by one moves the stamps of a list. -/
theorem Separate.moved_foldl {f : RoundRobinState → String → RoundRobinState}
    (step : ∀ s repo, s.Separate → Moved s (f s repo)) (h : s.Separate) (repos : List String) :
  Moved s (repos.foldl f s)
  := by
  induction repos generalizing s with
  | nil => exact h.moved
  | cons repo repos ih =>
    have first := step s repo h
    apply first.trans (ih first.separate)

theorem Separate.moved_restoreActive (h : s.Separate) (repo : String) :
  Moved s (s.restoreActive repo)
  := by
  rw [restoreActive]
  cases hsuspended : s.suspendedCold repo with
  | none => exact h.moved
  | some lastSync =>
    have hcursor : s.cursor repo = none := by
      apply (h repo).resolve_right
      rw [hsuspended]
      exact nofun
    constructor
    · intro other
      by_cases hother : other = repo
      · simp [hother]
      · simpa [hother] using h other
    · intro other x hx
      by_cases hother : other = repo
      · subst hother
        simpa [clock, hcursor, hsuspended] using hx
      · simpa [clock, hother] using hx

theorem Separate.moved_suspendCold (h : s.Separate) (fallback : Instant) (repo : String) :
  Moved s (s.suspendCold fallback repo)
  := by
  constructor
  · intro other
    by_cases hother : other = repo
    · simp [suspendCold, hother]
    · simpa [suspendCold, hother] using h other
  · intro other x hx
    by_cases hother : other = repo
    · subst hother
      obtain hnone | hnone := h other
      · simp_all [clock, suspendCold]
      · simp_all [clock, suspendCold]
    · simpa [clock, suspendCold, hother] using hx

theorem Separate.moved_seedMember (h : s.Separate) (never : Instant) (member : String) :
  Moved s (s.seedMember never member)
  := by
  constructor
  · intro other
    by_cases hother : other = member
    · simp [seedMember, hother]
    · simpa [seedMember, hother] using h other
  · intro other x hx
    by_cases hother : other = member
    · subst hother
      rw [clock] at hx
      simp [clock, seedMember, hx]
    · simpa [clock, seedMember, hother] using hx

theorem Separate.recordSync (h : s.Separate) (repo : String) (now : Instant) :
  (s.recordSync repo now).Separate
  := by
  intro other
  by_cases hother : other = repo
  · simp [RoundRobinState.recordSync, hother]
  · simpa [RoundRobinState.recordSync, hother] using h other

theorem clock_recordSync (repo other : String) (now : Instant) :
  (s.recordSync repo now).clock other = if other = repo then some now else s.clock other
  := by
  by_cases hother : other = repo
  · simp [clock, RoundRobinState.recordSync, hother]
  · simp [clock, RoundRobinState.recordSync, hother]

theorem Separate.recordSyncs (h : s.Separate) (repos : List String) (now : Instant) :
  (s.recordSyncs repos now).Separate
  := by
  rw [RoundRobinState.recordSyncs]
  induction repos generalizing s with
  | nil => exact h
  | cons repo repos ih => exact ih (h.recordSync repo now)

theorem clock_recordSyncs (repos : List String) (other : String) (now : Instant) :
  (s.recordSyncs repos now).clock other = if other ∈ repos then some now else s.clock other
  := by
  rw [RoundRobinState.recordSyncs]
  induction repos generalizing s with
  | nil => rfl
  | cons repo repos ih =>
    rw [List.foldl_cons, ih, clock_recordSync]
    simp only [List.mem_cons]
    split_ifs
    all_goals first | rfl | tauto

theorem Separate.prune (h : s.Separate) (now : Instant) :
  (s.prune now).Separate
  := by
  intro repo
  obtain hnone | hnone := h repo
  · simp [RoundRobinState.prune, retained, hnone]
  · simp [RoundRobinState.prune, retained, hnone]

/-- A stamp is dropped only for its age. -/
theorem Separate.clock_prune (h : s.Separate) (now : Instant) (repo : String) :
  (s.prune now).clock repo = (s.clock repo).filter fun last => now - last < cursorTtl
  := by
  obtain hnone | hnone := h repo
  · simp [clock, RoundRobinState.prune, retained, hnone]
  · simp [clock, RoundRobinState.prune, retained, hnone]

/-- What a step does to the clocks: those that are polled get the time of the poll, and the others
stay, unless they are dropped for their age. -/
structure Ticks (s s' : RoundRobinState) (polls : List (String × Instant))
    (prunesAt : Option Instant) : Prop where
  separate : s'.Separate
  polled : ∀ p ∈ polls, s'.clock p.1 = some p.2
  kept : ∀ repo x, (∀ p ∈ polls, p.1 ≠ repo) → s.clock repo = some x →
    s'.clock repo = some x ∨ ∃ now ∈ prunesAt, cursorTtl ≤ now - x

theorem Moved.ticks {s' : RoundRobinState} (h : Moved s s') (prunesAt : Option Instant) :
  Ticks s s' [] prunesAt
  := ⟨h.separate, nofun, fun repo x _ hx => Or.inl (h.clock repo x hx)⟩

theorem Separate.ticks_prune (h : s.Separate) (now : Instant) :
  Ticks s (s.prune now) [] (some now)
  := by
  refine ⟨h.prune now, nofun, ?_⟩
  intro repo x _ hx
  rw [h.clock_prune, hx]
  by_cases hage : now - x < cursorTtl
  · left
    exact Option.filter_some_pos (by simpa using hage)
  · exact Or.inr ⟨now, rfl, not_lt.mp hage⟩

theorem Separate.ticks_recordSyncs (h : s.Separate) (repos : List String) (now : Instant)
    (prunesAt : Option Instant) :
  Ticks s (s.recordSyncs repos now) (repos.map (·, now)) prunesAt
  := by
  refine ⟨h.recordSyncs repos now, ?_, ?_⟩
  · intro p hp
    obtain ⟨repo, hrepo, rfl⟩ := List.mem_map.mp hp
    rw [clock_recordSyncs, if_pos hrepo]
  · intro repo x hpolled hx
    left
    rw [clock_recordSyncs, if_neg, hx]
    intro hrepo
    apply hpolled (repo, now) (List.mem_map.mpr ⟨repo, hrepo, rfl⟩) rfl

variable {polls : List (String × Instant)}

/-- Nothing is polled, and then something. -/
theorem Ticks.trans {prunesAt : Option Instant} (h : Ticks s t [] prunesAt)
    (h' : Ticks t u polls prunesAt) :
  Ticks s u polls prunesAt
  := by
  refine ⟨h'.separate, h'.polled, ?_⟩
  intro repo x hpolled hx
  obtain hkept | hdropped := h.kept repo x nofun hx
  · exact h'.kept repo x hpolled hkept
  · exact Or.inr hdropped

theorem Ticks.moved {prunesAt : Option Instant} (h : Ticks s t polls prunesAt) (h' : Moved t u) :
  Ticks s u polls prunesAt
  := by
  refine ⟨h'.separate, fun p hp => h'.clock p.1 p.2 (h.polled p hp), ?_⟩
  intro repo x unpolled hx
  obtain hkept | hdropped := h.kept repo x unpolled hx
  · exact Or.inl (h'.clock repo x hkept)
  · exact Or.inr hdropped

/-- Stamps are dropped for their age, some repositories are polled, and the tick is counted. -/
theorem Separate.ticks_tick (h : s.Separate) (repos : List String) (now : Instant) :
  Ticks s ((s.prune now).recordSyncs repos now).advance (repos.map (·, now)) (some now)
  := by
  have hpruned := h.ticks_prune now
  have hpolled := hpruned.trans (hpruned.separate.ticks_recordSyncs repos now (some now))
  exact hpolled.moved (hpolled.separate.moved_of_eq rfl rfl)

end RoundRobinState

open RoundRobinState (Moved Ticks)

variable {clockStart : Instant} {s : RoundRobinState}

theorem ticks_step (h : s.Separate) (op : RotationOp) :
  Ticks s ((rotation clockStart).next s op) ((rotation clockStart).emit s op) op.prunesAt
  := by
  cases op with
  | prune now => exact h.ticks_prune now
  | recordSync repo now => exact h.ticks_recordSyncs [repo] now none
  | seedRoster roster now =>
    apply Moved.ticks
    apply h.moved_foldl
    intro s repo hs
    exact hs.moved_seedMember _ repo
  | updateEngagementRepos cold active now =>
    apply Moved.ticks
    have hactive := h.moved_foldl (fun s repo hs => hs.moved_restoreActive repo) active
    apply hactive.trans
    apply hactive.separate.moved_foldl
    intro s repo hs
    exact hs.moved_suspendCold _ repo
  | focus repo =>
    have hmoved : Moved s { s with focusedRepo := repo } := h.moved_of_eq rfl rfl
    exact hmoved.ticks none
  | advance =>
    have hmoved : Moved s s.advance := h.moved_of_eq rfl rfl
    exact hmoved.ticks none
  | planRepoRotation roster forced fanout maxMembers now =>
    have hseeded : Moved s (s.seedRoster clockStart roster now) := by
      apply h.moved_foldl
      intro s repo hs
      exact hs.moved_seedMember _ repo
    exact (hseeded.ticks _).trans (hseeded.separate.ticks_tick _ now)
  | planRoundRobinTick names forced willFullSweep n maxRepos now =>
    cases willFullSweep with
    | false => exact h.moved.ticks none
    | true => exact h.ticks_tick _ now

/-- No repository is in both maps after any operations. -/
theorem separate_final (h : s.Separate) (ops : List RotationOp) :
  ((rotation clockStart).final s ops).Separate
  := by
  induction ops generalizing s with
  | nil => exact h
  | cons op ops ih => exact ih (ticks_step h op).separate

/-- The clock of a repository that is not polled stays what it is, until it is dropped. -/
theorem clock_final (h : s.Separate) {ops : List RotationOp} {repo : String} {x : Instant}
    (unpolled : ∀ p ∈ (rotation clockStart).trace s ops, p.1 ≠ repo) (hx : s.clock repo = some x) :
  ((rotation clockStart).final s ops).clock repo = some x
    ∨ ∃ op ∈ ops, ∃ now ∈ op.prunesAt, cursorTtl ≤ now - x
  := by
  induction ops generalizing s with
  | nil => exact Or.inl hx
  | cons op ops ih =>
    rw [Machine.trace] at unpolled
    have hstep : Ticks s ((rotation clockStart).next s op) _ _ := ticks_step h op
    obtain hkept | ⟨now, hnow, hage⟩ := hstep.kept repo x
      (fun p hp => unpolled p (List.mem_append_left _ hp)) hx
    · obtain hend | ⟨later, hlater, hdropped⟩ := ih hstep.separate
        (fun p hp => unpolled p (List.mem_append_right _ hp)) hkept
      · exact Or.inl hend
      · exact Or.inr ⟨later, List.mem_cons_of_mem op hlater, hdropped⟩
    · exact Or.inr ⟨op, List.mem_cons_self, now, hnow, hage⟩

/-- After any operations, no repository is both in the rotation and suspended.  Whatever comes
then, a repository that is polled has the time of the poll, and one that is not polled keeps its
stamp, unless it is dropped in an operation at a time when it is too old. -/
theorem clocks_kept (clockStart : Instant) (ops : List RotationOp) :
  let s := (rotation clockStart).final .new ops
  (∀ repo, s.cursor repo = none ∨ s.suspendedCold repo = none)
    ∧ (∀ op, ∀ p ∈ (rotation clockStart).emit s op,
      ((rotation clockStart).next s op).clock p.1 = some p.2)
    ∧ ∀ later repo x, s.clock repo = some x →
      (∀ p ∈ (rotation clockStart).trace s later, p.1 ≠ repo) →
        ((rotation clockStart).final s later).clock repo = some x
          ∨ ∃ op ∈ later, ∃ now ∈ op.prunesAt, cursorTtl ≤ now - x
  := by
  intro s
  have hseparate : s.Separate := separate_final (fun repo => Or.inl rfl) ops
  refine ⟨hseparate, ?_, ?_⟩
  · intro op
    exact (ticks_step hseparate op).polled
  · intro later repo x hx unpolled
    exact clock_final hseparate unpolled hx

/-- A repository that turns cold, and active again. -/
theorem clocks_kept_suspended :
  ((rotation 0).final ((rotation 0).final .new [.recordSync "o/a" 5])
      [.updateEngagementRepos ["o/a"] [] 10, .updateEngagementRepos [] ["o/a"] 20]).clock "o/a"
    = some 5
  := by
  obtain hkept | ⟨op, hop, now, hnow, -⟩ := (clocks_kept 0 [.recordSync "o/a" 5]).2.2
    [.updateEngagementRepos ["o/a"] [] 10, .updateEngagementRepos [] ["o/a"] 20] "o/a" 5
    (by decide +kernel) (by decide +kernel)
  · exact hkept
  · simp only [List.mem_cons, List.not_mem_nil, or_false] at hop
    obtain rfl | rfl := hop
    · cases hnow
    · cases hnow

end Lazybox.Rotation
