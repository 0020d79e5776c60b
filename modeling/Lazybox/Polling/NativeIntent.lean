import Lazybox.Polling.NativeArm

/-!
# GitHub's auto-merge follows the user

When the user disarmed last, nothing is under way and no mutation failed, then the auto-merge
that lazybox turned on is off.  The lock makes this true of arms and disarms in any order: a run
reads the stored arm only once it has the lock, and a disarm is queued as soon as it is stored.

It rests on the workspace remembering that the auto-merge is lazybox's.  A check that finds the
auto-merge off on the stored row forgets it, and the row may be older than lazybox's own turning
it on.  A row of another pull request in the place of the one it is on for makes the workspace
forget it, too.  These are the steps to exclude.
-/

namespace Lazybox

namespace NativeMerge

/-- GitHub's auto-merge follows the user: after a disarm, once nothing is under way and if no
mutation failed, lazybox's auto-merge of the pull request is off. -/
def FollowsIntent (s : NativeMerge) : Prop :=
  s.failed = false → s.waiting = [] → s.run = none →
    ∀ id, s.intent id = some false → s.github id ≠ .byLazybox

/-- A check is about to find that lazybox's auto-merge is off, on a row which is older than it
being on. -/
def ReadsStale (s : NativeMerge) : Act → Prop
  | .lock place _ _ =>
      s.run = none ∧ s.waiting[place]? = some .revoke ∧ s.ws.nativeAutoMergeByLazybox = true
        ∧ ∃ pr ∈ s.ws.pr, pr.autoMergeEnabled = false ∧ s.github pr.id = .byLazybox
  | .user _ _ _ | .others _ _ | .poll _ | .commit _ _ _ | .look | .proceed _ => False

end NativeMerge

/-- The run follows the user, and has not yet recorded that auto-merge is off. -/
def NativeRun.ofUser : NativeRun → Bool
  | .arming _ _ | .disarming _ | .recording true _ => true
  | .revoking _ _ _ | .recording false _ => false

namespace NativeMerge

/-- An arm or a disarm is under way. -/
def UnderWay (s : NativeMerge) : Prop :=
  (∃ enabled, .apply enabled ∈ s.waiting) ∨ ∃ run ∈ s.run, run.ofUser = true

/-- Another pull request takes the place of one for which lazybox's auto-merge is on, or for
which an arm or a disarm is under way. -/
def Replaces (s : NativeMerge) : Act → Prop
  | .commit place _ stored =>
      stored = true ∧ ∃ row ∈ s.polled[place]?, ∃ pr ∈ s.ws.pr, pr.id ≠ row.pr.id
        ∧ (s.github pr.id = .byLazybox ∨ s.UnderWay)
  | .user _ _ _ | .others _ _ | .poll _ | .look | .lock _ _ _ | .proceed _ => False

instance (s : NativeMerge) : Decidable s.UnderWay :=
  inferInstanceAs (Decidable
    ((∃ enabled, .apply enabled ∈ s.waiting) ∨ ∃ run ∈ s.run, run.ofUser = true))

instance (s : NativeMerge) : (a : Act) → Decidable (s.ReadsStale a)
  | .lock place _ _ => inferInstanceAs (Decidable (s.run = none
      ∧ s.waiting[place]? = some .revoke ∧ s.ws.nativeAutoMergeByLazybox = true
        ∧ ∃ pr ∈ s.ws.pr, pr.autoMergeEnabled = false ∧ s.github pr.id = .byLazybox))
  | .user _ _ _ | .others _ _ | .poll _ | .commit _ _ _ | .look | .proceed _ =>
      inferInstanceAs (Decidable False)

instance (s : NativeMerge) : (a : Act) → Decidable (s.Replaces a)
  | .commit place _ stored => inferInstanceAs (Decidable (stored = true
      ∧ ∃ row ∈ s.polled[place]?, ∃ pr ∈ s.ws.pr, pr.id ≠ row.pr.id
        ∧ (s.github pr.id = .byLazybox ∨ s.UnderWay)))
  | .user _ _ _ | .others _ _ | .poll _ | .look | .lock _ _ _ | .proceed _ =>
      inferInstanceAs (Decidable False)

/-- The workspace does not forget that an auto-merge is lazybox's. -/
def Remembers (s : NativeMerge) (a : Act) : Prop := ¬ s.ReadsStale a ∧ ¬ s.Replaces a

instance (s : NativeMerge) (a : Act) : Decidable (s.Remembers a) :=
  inferInstanceAs (Decidable (_ ∧ _))

/-! ### What the runs keep -/

/-- What the run that has the lock can rely on. -/
def Fits (s : NativeMerge) : NativeRun → Prop
  | .arming target _ =>
      (∃ pr ∈ s.ws.pr, pr.id = target.pr.id)
        ∧ (s.intent target.pr.id = some false → .apply false ∈ s.waiting)
  | .disarming target | .revoking target _ _ =>
      ∀ id, s.github id = .byLazybox → id = target.pr.id
  | .recording true _ => True
  | .recording false _ => ∀ id, s.github id ≠ .byLazybox

variable {s : NativeMerge}

variable {run : NativeRun}

/-- A run keeps what it relies on when the pull request of the workspace stays the same, a disarm
of it stays queued, and lazybox turns nothing else on. -/
theorem Fits.mono
    {t : NativeMerge} (h : s.Fits run)
    (hshown : ∀ id, (∃ pr ∈ s.ws.pr, pr.id = id) → ∃ pr ∈ t.ws.pr, pr.id = id)
    (hqueued : ∀ id, (∃ pr ∈ s.ws.pr, pr.id = id) →
      (s.intent id = some false → .apply false ∈ s.waiting) →
      t.intent id = some false → .apply false ∈ t.waiting)
    (hgithub : ∀ id, t.github id = .byLazybox → s.github id = .byLazybox) :
  t.Fits run
  := by
  cases run with
  | arming target mode =>
    obtain ⟨hpr, hpending⟩ := h
    exact ⟨hshown _ hpr, hqueued _ hpr hpending⟩
  | disarming target => exact fun id hid => h id (hgithub id hid)
  | revoking target mode reason => exact fun id hid => h id (hgithub id hid)
  | recording ours notice =>
    cases ours with
    | true => trivial
    | false => exact fun id hid => h id (hgithub id hid)

/-- While nothing is lazybox's, only an arm relies on something. -/
theorem fits_of_off
    (hoff : ∀ id, s.github id ≠ .byLazybox) (hrun : ∀ target mode, run ≠ .arming target mode) :
  s.Fits run
  := by
  cases run with
  | arming target mode => exact absurd rfl (hrun target mode)
  | disarming target => exact fun id hid => absurd hid (hoff id)
  | revoking target mode reason => exact fun id hid => absurd hid (hoff id)
  | recording ours notice =>
    cases ours with
    | true => trivial
    | false => apply hoff

/-- Lazybox's auto-merge is on only for the pull request of the workspace, which remembers it or
is about to; and after a disarm a run to turn it off is queued or has the lock. -/
structure Tracked (s : NativeMerge) : Prop where
  named : ∀ pr ∈ s.ws.pr, pr.nodeId.isSome ∧ (githubTarget pr).isSome
  unasked : s.ws.pr = none → ∀ id, s.intent id = none
  shown : ∀ id, s.github id = .byLazybox → ∃ pr ∈ s.ws.pr, pr.id = id
  known : ∀ id, s.github id = .byLazybox →
    s.ws.nativeAutoMergeByLazybox = true ∨ ∃ notice, s.run = some (.recording true notice)
  fits : ∀ run ∈ s.run, s.Fits run
  armed : .apply true ∈ s.waiting → ∀ pr ∈ s.ws.pr, s.intent pr.id = some false →
    s.ws.autoMergeOnGreen = false
  pending : ∀ id, s.github id = .byLazybox → s.intent id = some false →
    .apply false ∈ s.waiting ∨ ∃ target, s.run = some (.disarming target)

theorem tracked_new (key : WorkspaceKey) (github : TaskId → Bool) :
  Tracked (new key github)
  := by
  have hoff : ∀ id, (new key github).github id ≠ .byLazybox := by
    intro id
    simp only [new]
    split <;> simp
  constructor
  case named => simp [new]
  case unasked => simp [new]
  case shown => exact fun id h => absurd h (hoff id)
  case known => exact fun id h => absurd h (hoff id)
  case fits => simp [new]
  case armed => simp [new]
  case pending => exact fun id h => absurd h (hoff id)

/-- Nothing lazybox turned on, and nothing of the user's under way. -/
theorem Tracked.of_off
    (hoff : ∀ id, s.github id ≠ .byLazybox)
    (named : ∀ pr ∈ s.ws.pr, pr.nodeId.isSome ∧ (githubTarget pr).isSome)
    (unasked : s.ws.pr = none → ∀ id, s.intent id = none)
    (fits : ∀ run ∈ s.run, s.Fits run)
    (armed : .apply true ∈ s.waiting → ∀ pr ∈ s.ws.pr, s.intent pr.id = some false →
      s.ws.autoMergeOnGreen = false) :
  Tracked s
  where
  named := named
  unasked := unasked
  shown := fun id h => absurd h (hoff id)
  known := fun id h => absurd h (hoff id)
  fits := fits
  armed := armed
  pending := fun id h => absurd h (hoff id)

/-! ### The steps -/

theorem tracked_armed (enabled : Bool) (hs : Tracked s) :
  Tracked (s.armed enabled true)
  := by
  have hintent : ∀ pr ∈ s.ws.pr, (s.armed enabled true).intent pr.id = some enabled := by
    intro pr hpr
    simp [NativeMerge.armed, Option.mem_def.mp hpr]
  have hdisarm : enabled = false → NativeJob.apply false ∈ (s.armed enabled true).waiting := by
    rintro rfl
    simp [NativeMerge.armed]
  constructor
  case named => apply hs.named
  case unasked =>
    intro hpr id
    have hnone : s.ws.pr = none := hpr
    simp only [NativeMerge.armed, hnone]
    apply hs.unasked hnone
  case shown => apply hs.shown
  case known => apply hs.known
  case fits =>
    intro run hrun
    apply (hs.fits run hrun).mono
    · exact fun id hid => hid
    · rintro id ⟨pr, hpr, rfl⟩ _ hfalse
      rw [hintent pr hpr] at hfalse
      apply hdisarm
      simpa using hfalse
    · exact fun id hid => hid
  case armed =>
    intro _ pr hpr hfalse
    rw [hintent pr hpr] at hfalse
    simpa [NativeMerge.armed] using hfalse
  case pending =>
    intro id hid hfalse
    obtain ⟨pr, hpr, rfl⟩ := hs.shown id hid
    rw [hintent pr hpr] at hfalse
    left
    apply hdisarm
    simpa using hfalse

/-- Turning auto-merge off, or on by others, leaves fewer pull requests on which it is
lazybox's. -/
theorem tracked_others (github : TaskId → GithubAutoMerge) (hs : Tracked s)
    (hgithub : ∀ id, github id = .byLazybox → s.github id = .byLazybox) :
  Tracked { s with github := github }
  where
  named := hs.named
  unasked := hs.unasked
  shown := fun id h => hs.shown id (hgithub id h)
  known := fun id h => hs.known id (hgithub id h)
  fits := by
    intro run hrun
    apply (hs.fits run hrun).mono
    · exact fun id hid => hid
    · exact fun id _ hqueued => hqueued
    · apply hgithub
  armed := hs.armed
  pending := fun id h => hs.pending id (hgithub id h)

theorem mem_lookAt (s : NativeMerge) (ws : Workspace) (enabled : Bool) :
  .apply enabled ∈ s.lookAt ws ↔ .apply enabled ∈ s.waiting
  := by
  unfold lookAt
  split <;> simp

/-- Queueing checks changes nothing for arms and disarms. -/
theorem tracked_waiting {waiting : List NativeJob} (hs : Tracked s)
    (hwaiting : ∀ enabled, .apply enabled ∈ waiting ↔ .apply enabled ∈ s.waiting) :
  Tracked { s with waiting := waiting }
  where
  named := hs.named
  unasked := hs.unasked
  shown := hs.shown
  known := hs.known
  fits := by
    intro run hrun
    apply (hs.fits run hrun).mono
    · exact fun id hid => hid
    · exact fun id _ hqueued hfalse => (hwaiting false).mpr (hqueued hfalse)
    · exact fun id hid => hid
  armed := fun h => hs.armed ((hwaiting true).mp h)
  pending := by
    intro id hid hfalse
    rcases hs.pending id hid hfalse with hmem | hrun
    · exact .inl ((hwaiting false).mpr hmem)
    · exact .inr hrun

theorem tracked_polled (polled : List PrRow) (hs : Tracked s) :
  Tracked { s with polled := polled }
  := by
  obtain ⟨named, unasked, shown, known, fits, armed, pending⟩ := hs
  constructor <;> assumption

/-- The first row of a workspace. -/
theorem tracked_first (row : PrRow) (hs : Tracked s) (hpr : s.ws.pr = none) :
  Tracked { s with ws := s.ws.attachTask row.pr }
  := by
  have hoff : ∀ id, s.github id ≠ .byLazybox := by
    intro id hid
    obtain ⟨pr, hmem, -⟩ := hs.shown id hid
    simp [hpr] at hmem
  have hws : (s.ws.attachTask row.pr).pr = some row.pr := by simp [Workspace.attachTask, hpr]
  apply Tracked.of_off
  · apply hoff
  · intro pr hmem
    obtain rfl := Option.mem_some_iff.mp (hws ▸ hmem)
    exact ⟨row.node, row.target⟩
  · intro hnone
    simp [hws] at hnone
  · intro run hrun
    apply fits_of_off
    · apply hoff
    · rintro target mode rfl
      obtain ⟨⟨pr, hmem, -⟩, -⟩ := hs.fits _ hrun
      simp [hpr] at hmem
  · intro _ pr _ hfalse
    have hnone := hs.unasked hpr pr.id
    rw [hnone] at hfalse
    simp at hfalse

/-- A row of the same pull request. -/
theorem tracked_refreshed {old : PullRequest} (row : PrRow) (hs : Tracked s)
    (hpr : s.ws.pr = some old) (hid : old.id = row.pr.id) :
  Tracked { s with ws := s.ws.attachTask row.pr }
  := by
  have hws : (s.ws.attachTask row.pr).pr = some (preserveLazyPrFields row.pr old) := by
    simp [Workspace.attachTask, hpr]
  have hnative : (s.ws.attachTask row.pr).nativeAutoMergeByLazybox
      = s.ws.nativeAutoMergeByLazybox := by
    simp [Workspace.attachTask, hpr, hid]
  have hids : ∀ id, (∃ pr ∈ (s.ws.attachTask row.pr).pr, pr.id = id)
      ↔ ∃ pr ∈ s.ws.pr, pr.id = id := by
    intro id
    simp [hws, hpr, preserveLazyPrFields, hid]
  constructor
  case named =>
    intro pr hmem
    obtain rfl := Option.mem_some_iff.mp (hws ▸ hmem)
    exact ⟨row.node, row.target⟩
  case unasked =>
    intro hnone
    simp [hws] at hnone
  case shown => exact fun id h => (hids id).mpr (hs.shown id h)
  case known =>
    intro id h
    rw [hnative]
    apply hs.known id h
  case fits =>
    intro run hrun
    apply (hs.fits run hrun).mono
    · exact fun id hid => (hids id).mpr hid
    · exact fun id _ hqueued => hqueued
    · exact fun id hid => hid
  case armed =>
    intro hmem pr hpr' hfalse
    have hold := hs.armed hmem old hpr
    obtain rfl := Option.mem_some_iff.mp (hws ▸ hpr')
    simp only [preserveLazyPrFields, ← hid] at hfalse
    have hflag : (s.ws.attachTask row.pr).autoMergeOnGreen = s.ws.autoMergeOnGreen := by
      simp [Workspace.attachTask, hpr]
    rw [hflag]
    apply hold hfalse
  case pending => apply hs.pending

/-- A row of another pull request, where lazybox's auto-merge is not on and nothing of the
user's is under way. -/
theorem tracked_replaced {old : PullRequest} (row : PrRow) (hs : Tracked s)
    (hpr : s.ws.pr = some old) (hoff : s.github old.id ≠ .byLazybox) (hfree : ¬ s.UnderWay) :
  Tracked { s with ws := s.ws.attachTask row.pr }
  := by
  have hoff : ∀ id, s.github id ≠ .byLazybox := by
    intro id hid
    obtain ⟨pr, hmem, rfl⟩ := hs.shown id hid
    obtain rfl := Option.mem_some_iff.mp (hpr ▸ hmem)
    exact hoff hid
  have hws : (s.ws.attachTask row.pr).pr = some (preserveLazyPrFields row.pr old) := by
    simp [Workspace.attachTask, hpr]
  apply Tracked.of_off
  · apply hoff
  · intro pr hmem
    obtain rfl := Option.mem_some_iff.mp (hws ▸ hmem)
    exact ⟨row.node, row.target⟩
  · intro hnone
    simp [hws] at hnone
  · intro run hrun
    apply fits_of_off
    · apply hoff
    · rintro target mode rfl
      exact hfree (.inr ⟨_, hrun, rfl⟩)
  · intro hmem
    exact absurd (.inl ⟨true, hmem⟩) hfree

variable {place : ℕ}

/-- A row is committed. -/
theorem tracked_commit {row : PrRow} (looked stored : Bool) (hs : Tracked s)
    (hrow : s.polled[place]? = some row) (h : ¬ s.Replaces (.commit place looked stored)) :
  Tracked (s.commitRow place row looked stored)
  := by
  have hattach : Tracked { s with ws := if stored then s.ws.attachTask row.pr else s.ws } := by
    cases stored with
    | false => apply hs
    | true =>
      simp only [if_true]
      cases hpr : s.ws.pr with
      | none => apply tracked_first row hs hpr
      | some old =>
        by_cases hid : old.id = row.pr.id
        · apply tracked_refreshed row hs hpr hid
        · apply tracked_replaced row hs hpr
          · intro hon
            exact h ⟨rfl, row, hrow, old, hpr, hid, .inl hon⟩
          · intro hfree
            exact h ⟨rfl, row, hrow, old, hpr, hid, .inr hfree⟩
  have hwaiting : ∀ enabled,
      .apply enabled ∈ (if looked then s.lookAt (s.ws.attachTask row.pr) else s.waiting)
        ↔ .apply enabled ∈ s.waiting := by
    intro enabled
    split
    · apply mem_lookAt
    · rfl
  exact tracked_polled (s.polled.eraseIdx place) (tracked_waiting hattach hwaiting)

/-! ### Taking the lock -/

variable {target : NativeTarget}

/-- The target of a workspace is its pull request. -/
theorem nativeTarget_pr {ws : Workspace} (h : ws.nativeTarget = some target) :
  ws.pr = some target.pr
  := by
  simp only [Workspace.nativeTarget, Option.bind_eq_bind, Option.bind_eq_some_iff] at h
  obtain ⟨pr, hpr, nodeId, -, githubTarget, -, htarget⟩ := h
  obtain rfl := Option.some.inj htarget
  exact hpr

theorem nativeTarget_isSome {ws : Workspace} {pr : PullRequest} (hpr : ws.pr = some pr)
    (hnode : pr.nodeId.isSome) (htarget : (githubTarget pr).isSome) :
  ∃ target, ws.nativeTarget = some target
  := by
  obtain ⟨nodeId, hnode⟩ := Option.isSome_iff_exists.mp hnode
  obtain ⟨named, htarget⟩ := Option.isSome_iff_exists.mp htarget
  simp [Workspace.nativeTarget, hpr, hnode, htarget]

/-- Lazybox's auto-merge is on for no other pull request than the target of the workspace. -/
theorem Tracked.id_eq (hs : Tracked s) (htarget : s.ws.nativeTarget = some target) {id : TaskId}
    (hid : s.github id = .byLazybox) :
  id = target.pr.id
  := by
  obtain ⟨pr, hpr, rfl⟩ := hs.shown id hid
  rw [nativeTarget_pr htarget] at hpr
  obtain rfl := Option.mem_some_iff.mp hpr
  rfl

/-- A job that leaves the queue is not a disarm unless it is one. -/
theorem mem_eraseIdx_of_ne {waiting : List NativeJob} {job other : NativeJob}
    (h : waiting[place]? = some job) (hne : other ≠ job) :
  other ∈ waiting → other ∈ waiting.eraseIdx place
  := by
  intro hmem
  obtain ⟨i, hi⟩ := List.mem_iff_getElem?.mp hmem
  apply List.mem_eraseIdx_iff_getElem?.mpr
  use i
  constructor
  · rintro rfl
    rw [h] at hi
    exact hne (Option.some.inj hi).symm
  · exact hi

/-- A run takes the lock: what it does has to fit, and a disarm must not be lost. -/
theorem tracked_locked
    {job : NativeJob} {run : Option NativeRun} (hs : Tracked s)
    (hrun : s.run = none) (hjob : s.waiting[place]? = some job)
    (hfits : ∀ run' ∈ run,
      NativeMerge.Fits { s with waiting := s.waiting.eraseIdx place, run := run } run')
    (hdisarm : job = .apply false → ∀ id, s.github id = .byLazybox →
      ∃ target, run = some (.disarming target)) :
  Tracked { s with waiting := s.waiting.eraseIdx place, run := run }
  where
  named := hs.named
  unasked := hs.unasked
  shown := hs.shown
  known := by
    intro id hid
    rcases hs.known id hid with hnative | ⟨notice, hrecording⟩
    · exact .inl hnative
    · simp [hrun] at hrecording
  fits := hfits
  armed := fun h => hs.armed (List.mem_of_mem_eraseIdx h)
  pending := by
    intro id hid hfalse
    by_cases hne : NativeJob.apply false = job
    · exact .inr (hdisarm hne.symm id hid)
    · left
      apply mem_eraseIdx_of_ne hjob hne
      rcases hs.pending id hid hfalse with hmem | ⟨target, hdisarming⟩
      · exact hmem
      · simp [hrun] at hdisarming

variable (mode : GithubNativeConfig)

theorem tracked_lock_arm (holds : NativeHolds) (hs : Tracked s) (hrun : s.run = none)
    (hjob : s.waiting[place]? = some (.apply true)) :
  Tracked (s.takeLock place (.apply true) mode holds)
  := by
  apply tracked_locked hs hrun hjob
  · intro run hmem
    simp only [applyNativeArm] at hmem
    cases htarget : s.ws.nativeTarget with
    | none => simp [htarget] at hmem
    | some target =>
      simp only [htarget, if_true] at hmem
      split_ifs at hmem with hflag hnever hblock
      · simp at hmem
      · simp at hmem
      · simp at hmem
      · obtain rfl := Option.mem_some_iff.mp hmem
        have hpr := nativeTarget_pr htarget
        constructor
        · exact ⟨target.pr, hpr, rfl⟩
        · intro hfalse
          have harmed := hs.armed (List.mem_of_getElem? hjob) target.pr hpr hfalse
          simp [harmed] at hflag
  · intro h
    simp at h

theorem tracked_lock_disarm (holds : NativeHolds) (hs : Tracked s) (hrun : s.run = none)
    (hjob : s.waiting[place]? = some (.apply false)) :
  Tracked (s.takeLock place (.apply false) mode holds)
  := by
  apply tracked_locked hs hrun hjob
  · intro run hmem
    simp only [applyNativeArm] at hmem
    cases htarget : s.ws.nativeTarget with
    | none => simp [htarget] at hmem
    | some target =>
      simp only [htarget, Bool.false_eq_true, if_false] at hmem
      split_ifs at hmem with hnative
      · obtain rfl := Option.mem_some_iff.mp hmem
        exact fun id hid => hs.id_eq htarget hid
      · simp at hmem
  · intro _ id hid
    obtain ⟨pr, hpr, -⟩ := hs.shown id hid
    obtain ⟨hnode, hnamed⟩ := hs.named pr hpr
    obtain ⟨target, htarget⟩ := nativeTarget_isSome hpr hnode hnamed
    have hnative : s.ws.nativeAutoMergeByLazybox = true := by
      rcases hs.known id hid with hnative | ⟨notice, hrecording⟩
      · exact hnative
      · simp [hrun] at hrecording
    use target
    simp [applyNativeArm, htarget, hnative]

theorem tracked_lock_revoke (holds : NativeHolds) (hs : Tracked s) (hrun : s.run = none)
    (hjob : s.waiting[place]? = some .revoke) (h : ¬ s.ReadsStale (.lock place mode holds)) :
  Tracked (s.takeLock place .revoke mode holds)
  := by
  apply tracked_locked hs hrun hjob
  · intro run hmem
    simp only [revokeNativeIfUnsafe] at hmem
    split_ifs at hmem with hnative
    · simp at hmem
    · cases htarget : s.ws.nativeTarget with
      | none => simp [htarget] at hmem
      | some target =>
        simp only [htarget] at hmem
        split_ifs at hmem with henabled
        · obtain rfl := Option.mem_some_iff.mp hmem
          intro id hid
          have hpr := nativeTarget_pr htarget
          rw [hs.id_eq htarget hid] at hid
          apply h
          exact ⟨hrun, hjob, by simpa using hnative, target.pr, hpr, by simpa using henabled,
            hid⟩
        · obtain rfl := Option.mem_some_iff.mp hmem
          exact fun id hid => hs.id_eq htarget hid
  · intro h
    simp at h

/-! ### Going on with the lock -/

/-- A run that turned nothing on and was not to turn anything off releases the lock. -/
theorem tracked_release
    (hs : Tracked s) (hrun : s.run = some run) (hdisarming : ∀ target, run ≠ .disarming target)
    (hrecording : ∀ notice, run ≠ .recording true notice) :
  Tracked s.release
  where
  named := hs.named
  unasked := hs.unasked
  shown := hs.shown
  known := by
    intro id hid
    rcases hs.known id hid with hnative | ⟨notice, h⟩
    · exact .inl hnative
    · rw [hrun] at h
      exact absurd (Option.some.inj h) (hrecording notice)
  fits := by simp [release]
  armed := hs.armed
  pending := by
    intro id hid hfalse
    rcases hs.pending id hid hfalse with hmem | ⟨target, h⟩
    · exact .inl hmem
    · rw [hrun] at h
      exact absurd (Option.some.inj h) (hdisarming target)

/-- GitHub's auto-merge of the target of an arm is turned on. -/
theorem tracked_enabled {mode : GithubNativeConfig} (notice : Option Notice) (hs : Tracked s)
    (hrun : s.run = some (.arming target mode)) :
  Tracked { s with
    github := s.mutated target.pr.id true, run := some (.recording true notice) }
  := by
  obtain ⟨hshown, hqueued⟩ := hs.fits _ hrun
  have hcases : ∀ id, s.mutated target.pr.id true id = .byLazybox →
      id = target.pr.id ∨ s.github id = .byLazybox := by
    intro id hid
    by_cases h : id = target.pr.id
    · exact .inl h
    · right
      rwa [mutated, Function.update_of_ne h] at hid
  constructor
  case named => apply hs.named
  case unasked => apply hs.unasked
  case shown =>
    intro id hid
    rcases hcases id hid with rfl | hid
    · apply hshown
    · apply hs.shown id hid
  case known => exact fun _ _ => .inr ⟨notice, rfl⟩
  case fits =>
    intro run hmem
    obtain rfl := Option.mem_some_iff.mp hmem
    trivial
  case armed => apply hs.armed
  case pending =>
    intro id hid hfalse
    left
    rcases hcases id hid with rfl | hid
    · apply hqueued hfalse
    · rcases hs.pending id hid hfalse with hmem | ⟨target, h⟩
      · exact hmem
      · simp [hrun] at h

/-- GitHub's auto-merge of the only pull request on which it can be lazybox's is turned off. -/
theorem tracked_disabled (notice : Option Notice) (hs : Tracked s)
    (htarget : ∀ id, s.github id = .byLazybox → id = target.pr.id) :
  Tracked { s with
    github := s.mutated target.pr.id false, run := some (.recording false notice) }
  := by
  have hoff : ∀ id, s.mutated target.pr.id false id ≠ .byLazybox := by
    intro id hid
    by_cases h : id = target.pr.id
    · simp [mutated, h] at hid
    · rw [mutated, Function.update_of_ne h] at hid
      exact h (htarget id hid)
  apply Tracked.of_off
  · apply hoff
  · apply hs.named
  · apply hs.unasked
  · intro run hmem
    obtain rfl := Option.mem_some_iff.mp hmem
    apply hoff
  · apply hs.armed

/-- It is recorded whether lazybox's auto-merge is on. -/
theorem tracked_recorded {ours : Bool} {notice : Option Notice} (hs : Tracked s)
    (hrun : s.run = some (.recording ours notice)) :
  Tracked (s.setNativeProvenance ours true).release
  := by
  constructor
  case named => apply hs.named
  case unasked => apply hs.unasked
  case shown => apply hs.shown
  case known =>
    intro id hid
    cases ours with
    | true => exact .inl rfl
    | false => exact absurd hid (hs.fits _ hrun id)
  case fits => simp [release]
  case armed => apply hs.armed
  case pending =>
    intro id hid hfalse
    rcases hs.pending id hid hfalse with hmem | ⟨target, h⟩
    · exact .inl hmem
    · simp [hrun] at h

/-- A mutation that did not fail took effect. -/
theorem ask_eq {id : TaskId} {enable : Bool} {env : NativeAnswers}
    {answered : Except NativeArmError Unit → Option NativeRun × List Notice}
    (h : (s.ask id enable env (answered env.mutation)).1.failed = false) :
  (s.ask id enable env (answered env.mutation)).1
    = { s with github := s.mutated id enable, run := (answered (.ok ())).1 }
  := by
  obtain ⟨client, paused, shortfall, fromCache, mutation, landed, stored⟩ := env
  cases mutation with
  | error e => simp [ask, Except.isOk, Except.toBool] at h
  | ok => simp [ask, Except.isOk, Except.toBool]

/-- The run that has the lock goes on, without a mutation failing. -/
theorem tracked_goOn (env : NativeAnswers) (hs : Tracked s) (hrun : s.run = some run)
    (hfailed : (s.goOn env run).1.failed = false) :
  Tracked (s.goOn env run).1
  := by
  cases run with
  | arming target mode =>
    simp only [goOn] at hfailed ⊢
    split at hfailed
    · apply tracked_release hs hrun <;> simp
    · rw [ask_eq hfailed]
      apply tracked_enabled _ hs hrun
  | disarming target =>
    simp only [goOn] at hfailed ⊢
    split at hfailed
    · simp at hfailed
    · rw [ask_eq hfailed]
      apply tracked_disabled _ hs (hs.fits _ hrun)
  | revoking target mode reason =>
    simp only [goOn] at hfailed ⊢
    split at hfailed
    · apply tracked_release hs hrun <;> simp
    · rw [ask_eq hfailed]
      apply tracked_disabled _ hs (hs.fits _ hrun)
  | recording ours notice =>
    have hstored : env.stored = true := by
      by_contra h
      simp [goOn, release, setNativeProvenance, h] at hfailed
    simp only [goOn, hstored]
    apply tracked_recorded hs hrun

/-! ### Whole runs -/

/-- A mutation that failed stays so. -/
theorem failed_step (s : NativeMerge) (a : Act) (h : s.failed = true) :
  (s.step a).1.failed = true
  := by
  cases a with
  | user enabled policy stored =>
    simp only [step, setAutoMergeOnGreen]
    split
    · split <;> simp [NativeMerge.armed, h]
    · simp [NativeMerge.armed, h]
  | others | poll | look => apply h
  | commit =>
    simp only [step]
    split <;> apply h
  | lock =>
    simp only [step]
    split <;> apply h
  | proceed env =>
    simp only [step]
    split
    · rename_i run _
      cases run with
      | arming | revoking =>
        simp only [goOn]
        split <;> simp [release, ask, h]
      | disarming =>
        simp only [goOn]
        split <;> simp [ask, h]
      | recording => simp [goOn, release, setNativeProvenance, h]
    · apply h

theorem tracked_user {enabled : Bool} {policy : MergeOnGreenPolicy} {stored : Bool} (hs : Tracked s)
    (hfailed : (s.setAutoMergeOnGreen enabled policy stored).1.failed = false) :
  Tracked (s.setAutoMergeOnGreen enabled policy stored).1
  := by
  have hstored : ∀ enabled, (s.armed enabled stored).failed = false → stored = true := by
    intro enabled hfalse
    simp only [NativeMerge.armed, Bool.or_eq_false_iff, Bool.not_eq_false'] at hfalse
    exact hfalse.2
  cases enabled with
  | false =>
    simp only [setAutoMergeOnGreen, Bool.false_eq_true, if_false] at hfailed ⊢
    obtain rfl := hstored _ hfailed
    apply tracked_armed _ hs
  | true =>
    simp only [setAutoMergeOnGreen, if_true] at hfailed ⊢
    split at hfailed
    · apply hs
    · obtain rfl := hstored _ hfailed
      apply tracked_armed _ hs

theorem tracked_step
    {a : Act} (h : s.Remembers a) (hs : Tracked s) (hfailed : (s.step a).1.failed = false) :
  Tracked (s.step a).1
  := by
  cases a with
  | user enabled policy stored => apply tracked_user hs hfailed
  | others id on =>
    apply tracked_others _ hs
    intro other hother
    by_cases hid : other = id
    · subst hid
      rw [Function.update_self] at hother
      split at hother <;> simp at hother
    · rwa [Function.update_of_ne hid] at hother
  | poll row => apply tracked_polled _ hs
  | commit place looked stored =>
    simp only [step]
    split
    · rename_i row hrow
      apply tracked_commit looked stored hs hrow h.2
    · apply hs
  | look => exact tracked_waiting hs (mem_lookAt s s.ws)
  | lock place mode holds =>
    simp only [step]
    split
    · rename_i job hrun hjob
      cases job with
      | apply enabled =>
        cases enabled with
        | true => apply tracked_lock_arm mode holds hs hrun hjob
        | false => apply tracked_lock_disarm mode holds hs hrun hjob
      | revoke => apply tracked_lock_revoke mode holds hs hrun hjob h.1
    · apply hs
  | proceed env =>
    simp only [step] at hfailed ⊢
    split at hfailed
    · rename_i run hrun
      apply tracked_goOn env hs hrun hfailed
    · apply hs

/-- A run that never forgets what is lazybox's follows the user in every state: after a disarm,
once nothing is under way and if no mutation failed, lazybox's auto-merge is off. -/
theorem native_auto_merge_follows_intent
    (key : WorkspaceKey) (github : TaskId → Bool) {as : List Act}
    (h : machine.Along Remembers (new key github) as) :
  FollowsIntent (machine.final (new key github) as)
  := by
  have hinvariant : (machine.final (new key github) as).failed = false →
      Tracked (machine.final (new key github) as) := by
    apply machine.invariant (I := fun s _ => s.failed = false → Tracked s) _ _ h
    · intro _
      apply tracked_new
    · intro s _ a ha hs hfailed
      have hbefore : s.failed = false := by
        by_contra hne
        have hstep := failed_step s a (by simpa using hne)
        exact absurd hfailed (by simpa [Machine.next, machine] using hstep)
      apply tracked_step ha (hs hbefore) hfailed
  intro hfailed hwaiting hrun id hintent hid
  rcases (hinvariant hfailed).pending id hid hintent with hmem | ⟨target, hdisarming⟩
  · simp [hwaiting] at hmem
  · simp [hrun] at hdisarming

/-- A row of a pull request that waits for its checks. -/
def pendingRow : PrRow where
  pr := {
    id := ⟨"github", "o/r#1"⟩
    nodeId := some "PR_1"
    repo := some "o/r"
    baseBranch := some "main"
    author := "me"
    role := .author
    state := .opened
    ci := .pending
    review := .none
    reviews := []
    approvalPolicy := .default
    mergeable := .mergeable
    mergeBlocked := false
    autoMergeEnabled := false
    isInMergeQueue := false }
  node := rfl
  target := by decide

/-- Nothing holds the pull request back. -/
def noHolds : NativeHolds := ⟨true, false, [], false, .ok .default, false⟩

/-- GitHub's gate is as strict as the daemon's, and GitHub does what it is asked. -/
def willing : NativeAnswers := ⟨true, false, none, false, .ok (), false, true⟩

/-- The user arms or disarms, and the run that follows takes the lock. -/
def userLocks (enabled : Bool) : List Act :=
  [.user enabled (.fromAllowAuthors []) true, .lock 0 .auto noHolds]

/-- The row is committed, and the workspace armed: GitHub's auto-merge is turned on.  Disarmed,
it is turned off. -/
theorem follows_intent_disarmed :
  let as := [.poll pendingRow, .commit 0 true true] ++ userLocks true
    ++ [.proceed willing, .proceed willing] ++ userLocks false
    ++ [.proceed willing, .proceed willing]
  let s := machine.final (new ⟨"github-o-r-1"⟩ fun _ => false) as
  machine.Along Remembers (new ⟨"github-o-r-1"⟩ fun _ => false) as
    ∧ s.intent ⟨"github", "o/r#1"⟩ = some false ∧ s.waiting = [] ∧ s.run = none
    ∧ s.failed = false ∧ FollowsIntent s
  := by
  have hremembers : machine.Along Remembers (new ⟨"github-o-r-1"⟩ fun _ => false)
      ([.poll pendingRow, .commit 0 true true] ++ userLocks true
        ++ [.proceed willing, .proceed willing] ++ userLocks false
        ++ [.proceed willing, .proceed willing]) := by decide
  exact ⟨hremembers, by decide, by decide, by decide, by decide,
    native_auto_merge_follows_intent ⟨"github-o-r-1"⟩ (fun _ => false) hremembers⟩

/-- A row that was read before the user armed is committed after one that was read later.  The
check which the later one is due finds the auto-merge off, and forgets that it is lazybox's; the
user then disarms, and it stays on. -/
theorem stale_row_outlives_disarm :
  let as := [.poll pendingRow, .commit 0 true true, .poll pendingRow] ++ userLocks true
    ++ [.proceed willing, .proceed willing, .poll pendingRow, .commit 0 true true,
      .commit 0 true true, .lock 0 .auto noHolds, .proceed willing]
    ++ userLocks false
  let s := machine.final (new ⟨"github-o-r-1"⟩ fun _ => false) as
  ¬ FollowsIntent s ∧ s.intent ⟨"github", "o/r#1"⟩ = some false ∧ s.waiting = []
    ∧ s.run = none ∧ s.failed = false ∧ s.github ⟨"github", "o/r#1"⟩ = .byLazybox
  := by
  dsimp only
  constructor
  · intro h
    apply h
    · decide
    · decide
    · decide
    · show NativeMerge.intent _ ⟨"github", "o/r#1"⟩ = some false
      decide
    · decide
  · exact ⟨by decide, by decide, by decide, by decide, by decide⟩

end NativeMerge

end Lazybox
