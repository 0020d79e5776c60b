import Lazybox.Polling.AutoMerge
import Mathlib.Data.List.Perm.Basic

/-!
# What the latch of automatic merging keeps

A latch in flight stands for an attempt under way: it keeps a second attempt from being
dispatched.  Releasing removes the latch whether or not an attempt is under way, and an attempt
settles the latch of its workspace without asking whose it is.  So a workspace that is released
and fires again during an attempt has two of them, and the first to end settles the latch of the
second.  No other run has two attempts of one workspace under way.

A settled latch remembers the head it settled on.  A changed row with a new head dispatches an
attempt, unless the latch says that a merge was accepted: then it does not, whatever the head.
-/

namespace Lazybox

/-! ### The latches an attempt leaves -/

/-- A merge that was answered does not leave its key in flight. -/
theorem mergeAnswered_latch (key : WorkspaceKey) (prLabel : String) (fresh : PullRequest)
    (head : Option String) (answer : Except MergeError MergeOutcome) :
  (mergeAnswered key prLabel fresh head answer).latch ≠ some .inFlight
  := by
  rcases answer with e | (trailers | -)
  · simp only [mergeAnswered]
    split
    · simp
    · split <;> simp
  · simp [mergeAnswered]
  · simp [mergeAnswered]

variable {ticket : AttemptPlan}

theorem verifyAndMerge_latch (ws : Workspace) (prLabel : String) (fetched : PullRequest)
    (head : Option String) (env : Answers) (h : ticket.restore ≠ some .inFlight) :
  (verifyAndMerge ticket ws prLabel fetched head env).latch ≠ some .inFlight
  := by
  unfold verifyAndMerge
  split
  · apply h
  · dsimp only
    split
    · simp
    · split
      · simp
      · split
        · simp
        · apply mergeAnswered_latch

theorem runAttempt_latch (env : Answers) (h : ticket.restore ≠ some .inFlight) :
  (runAttempt ticket env).latch ≠ some .inFlight
  := by
  unfold runAttempt
  split
  · simp [AttemptOutcome.quiet]
  · split_ifs
    · simp [AttemptOutcome.quiet]
    · simp [AttemptOutcome.quiet]
    · apply h
    · split
      · apply h
      · simp [AttemptOutcome.quiet]
      · apply verifyAndMerge_latch _ _ _ _ _ h

/-- An attempt does not leave its key in flight. -/
theorem runRealAttempt_latch (env : Answers) (h : ticket.restore ≠ some .inFlight) :
  (runRealAttempt ticket env).latch ≠ some .inFlight
  := by
  unfold runRealAttempt
  split
  · simp [AttemptOutcome.quiet]
  · split_ifs
    · simp [AttemptOutcome.quiet]
    · simp [AttemptOutcome.quiet]
    · apply runAttempt_latch env h
    · cases hrestore : ticket.restore with
      | none => simp [AttemptOutcome.quiet]
      | some latch =>
        rw [hrestore] at h
        apply h

/-- A latch under which a signal to fire dispatches nothing. -/
def Latch.keeps (changed : Bool) : Latch → Prop
  | .inFlight | .done _ => True
  | .blocked _ | .rejected _ => changed = false

namespace AutoMergeMemory

@[simp] theorem latch_settle_self
    (memory : AutoMergeMemory) (key : WorkspaceKey) (latch : Option Latch) :
  (memory.settle key latch).latch key = latch
  := by
  apply Function.update_self

theorem latch_settle_of_ne (memory : AutoMergeMemory) {key other : WorkspaceKey}
    (latch : Option Latch) (h : other ≠ key) :
  (memory.settle key latch).latch other = memory.latch other
  := by
  apply Function.update_of_ne h

end AutoMergeMemory

namespace AutoMerge

/-! ### What a step does -/

/-- The state after an attempt is dispatched. -/
def dispatched (s : AutoMerge) (plan : AttemptPlan) : AutoMerge where
  memory := (s.memory.dispatch plan.workspaceKey plan.skipIfHead plan.restore).1
  running := ⟨s.memory.attemptsStarted, plan⟩ :: s.running
  owner := s.ownedBy plan.workspaceKey (some s.memory.attemptsStarted)

theorem latch_dispatched (s : AutoMerge) (plan : AttemptPlan) :
  (s.dispatched plan).memory.latch
    = (s.memory.settle plan.workspaceKey (some .inFlight)).latch
  := by
  rfl

/-- The steps of the daemon. -/
inductive Moves (s : AutoMerge) : Act → AutoMerge × List Obs → Prop where
  | held {key ws holds changed head}
      (signal : holds.signal (signalFor ws) = .hold) :
      Moves s (.committed key ws holds changed head) (s, [])
  | kept {key ws holds changed head latch}
      (signal : holds.signal (signalFor ws) = .fire)
      (latch_eq : s.memory.latch key = some latch)
      (keeps : Latch.keeps changed latch) :
      Moves s (.committed key ws holds changed head) (s, [])
  | released {key ws holds changed head}
      (signal : holds.signal (signalFor ws) = .release) :
      Moves s (.committed key ws holds changed head)
        (⟨s.memory.settle key none, s.running, s.ownedBy key none⟩, [])
  | dispatched {key ws holds changed head skipIfHead restore}
      (signal : holds.signal (signalFor ws) = .fire)
      (latch_ne : s.memory.latch key ≠ some .inFlight)
      (restore_ne : restore ≠ some .inFlight) :
      Moves s (.committed key ws holds changed head)
        (s.dispatched ⟨key, skipIfHead, restore⟩,
          [.dispatched ⟨s.memory.attemptsStarted, ⟨key, skipIfHead, restore⟩⟩])
  | settled {place env attempt}
      (running : s.running[place]? = some attempt) :
      Moves s (.settled place env) (s.settle place attempt env)
  | absent {place env}
      (running : s.running[place]? = none) :
      Moves s (.settled place env) (s, [])

variable {key : WorkspaceKey}

theorem moves_fire (s : AutoMerge) {ws : Workspace} {holds : EpicHolds} {changed : Bool}
    {head : Option String} (signal : holds.signal (signalFor ws) = .fire) :
  Moves s (.committed key ws holds changed head)
    (s.onWorkspaceCommitted key (signalFor ws) holds changed)
  := by
  cases hlatch : s.memory.latch key with
  | none =>
    simp only [onWorkspaceCommitted, signal, plan, hlatch]
    apply Moves.dispatched signal <;> simp [hlatch]
  | some latch =>
    cases latch with
    | inFlight | done =>
      simp only [onWorkspaceCommitted, signal, plan, hlatch, reduceCtorEq, if_false]
      apply Moves.kept signal hlatch
      trivial
    | blocked h | rejected h =>
      cases changed with
      | false =>
        simp only [onWorkspaceCommitted, signal, plan, hlatch, reduceCtorEq, if_false,
          Bool.false_eq_true]
        apply Moves.kept signal hlatch
        rfl
      | true =>
        simp only [onWorkspaceCommitted, signal, plan, hlatch]
        apply Moves.dispatched signal <;> simp [hlatch]

/-- Every step is one of these. -/
theorem moves (s : AutoMerge) (a : Act) :
  Moves s a (s.step a)
  := by
  cases a with
  | committed key ws holds changed head =>
    cases signal : holds.signal (signalFor ws) with
    | fire => apply moves_fire s signal
    | hold =>
      simp only [step, onWorkspaceCommitted, signal, plan, reduceCtorEq, if_false]
      apply Moves.held signal
    | release =>
      simp only [step, onWorkspaceCommitted, signal, plan, if_true]
      apply Moves.released signal
  | settled place env =>
    cases running : s.running[place]? with
    | none =>
      simp only [step, running]
      apply Moves.absent running
    | some attempt =>
      simp only [step, running]
      apply Moves.settled running

/-! ### One attempt at a time -/

/-- The number of attempts of a workspace under way. -/
def inFlight (s : AutoMerge) (key : WorkspaceKey) : ℕ :=
  s.running.countP fun attempt => attempt.key = key

/-- An attempt ends and finds the latch of a newer one. -/
def Overwrites (s : AutoMerge) : Act → Prop
  | .committed _ _ _ _ _ => False
  | .settled place _ =>
      ∃ attempt ∈ s.running[place]?, ∃ newer ∈ s.owner attempt.key, attempt.seq < newer

/-- After the step no workspace has two attempts under way, and the step does not overwrite the
latch of a newer attempt. -/
structure OneAtATime (s : AutoMerge) (a : Act) : Prop where
  single : ∀ key, (machine.next s a).inFlight key ≤ 1
  own : ¬ s.Overwrites a

/-- A workspace fires during an attempt whose latch was released. -/
def Refires (s : AutoMerge) : Act → Prop
  | .committed key ws holds _ _ =>
      holds.signal (signalFor ws) = .fire ∧ s.memory.latch key = none ∧ 0 < s.inFlight key
  | .settled _ _ => False

/-- The latch of an attempt is still in flight, unless it was released. -/
structure Latched (s : AutoMerge) (attempt : Attempt) : Prop where
  latch : s.memory.latch attempt.key = some .inFlight ∨ s.memory.latch attempt.key = none
  owner : ∀ n ∈ s.owner attempt.key, n = attempt.seq

/-- Every workspace has at most one attempt under way, which holds its latch. -/
structure Guarded (s : AutoMerge) : Prop where
  single : ∀ key, s.inFlight key ≤ 1
  latched : ∀ attempt ∈ s.running, s.Latched attempt

theorem guarded_new :
  Guarded new
  where
  single := fun _ => Nat.zero_le 1
  latched := by simp [new]

variable {attempt : Attempt} {s : AutoMerge}

/-- The attempts of other workspaces do not notice that a latch is settled. -/
theorem latched_of_ne {t : AutoMerge} {latch : Option Latch} {owner : Option ℕ}
    (hkey : attempt.key ≠ key) (hlatch : t.memory.latch = (s.memory.settle key latch).latch)
    (howner : t.owner = s.ownedBy key owner) (h : s.Latched attempt) :
  t.Latched attempt
  where
  latch := by
    rw [hlatch, AutoMergeMemory.latch_settle_of_ne _ _ hkey]
    apply h.latch
  owner := by
    rw [howner, ownedBy, Function.update_of_ne hkey]
    apply h.owner

/-- A workspace without attempts under way has none among those running. -/
theorem key_ne_of_inFlight (h : s.inFlight key = 0) (hattempt : attempt ∈ s.running) :
  attempt.key ≠ key
  := by
  intro hkey
  have hnone := List.countP_eq_zero.mp h attempt hattempt
  simp [hkey] at hnone

theorem inFlight_dispatched (s : AutoMerge) (plan : AttemptPlan) (key : WorkspaceKey) :
  (s.dispatched plan).inFlight key
    = s.inFlight key + (if plan.workspaceKey = key then 1 else 0)
  := by
  rw [inFlight, dispatched, List.countP_cons]
  by_cases h : plan.workspaceKey = key
  · simp [inFlight, Attempt.key, h]
  · simp [inFlight, Attempt.key, h]

/-- Ending an attempt takes one from those of its workspace. -/
theorem inFlight_settle
    {place : ℕ} (h : s.running[place]? = some attempt) (env : Answers) (key : WorkspaceKey) :
  s.inFlight key
    = (s.settle place attempt env).1.inFlight key + (if attempt.key = key then 1 else 0)
  := by
  obtain ⟨hplace, rfl⟩ := List.getElem?_eq_some_iff.mp h
  rw [inFlight, ← (List.getElem_cons_eraseIdx_perm hplace).countP_eq, List.countP_cons]
  simp [inFlight, settle]

theorem guarded_released (key : WorkspaceKey) (hs : Guarded s) :
  Guarded ⟨s.memory.settle key none, s.running, s.ownedBy key none⟩
  where
  single := hs.single
  latched := by
    intro attempt hattempt
    by_cases hkey : attempt.key = key
    · constructor
      · right
        rw [hkey]
        apply AutoMergeMemory.latch_settle_self
      · simp [ownedBy, hkey]
    · apply latched_of_ne hkey rfl rfl (hs.latched attempt hattempt)

theorem guarded_dispatched
    {plan : AttemptPlan} (hs : Guarded s) (hnone : s.inFlight plan.workspaceKey = 0) :
  Guarded (s.dispatched plan)
  where
  single := by
    intro key
    rw [inFlight_dispatched]
    split_ifs with hkey
    · rw [← hkey, hnone]
    · apply hs.single
  latched := by
    intro attempt hattempt
    rcases List.mem_cons.mp hattempt with rfl | hattempt
    · constructor
      · left
        apply AutoMergeMemory.latch_settle_self
      · simp [dispatched, ownedBy, Attempt.key]
    · apply latched_of_ne (key_ne_of_inFlight hnone hattempt) (latch_dispatched s plan) rfl
      apply hs.latched attempt hattempt

theorem guarded_settle
    {place : ℕ} (env : Answers) (hs : Guarded s) (h : s.running[place]? = some attempt) :
  Guarded (s.settle place attempt env).1
  where
  single := by
    intro key
    have hkey := hs.single key
    rw [inFlight_settle h env key] at hkey
    omega
  latched := by
    intro other hother
    have hnone : (s.settle place attempt env).1.inFlight attempt.key = 0 := by
      have hkey := hs.single attempt.key
      rw [inFlight_settle h env attempt.key, if_pos rfl] at hkey
      omega
    apply latched_of_ne (key_ne_of_inFlight hnone hother) rfl rfl
    apply hs.latched other (List.mem_of_mem_eraseIdx hother)

/-- A workspace that fires outside the attempts whose latch was released, and whose latch is
not in flight, has no attempt under way. -/
theorem inFlight_eq_zero (hs : Guarded s) (hlatch : s.memory.latch key ≠ some .inFlight)
    (hrefires : ¬ (s.memory.latch key = none ∧ 0 < s.inFlight key)) :
  s.inFlight key = 0
  := by
  by_contra hpos
  obtain ⟨attempt, hattempt, hkey⟩ :=
    List.countP_pos_iff.mp (Nat.pos_of_ne_zero hpos)
  obtain rfl : attempt.key = key := by simpa using hkey
  rcases (hs.latched attempt hattempt).latch with hflight | hnone
  · exact hlatch hflight
  · exact hrefires ⟨hnone, Nat.pos_of_ne_zero hpos⟩

theorem guarded_step (s : AutoMerge) (a : Act) (h : ¬ s.Refires a) (hs : Guarded s) :
  Guarded (machine.next s a)
  := by
  change Guarded (s.step a).1
  have hmove := moves s a
  generalize s.step a = next at hmove
  cases hmove with
  | held | kept | absent => apply hs
  | released => apply guarded_released _ hs
  | dispatched signal latch_ne =>
    apply guarded_dispatched hs
    apply inFlight_eq_zero hs latch_ne
    intro hrefires
    exact h ⟨signal, hrefires⟩
  | settled running => apply guarded_settle _ hs running

/-- An attempt that holds its latch overwrites no newer one. -/
theorem not_overwrites (a : Act) (hs : Guarded s) :
  ¬ s.Overwrites a
  := by
  cases a with
  | committed => exact id
  | settled place env =>
    rintro ⟨attempt, hattempt, newer, hnewer, hlt⟩
    have hmem := List.mem_of_getElem? hattempt
    rw [(hs.latched attempt hmem).owner newer hnewer] at hlt
    exact lt_irrefl _ hlt

/-- A workspace that fires during an attempt whose latch was released gets a second one. -/
theorem not_refires {a : Act} (h : s.OneAtATime a) :
  ¬ s.Refires a
  := by
  cases a with
  | settled => exact id
  | committed key ws holds changed head =>
    rintro ⟨signal, hlatch, hpos⟩
    have hsingle := h.single key
    have hnext : machine.next s (.committed key ws holds changed head)
        = s.dispatched ⟨key, none, none⟩ := by
      simp [machine, Machine.next, step, onWorkspaceCommitted, signal, plan, hlatch,
        AutoMergeMemory.dispatch, dispatched]
    rw [hnext, inFlight_dispatched, if_pos rfl] at hsingle
    omega

/-- In a run, no workspace ever has two attempts under way and no attempt overwrites the latch
of a newer one, exactly when no workspace fires during an attempt whose latch was released. -/
theorem one_attempt_iff_no_refire (as : List Act) :
  machine.Along OneAtATime new as ↔ machine.Along (fun s a => ¬ s.Refires a) new as
  := by
  constructor
  · apply machine.along_of_invariant (I := fun _ => True) trivial
    · intros
      trivial
    · intro s a h _
      apply not_refires h
  · apply machine.along_of_invariant guarded_new
    · intro s a h hs
      apply guarded_step s a h hs
    · intro s a h hs
      constructor
      · apply (guarded_step s a h hs).single
      · apply not_overwrites a hs

/-- A pull request that is ready to be merged. -/
def readyPr : PullRequest where
  id := ⟨"github", "o/r#1"⟩
  nodeId := none
  repo := some "o/r"
  baseBranch := some "main"
  author := "me"
  role := .author
  state := .opened
  ci := .success
  review := .none
  reviews := []
  approvalPolicy := .default
  mergeable := .mergeable
  mergeBlocked := false
  autoMergeEnabled := false
  isInMergeQueue := false

/-- Its workspace, armed or not. -/
def readyRow (armed : Bool) : Workspace where
  key := ⟨"github-o-r-1"⟩
  pr := some readyPr
  autoMergeOnGreen := armed
  nativeAutoMergeByLazybox := false

/-- A changed row of it is committed, which no epic holds. -/
def commitReady (armed : Bool) (head : String) : Act :=
  .committed ⟨"github-o-r-1"⟩ (readyRow armed) ⟨false, .ok []⟩ true (some head)

/-- What an attempt of it is answered when GitHub takes it into the merge queue. -/
def queuedAnswers (head : String) : Answers where
  stored := some (readyRow true)
  client := true
  ws := some (readyRow true)
  pausedUntil := none
  fetched := .ok (some (readyPr, some head))
  approval := .ok .default
  policy := .fromAllowAuthors []
  stacked := false
  merge := .ok .queued

/-- A workspace that is disarmed and armed again during an attempt has two attempts under way,
and the first one to end overwrites the latch of the second. -/
theorem rearmed_during_attempt :
  let as := [commitReady true "abc", commitReady false "abc", commitReady true "abc"]
  let s := machine.final new as
  ¬ machine.Along OneAtATime new as ∧ s.inFlight ⟨"github-o-r-1"⟩ = 2
    ∧ s.Overwrites (.settled 1 (queuedAnswers "abc"))
  := by
  have htwo : (machine.final new [commitReady true "abc", commitReady false "abc",
      commitReady true "abc"]).inFlight ⟨"github-o-r-1"⟩ = 2 := by decide
  constructor
  · rintro ⟨-, -, h, -⟩
    have hsingle := h.single ⟨"github-o-r-1"⟩
    exact absurd (htwo ▸ hsingle) (by decide)
  · constructor
    · exact htwo
    · exact ⟨⟨0, ⟨⟨"github-o-r-1"⟩, none, none⟩⟩, rfl, 1, rfl, Nat.zero_lt_one⟩

/-! ### New heads -/

/-- A changed row signals to fire, no attempt of its workspace is under way, and the head of its
pull request is not the one the latch settled on. -/
def NewHead (s : AutoMerge) : Act → Prop
  | .committed key ws holds changed head =>
      changed = true ∧ holds.signal (signalFor ws) = .fire ∧ s.inFlight key = 0
        ∧ ∀ latch ∈ s.memory.latch key, latch.settledOn ≠ some head
  | .settled _ _ => False

/-- The row that is committed dispatches an attempt of its workspace. -/
def Dispatches (s : AutoMerge) (a : Act) : Prop :=
  match a with
  | .committed key _ _ _ _ =>
      ∃ attempt : Attempt, attempt.key = key ∧ Obs.dispatched attempt ∈ machine.emit s a
  | .settled _ _ => False

/-- The row that is committed is of a workspace a merge of which was accepted, for any head. -/
def Accepted (s : AutoMerge) : Act → Prop
  | .committed key _ _ _ _ => ∃ head, s.memory.latch key = some (.done head)
  | .settled _ _ => False

/-- A latch in flight stands for an attempt under way. -/
structure Live (s : AutoMerge) : Prop where
  inFlight : ∀ key, s.memory.latch key = some .inFlight → 0 < s.inFlight key
  restore : ∀ attempt ∈ s.running, attempt.plan.restore ≠ some .inFlight

theorem live_new :
  Live new
  where
  inFlight := by simp [new, AutoMergeMemory.new, AutoMergeMemory.latch]
  restore := by simp [new]

theorem live_released (key : WorkspaceKey) (hs : Live s) :
  Live ⟨s.memory.settle key none, s.running, s.ownedBy key none⟩
  where
  inFlight := by
    intro other hother
    by_cases hkey : other = key
    · simp [hkey] at hother
    · rw [AutoMergeMemory.latch_settle_of_ne _ _ hkey] at hother
      apply hs.inFlight other hother
  restore := hs.restore

theorem live_dispatched {plan : AttemptPlan} (hs : Live s) (hplan : plan.restore ≠ some .inFlight) :
  Live (s.dispatched plan)
  where
  inFlight := by
    intro key hkey
    rw [inFlight_dispatched]
    split_ifs with hplan
    · apply Nat.succ_pos
    · rw [latch_dispatched, AutoMergeMemory.latch_settle_of_ne _ _ (Ne.symm hplan)] at hkey
      apply hs.inFlight key hkey
  restore := by
    intro attempt hattempt
    rcases List.mem_cons.mp hattempt with rfl | hattempt
    · apply hplan
    · apply hs.restore attempt hattempt

theorem live_settle
    {place : ℕ} (env : Answers) (hs : Live s) (h : s.running[place]? = some attempt) :
  Live (s.settle place attempt env).1
  where
  inFlight := by
    intro key hlatch
    have hrestore := hs.restore attempt (List.mem_of_getElem? h)
    have hne : attempt.key ≠ key := by
      rintro rfl
      rw [settle, AutoMergeMemory.latch_settle_self] at hlatch
      exact runRealAttempt_latch env hrestore hlatch
    have hcount := inFlight_settle h env key
    rw [if_neg hne, Nat.add_zero] at hcount
    rw [← hcount]
    apply hs.inFlight key
    rwa [settle, AutoMergeMemory.latch_settle_of_ne _ _ (Ne.symm hne)] at hlatch
  restore := by
    intro other hother
    apply hs.restore other (List.mem_of_mem_eraseIdx hother)

theorem live_step (s : AutoMerge) (a : Act) (hs : Live s) :
  Live (machine.next s a)
  := by
  change Live (s.step a).1
  have hmove := moves s a
  generalize s.step a = next at hmove
  cases hmove with
  | held | kept | absent => apply hs
  | released => apply live_released _ hs
  | dispatched _ _ restore_ne => apply live_dispatched hs restore_ne
  | settled running => apply live_settle _ hs running

/-- A new head dispatches an attempt, unless a merge was accepted. -/
theorem dispatches_iff {a : Act} (hs : Live s) (h : s.NewHead a) :
  s.Dispatches a ↔ ¬ s.Accepted a
  := by
  cases a with
  | settled => exact h.elim
  | committed key ws holds changed head =>
    obtain ⟨rfl, signal, hnone, hhead⟩ := h
    change (∃ attempt : Attempt, attempt.key = key
      ∧ Obs.dispatched attempt ∈ (s.step (.committed key ws holds true head)).2) ↔ _
    constructor
    · rintro ⟨attempt, -, hattempt⟩ ⟨h, hlatch⟩
      simp [step, onWorkspaceCommitted, signal, plan, hlatch] at hattempt
    · intro haccepted
      have hmove := moves s (.committed key ws holds true head)
      generalize s.step (.committed key ws holds true head) = next at hmove
      cases hmove with
      | held hsignal => simp [signal] at hsignal
      | released hsignal => simp [signal] at hsignal
      | dispatched => exact ⟨_, rfl, List.mem_singleton_self _⟩
      | @kept _ _ _ _ _ latch _ hlatch keeps =>
        cases latch with
        | inFlight =>
          have hpos := hs.inFlight key hlatch
          omega
        | done head => exact absurd ⟨head, hlatch⟩ haccepted
        | blocked | rejected => simp [Latch.keeps] at keeps

/-- In a run, every changed row that fires with a new head while no attempt of its workspace is
under way dispatches one, exactly when no such row comes after a merge was accepted for the
workspace. -/
theorem new_head_dispatches_iff (as : List Act) :
  machine.Along (fun s a => s.NewHead a → s.Dispatches a) new as
    ↔ machine.Along (fun s a => ¬ (s.NewHead a ∧ s.Accepted a)) new as
  := by
  constructor
  · apply machine.along_of_invariant live_new
    · intro s a _ hs
      apply live_step s a hs
    · rintro s a h hs ⟨hnew, haccepted⟩
      exact (dispatches_iff hs hnew).mp (h hnew) haccepted
  · apply machine.along_of_invariant live_new
    · intro s a _ hs
      apply live_step s a hs
    · intro s a h hs hnew
      apply (dispatches_iff hs hnew).mpr
      intro haccepted
      exact h ⟨hnew, haccepted⟩

/-- A pull request that was taken into the merge queue and whose head is new since then, with
no attempt of it under way, is left alone. -/
theorem queued_head_strands_new_head :
  let as := [commitReady true "abc", .settled 0 (queuedAnswers "abc"), commitReady true "def"]
  let s := machine.final new [commitReady true "abc", .settled 0 (queuedAnswers "abc")]
  ¬ machine.Along (fun s a => s.NewHead a → s.Dispatches a) new as
    ∧ s.inFlight ⟨"github-o-r-1"⟩ = 0
    ∧ s.memory.latch ⟨"github-o-r-1"⟩ = some (.done (some "abc"))
    ∧ s.NewHead (commitReady true "def")
    ∧ machine.emit s (commitReady true "def") = []
  := by
  have hlatch : (machine.final new [commitReady true "abc",
      .settled 0 (queuedAnswers "abc")]).memory.latch ⟨"github-o-r-1"⟩
        = some (.done (some "abc")) := by decide
  have hnew : (machine.final new [commitReady true "abc",
      .settled 0 (queuedAnswers "abc")]).NewHead (commitReady true "def") := by
    constructor
    · rfl
    · constructor
      · decide
      · constructor
        · decide
        · intro latch h
          rw [hlatch] at h
          obtain rfl := Option.mem_some_iff.mp h
          decide
  have hemit : machine.emit (machine.final new [commitReady true "abc",
      .settled 0 (queuedAnswers "abc")]) (commitReady true "def") = [] := by rfl
  constructor
  · rintro ⟨-, -, h, -⟩
    obtain ⟨attempt, -, hattempt⟩ := h hnew
    have hmem := hemit ▸ hattempt
    simp at hmem
  · exact ⟨by decide, hlatch, hnew, hemit⟩

end AutoMerge

end Lazybox
