import Lazybox.Epics.Labels

/-!
# Status labels converge

When the writes of a member reach GitHub in the order its claims were made, and a claim is undone
only while no newer one is in flight, the label that is remembered for a member is the label its
task shows, once no pass is under way and unless its last write failed.

A pass that is slow to write what it claimed first writes an old label over a new one.
-/

namespace Lazybox.Epics

open ClaimedWrites

/-- The task of each member, which is the task of no other. -/
structure Homes where
  task : WorkspaceKey → Option GithubTask
  own : ∀ {key key' task'}, task key = some task' → task key' = some task' → key = key'

/-- Of the labels that show a status, this is the one attached. -/
def Shows (attached : List String) (label : Option String) : Prop :=
  ∀ name ∈ statusLabels, name ∈ attached ↔ label = some name

instance (attached : List String) (label : Option String) : Decidable (Shows attached label) :=
  inferInstanceAs (Decidable (∀ name ∈ statusLabels, name ∈ attached ↔ label = some name))

theorem shows_sync (desired : Option String) (attached : List String) :
  Shows (syncEpicStatusLabel desired attached) desired
  := by
  intro name hname
  cases desired with
  | none => simp [syncEpicStatusLabel, hname]
  | some label =>
    simp only [syncEpicStatusLabel, List.mem_filter, hname]
    by_cases hlabel : label = name
    · subst hlabel
      by_cases hattached : label ∈ attached
      · simp [hattached, hname]
      · simp [hattached]
    · have hne : ¬name = label := Ne.symm hlabel
      split
      · simp [hlabel, hne]
      · simp [hlabel, hne]

@[simp] theorem get_rollBack (target : Target) (labels : Labels) (k : WorkspaceKey) :
  (target.rollBack labels).get k = if k = target.key then target.previous else labels.get k
  := by
  rw [Target.rollBack]
  cases hprevious : target.previous with
  | none => exact Labels.get_remove ..
  | some previous => exact Labels.get_insert ..

/-! ### The members and their claims -/

def inFlightOf (key : WorkspaceKey) (inFlight : List Target) : List Target :=
  inFlight.filter fun target => target.key = key

/-- What there is about the members. -/
structure Standing where
  labels : Labels
  upstream : GithubTask → List String
  failedLast : WorkspaceKey → Bool
  inFlight : List Target

namespace Standing

variable {homes : Homes} {st st' : Standing} {key : WorkspaceKey}

def view (homes : Homes) (st : Standing) (key : WorkspaceKey) : View (Option String) where
  latch := st.labels.get key
  shows label := ∀ task ∈ homes.task key, Shows (st.upstream task) label
  failed := st.failedLast key = true
  claims := (inFlightOf key st.inFlight).map Target.toClaim

/-- Two standings are the same for a member. -/
structure Agree (homes : Homes) (st st' : Standing) (key : WorkspaceKey) : Prop where
  latch : st'.labels.get key = st.labels.get key
  upstream : ∀ task ∈ homes.task key, st'.upstream task = st.upstream task
  failedLast : st'.failedLast key = st.failedLast key
  inFlight : inFlightOf key st'.inFlight = inFlightOf key st.inFlight

structure Consistent (homes : Homes) (st : Standing) : Prop where
  view : ∀ key, (st.view homes key).Consistent
  homed : ∀ target ∈ st.inFlight, homes.task target.key = some target.task

theorem Agree.view_eq (h : Agree homes st st' key) :
  st'.view homes key = st.view homes key
  := by
  have hshows : ∀ label, (∀ task ∈ homes.task key, Shows (st'.upstream task) label)
      ↔ ∀ task ∈ homes.task key, Shows (st.upstream task) label := by
    intro label
    apply forall₂_congr
    intro task htask
    rw [h.upstream task htask]
  simp only [Standing.view, h.latch, h.failedLast, h.inFlight, hshows]

/-- What happens to one member only. -/
theorem Consistent.at (h : Consistent homes st) (key : WorkspaceKey)
    (elsewhere : ∀ k, k ≠ key → Agree homes st st' k) (here : (st'.view homes key).Consistent)
    (homed : ∀ target ∈ st'.inFlight, homes.task target.key = some target.task) :
  Consistent homes st'
  := by
  constructor
  · intro k
    by_cases hk : k = key
    · rw [hk]
      apply here
    · rw [(elsewhere k hk).view_eq]
      apply h.view
  · apply homed

/-! ### Claiming -/

section Claims

variable {labels : Labels} {upstream : GithubTask → List String} {failedLast : WorkspaceKey → Bool}
  {inFlight : List Target}

theorem inFlightOf_append (key : WorkspaceKey) (earlier later : List Target) :
  inFlightOf key (earlier ++ later) = inFlightOf key earlier ++ inFlightOf key later
  := List.filter_append ..

/-- The label remembered for a member is changed, and nothing else. -/
theorem agree_labels {labels' : Labels} (h : labels'.get key = labels.get key) :
  Agree homes ⟨labels, upstream, failedLast, inFlight⟩ ⟨labels', upstream, failedLast, inFlight⟩ key
  := ⟨h, fun _ _ => rfl, rfl, rfl⟩

theorem Consistent.remove
    (h : Consistent homes ⟨labels, upstream, failedLast, inFlight⟩) (key : WorkspaceKey) :
  Consistent homes ⟨labels.remove key, upstream, failedLast, inFlight⟩
  := by
  apply h.at key
  · intro k hk
    apply agree_labels
    rw [Labels.get_remove, if_neg hk]
  · have hview := (h.view key).forget
    simpa [Standing.view] using hview
  · apply h.homed

/-- A member without a task is settled without a write. -/
theorem Consistent.settle (h : Consistent homes ⟨labels, upstream, failedLast, inFlight⟩)
    (homeless : homes.task key = none) (want : Option String) :
  Consistent homes ⟨labels.insert key want, upstream, failedLast, inFlight⟩
  := by
  apply h.at key
  · intro k hk
    apply agree_labels
    rw [Labels.get_insert, if_neg hk]
  · have hnone : inFlightOf key inFlight = [] := by
      apply List.filter_eq_nil_iff.mpr
      intro target htarget hkey
      have hhome := h.homed target htarget
      rw [decide_eq_true_eq.mp hkey, homeless] at hhome
      cases hhome
    constructor
    · simp [Standing.view, hnone, View.InOrder]
    · simp [Standing.view, hnone, homeless, View.waiting, Chain]
  · apply h.homed

theorem Consistent.claim
    (h : Consistent homes ⟨labels, upstream, failedLast, inFlight⟩) {task : GithubTask}
    (home : homes.task key = some task) (want : Option String) (departed : Bool) :
  Consistent homes ⟨labels.insert key want, upstream, failedLast,
    inFlight ++ [⟨⟨want, labels.get key, .issued⟩, key, task, departed⟩]⟩
  := by
  apply h.at key
  · intro k hk
    constructor
    · show (labels.insert key want).get k = labels.get k
      rw [Labels.get_insert, if_neg hk]
    · intro _ _
      rfl
    · rfl
    · simp [inFlightOf, Ne.symm hk]
  · have hview := (h.view key).claim want
    simpa [Standing.view, inFlightOf] using hview
  · intro target htarget
    rcases List.mem_append.mp htarget with htarget | htarget
    · apply h.homed target htarget
    · rw [List.mem_singleton.mp htarget]
      apply home

/-- What a pass does when it comes to a member. -/
theorem claimMember_cases (desired : Labels) (primary : WorkspaceKey → Option PrimaryTask)
    (memory : Labels × List Target) (key : WorkspaceKey) :
  claimMember desired primary memory key = memory
    ∨ claimMember desired primary memory key = (memory.1.remove key, memory.2)
    ∨ (githubTarget (primary key) = none
      ∧ ∃ want, claimMember desired primary memory key = (memory.1.insert key want, memory.2))
    ∨ ∃ task, githubTarget (primary key) = some task
      ∧ ∃ want departed, claimMember desired primary memory key
        = (memory.1.insert key want,
          memory.2 ++ [⟨⟨want, memory.1.get key, .issued⟩, key, task, departed⟩])
  := by
  unfold claimMember
  dsimp only
  split
  · left
    rfl
  · cases hgithub : githubTarget (primary key) with
    | none =>
      dsimp only
      split
      · right
        left
        rfl
      · right
        right
        left
        exact ⟨rfl, _, rfl⟩
    | some task =>
      dsimp only
      split
      · right
        left
        rfl
      · right
        right
        right
        exact ⟨task, rfl, _, _, rfl⟩

variable {primary : WorkspaceKey → Option PrimaryTask}

theorem Consistent.comeTo {desired : Labels} {memory : Labels × List Target}
    (h : Consistent homes ⟨memory.1, upstream, failedLast, inFlight ++ memory.2⟩)
    (home : githubTarget (primary key) = homes.task key) :
  Consistent homes ⟨(claimMember desired primary memory key).1, upstream, failedLast,
    inFlight ++ (claimMember desired primary memory key).2⟩
  := by
  obtain hmemory | hmemory | ⟨hnone, want, hmemory⟩ | ⟨task, htask, want, departed, hmemory⟩ :=
    claimMember_cases desired primary memory key
  · rw [hmemory]
    apply h
  · rw [hmemory]
    apply h.remove
  · rw [hmemory]
    apply h.settle (home.symm.trans hnone)
  · rw [hmemory]
    simp only [← List.append_assoc]
    apply h.claim (home.symm.trans htask)

theorem Consistent.planned (desired : Labels) {keys : List WorkspaceKey}
    (home : ∀ key ∈ keys, githubTarget (primary key) = homes.task key)
    (memory : Labels × List Target)
    (h : Consistent homes ⟨memory.1, upstream, failedLast, inFlight ++ memory.2⟩) :
  Consistent homes ⟨(keys.foldl (claimMember desired primary) memory).1, upstream, failedLast,
    inFlight ++ (keys.foldl (claimMember desired primary) memory).2⟩
  := by
  induction keys generalizing memory with
  | nil => apply h
  | cons key keys ih =>
    rw [List.forall_mem_cons] at home
    apply ih home.2 _ (h.comeTo home.1)

/-- A pass claims each member once. -/
theorem claimed_once (desired : Labels) (primary : WorkspaceKey → Option PrimaryTask)
    (keys : List WorkspaceKey) (memory : Labels × List Target) :
  ∃ new, (keys.foldl (claimMember desired primary) memory).2 = memory.2 ++ new
    ∧ (new.map Target.key).Sublist keys ∧ ∀ target ∈ new, target.stage = .issued
  := by
  induction keys generalizing memory with
  | nil => exact ⟨[], by simp⟩
  | cons key keys ih =>
    obtain ⟨new, hnew, hkeys, hissued⟩ := ih (claimMember desired primary memory key)
    rw [List.foldl_cons, hnew]
    obtain hmemory | hmemory | ⟨-, want, hmemory⟩ | ⟨task, -, want, departed, hmemory⟩ :=
      claimMember_cases desired primary memory key
    · rw [hmemory]
      exact ⟨new, rfl, hkeys.cons key, hissued⟩
    · rw [hmemory]
      exact ⟨new, rfl, hkeys.cons key, hissued⟩
    · rw [hmemory]
      exact ⟨new, rfl, hkeys.cons key, hissued⟩
    · rw [hmemory, List.append_assoc]
      refine ⟨_, rfl, ?_, ?_⟩
      · apply hkeys.cons_cons key
      · rw [List.singleton_append, List.forall_mem_cons]
        exact ⟨rfl, hissued⟩

end Claims

/-! ### Writing -/

section Writes

variable {labels : Labels} {upstream : GithubTask → List String}
  {failedLast : WorkspaceKey → Bool} {earlier later : List Target} {target : Target}

/-- The claims of a member around one of them. -/
theorem inFlightOf_around (h : target.key = key) :
  inFlightOf key (earlier ++ target :: later)
    = inFlightOf key earlier ++ target :: inFlightOf key later
  := by
  rw [inFlightOf_append]
  congr 1
  apply List.filter_cons_of_pos
  simpa using h

/-- The claims of the other members. -/
theorem inFlightOf_elsewhere {k : WorkspaceKey} (h : k ≠ target.key) :
  inFlightOf k (earlier ++ target :: later) = inFlightOf k earlier ++ inFlightOf k later
  := by
  rw [inFlightOf_append]
  congr 1
  apply List.filter_cons_of_neg
  simpa using Ne.symm h

/-- The view of a member around one of its claims, whose write may have come further. -/
theorem view_around (homes : Homes) (stage : Stage) :
  Standing.view homes ⟨labels, upstream, failedLast, earlier ++ { target with stage } :: later⟩
      target.key
    = { latch := labels.get target.key
        shows := fun label => ∀ task ∈ homes.task target.key, Shows (upstream task) label
        failed := failedLast target.key = true
        claims := (inFlightOf target.key earlier).map Target.toClaim
          ++ { target.toClaim with stage } :: (inFlightOf target.key later).map Target.toClaim }
  := by
  have hclaims : inFlightOf target.key (earlier ++ { target with stage } :: later)
      = inFlightOf target.key earlier ++ { target with stage } :: inFlightOf target.key later :=
    inFlightOf_around rfl
  rw [Standing.view, hclaims, List.map_append, List.map_cons]

variable (h : Consistent homes ⟨labels, upstream, failedLast, earlier ++ target :: later⟩)
include h

theorem Consistent.home :
  homes.task target.key = some target.task
  := h.homed target (List.mem_append_right _ List.mem_cons_self)

/-- The task of another member is another task. -/
theorem Consistent.upstream_elsewhere
    {k : WorkspaceKey} (hk : k ≠ target.key) (left : List String) :
  ∀ task ∈ homes.task k, Function.update upstream target.task left task = upstream task
  := by
  intro task htask
  apply Function.update_of_ne
  rintro rfl
  apply hk (homes.own htask h.home)

/-- A write comes further, and leaves labels on the task. -/
theorem Consistent.write
    (left : List String) (stage : Stage)
    (here : (Standing.view homes ⟨labels, Function.update upstream target.task left, failedLast,
      earlier ++ { target with stage } :: later⟩ target.key).Consistent) :
  Consistent homes ⟨labels, Function.update upstream target.task left, failedLast,
    earlier ++ { target with stage } :: later⟩
  := by
  apply h.at target.key
  · intro k hk
    constructor
    · rfl
    · apply h.upstream_elsewhere hk
    · rfl
    · have hwritten : k ≠ { target with stage }.key := hk
      show inFlightOf k (earlier ++ { target with stage } :: later) = _
      rw [inFlightOf_elsewhere hwritten, inFlightOf_elsewhere hk]
  · apply here
  · intro t ht
    rcases List.mem_append.mp ht with ht | ht
    · apply h.homed t (List.mem_append_left _ ht)
    · rcases List.mem_cons.mp ht with rfl | ht
      · apply h.home
      · apply h.homed t (List.mem_append_right _ (List.mem_cons_of_mem _ ht))

section Lands

variable (older : ∀ o ∈ inFlightOf target.key earlier, o.stage = .landed)
  (waits : target.stage ≠ .landed)
include older waits

theorem Consistent.reach (left : List String) :
  Consistent homes ⟨labels, Function.update upstream target.task left, failedLast,
    earlier ++ { target with stage := .partly } :: later⟩
  := by
  apply h.write
  have hview := h.view target.key
  rw [view_around homes target.stage] at hview
  rw [view_around]
  apply hview.reach rfl (List.forall_mem_map.mpr older) waits

theorem Consistent.land :
  Consistent homes ⟨labels,
    Function.update upstream target.task
      (syncEpicStatusLabel target.want (upstream target.task)), failedLast,
    earlier ++ { target with stage := .landed } :: later⟩
  := by
  apply h.write
  have hview := h.view target.key
  rw [view_around homes target.stage] at hview
  rw [view_around]
  apply hview.land rfl (List.forall_mem_map.mpr older) waits
  intro task htask
  rw [h.home] at htask
  cases htask
  rw [Function.update_self]
  apply shows_sync

end Lands

variable {failedLast' : WorkspaceKey → Bool}

/-- A claim is over. -/
theorem Consistent.conclude
    {labels' : Labels}
    (hlabels : ∀ k, k ≠ target.key → labels'.get k = labels.get k)
    (hfailed : ∀ k, k ≠ target.key → failedLast' k = failedLast k)
    (here : View.Consistent
      { latch := labels'.get target.key
        shows := fun label => ∀ task ∈ homes.task target.key, Shows (upstream task) label
        failed := failedLast' target.key = true
        claims := (inFlightOf target.key earlier).map Target.toClaim
          ++ (inFlightOf target.key later).map Target.toClaim }) :
  Consistent homes ⟨labels', upstream, failedLast', earlier ++ later⟩
  := by
  apply h.at target.key
  · intro k hk
    constructor
    · apply hlabels k hk
    · exact fun _ _ => rfl
    · apply hfailed k hk
    · show inFlightOf k (earlier ++ later) = inFlightOf k (earlier ++ target :: later)
      rw [inFlightOf_elsewhere hk, inFlightOf_append]
  · rw [Standing.view, inFlightOf_append, List.map_append]
    apply here
  · intro t ht
    apply h.homed t
    rcases List.mem_append.mp ht with ht | ht
    · apply List.mem_append_left _ ht
    · apply List.mem_append_right _ (List.mem_cons_of_mem _ ht)

/-- A write succeeded, and a member that departed is forgotten. -/
theorem Consistent.synced (landed : target.stage = .landed) :
  Consistent homes ⟨if target.departed then labels.remove target.key else labels, upstream,
    Function.update failedLast target.key false, earlier ++ later⟩
  := by
  have hview := h.view target.key
  rw [view_around homes target.stage] at hview
  apply h.conclude
  · intro k hk
    split
    · rw [Labels.get_remove, if_neg hk]
    · rfl
  · exact fun k hk => Function.update_of_ne hk ..
  · split
    · rw [Labels.get_remove, if_pos rfl]
      exact (hview.synced rfl landed).forget
    · exact hview.synced rfl landed

theorem Consistent.undo (newest : inFlightOf target.key later = [])
    (issued : target.stage = .issued) (hfailed : ∀ k, k ≠ target.key → failedLast' k = failedLast k)
    (fails : failedLast target.key = true → failedLast' target.key = true) :
  Consistent homes ⟨target.rollBack labels, upstream, failedLast', earlier ++ later⟩
  := by
  have hview := h.view target.key
  rw [view_around homes target.stage, newest] at hview
  apply h.conclude
  · intro k hk
    rw [get_rollBack, if_neg hk]
  · apply hfailed
  · rw [get_rollBack, if_pos rfl, newest, List.map_nil, List.append_nil]
    apply hview.undo rfl issued fails

/-- The only claim of a member is undone when its write failed. -/
theorem Consistent.fail
    (only : inFlightOf target.key earlier = []) (newest : inFlightOf target.key later = []) :
  Consistent homes ⟨target.rollBack labels, upstream,
    Function.update failedLast target.key true, earlier ++ later⟩
  := by
  apply h.conclude
  · intro k hk
    rw [get_rollBack, if_neg hk]
  · exact fun k hk => Function.update_of_ne hk ..
  · rw [only, newest]
    apply consistent_nil
    left
    apply Function.update_self

end Writes

/-- A pass undoes all its claims, none of which was written. -/
theorem Consistent.undoAll {labels : Labels} {upstream : GithubTask → List String}
    {failedLast : WorkspaceKey → Bool} {earlier later targets : List Target}
    (h : Consistent homes ⟨labels, upstream, failedLast, earlier ++ (targets ++ later)⟩)
    (once : (targets.map Target.key).Nodup)
    (newest : ∀ target ∈ targets, inFlightOf target.key later = [])
    (issued : ∀ target ∈ targets, target.stage = .issued) :
  Consistent homes ⟨targets.foldl (fun labels target => target.rollBack labels) labels, upstream,
    failedLast, earlier ++ later⟩
  := by
  induction targets generalizing labels with
  | nil => apply h
  | cons target targets ih =>
    rw [List.map_cons, List.nodup_cons] at once
    rw [List.forall_mem_cons] at newest issued
    have hnewest : inFlightOf target.key (targets ++ later) = [] := by
      rw [inFlightOf_append, newest.1, List.append_nil]
      apply List.filter_eq_nil_iff.mpr
      intro t ht hkey
      apply once.1
      rw [← decide_eq_true_eq.mp hkey]
      apply List.mem_map_of_mem ht
    apply ih _ once.2 newest.2 issued.2
    exact h.undo hnewest issued.1 (fun _ _ => rfl) id

/-- What a failed write left reaches the task of a member none of whose writes has landed. -/
theorem Consistent.stray {target : Target} (h : Consistent homes st)
    (home : homes.task target.key = some target.task) (failed : st.failedLast target.key = true)
    (waits : ∀ t ∈ inFlightOf target.key st.inFlight, t.stage ≠ .landed) (left : List String) :
  Consistent homes { st with upstream := Function.update st.upstream target.task left }
  := by
  apply h.at target.key
  · intro k hk
    constructor
    · rfl
    · intro task htask
      apply Function.update_of_ne
      rintro rfl
      apply hk (homes.own htask home)
    · rfl
    · rfl
  · apply (h.view target.key).stray failed
    intro claim hclaim
    obtain ⟨t, ht, rfl⟩ := List.mem_map.mp hclaim
    apply waits t ht
  · apply h.homed

end Standing

/-! ### Runs -/

namespace Projection

variable (homes : Homes) (s : Projection)

/-- No pass is under way. -/
def Idle : Prop := ∀ pass ∈ s.passes, pass.targets = []

instance : Decidable s.Idle := inferInstanceAs (Decidable (∀ pass ∈ s.passes, pass.targets = []))

/-- Once no pass is under way, the label that is remembered for a member whose last write did not
fail is the one its task shows. -/
def Converged : Prop :=
  s.Idle → ∀ key, s.failedLast key = false → ∀ task ∈ homes.task key,
    ∀ label ∈ s.labels.get key, Shows (s.upstream task) label

/-- The claims of a member made by the passes before one. -/
def older (pass : ℕ) (key : WorkspaceKey) : List Target :=
  inFlightOf key ((s.passes.take pass).flatMap LabelPass.targets)

/-- The claims of a member made by the passes after one. -/
def newer (pass : ℕ) (key : WorkspaceKey) : List Target :=
  inFlightOf key ((s.passes.drop (pass + 1)).flatMap LabelPass.targets)

/-- A pass finds each member on its task.  The writes of a member reach its task in the order of
its claims, and a claim is undone only while no newer one is in flight, and, if its write has
reached the task, no older one.  What is left of a write reaches the task only while the last answer
was a failure and no write has landed since. -/
def Ordered : LabelAct → Prop
  | .plan desired primary =>
      ∀ key ∈ consideredKeys desired s.labels, githubTarget (primary key) = homes.task key
  | .client pass available =>
      available = true ∨ ∀ p ∈ s.passes[pass]?, ∀ target ∈ p.targets, s.newer pass target.key = []
  | .reach pass _ | .land pass =>
      ∀ w ∈ s.writing pass, ∀ o ∈ s.older pass w.1.key, o.stage = .landed
  | .answer pass outcome =>
      outcome = .synced ∨ ∀ w ∈ s.writing pass,
        s.newer pass w.1.key = [] ∧ (w.1.stage = .issued ∨ s.older pass w.1.key = [])
  | .stray write _ =>
      ∀ target ∈ s.lost[write]?, s.failedLast target.key = true
        ∧ ∀ t ∈ inFlightOf target.key (s.passes.flatMap LabelPass.targets), t.stage ≠ .landed

instance decidableOrdered : ∀ s a, Decidable (Ordered homes s a)
  | s, .plan desired primary =>
      inferInstanceAs (Decidable (∀ key ∈ consideredKeys desired s.labels,
        githubTarget (primary key) = homes.task key))
  | s, .client pass available =>
      inferInstanceAs (Decidable (available = true
        ∨ ∀ p ∈ s.passes[pass]?, ∀ target ∈ p.targets, s.newer pass target.key = []))
  | s, .reach pass _ | s, .land pass =>
      inferInstanceAs (Decidable (∀ w ∈ s.writing pass, ∀ o ∈ s.older pass w.1.key,
        o.stage = .landed))
  | s, .answer pass outcome =>
      inferInstanceAs (Decidable (outcome = .synced ∨ ∀ w ∈ s.writing pass,
        s.newer pass w.1.key = [] ∧ (w.1.stage = .issued ∨ s.older pass w.1.key = [])))
  | s, .stray write _ =>
      inferInstanceAs (Decidable (∀ target ∈ s.lost[write]?, s.failedLast target.key = true
        ∧ ∀ t ∈ inFlightOf target.key (s.passes.flatMap LabelPass.targets), t.stage ≠ .landed))

def standing : Standing :=
  ⟨s.labels, s.upstream, s.failedLast, s.passes.flatMap LabelPass.targets⟩

structure Good : Prop where
  standing : Standing.Consistent homes s.standing
  once : ∀ pass ∈ s.passes, (pass.targets.map Target.key).Nodup
  issued : ∀ pass ∈ s.passes, pass.begun = false → ∀ target ∈ pass.targets, target.stage = .issued
  lost : ∀ target ∈ s.lost, homes.task target.key = some target.task

variable {homes} {s} {pass : ℕ}

theorem good_start (upstream : GithubTask → List String) :
  (start upstream).Good homes
  := by
  constructor
  · constructor
    · intro key
      apply consistent_nil
      right
      rfl
    · simp [standing, start]
  · simp [start]
  · simp [start]
  · simp [start]

/-- Nothing is in flight once no pass is under way. -/
theorem Good.converged (h : s.Good homes) :
  s.Converged homes
  := by
  intro idle key hfailed task htask label hlabel
  have hnone : s.passes.flatMap LabelPass.targets = [] := by
    apply List.flatMap_eq_nil_iff.mpr idle
  apply (h.standing.view key).latch_shows _ _ label hlabel task htask
  · simp [Standing.view, Projection.standing, inFlightOf, hnone]
  · simp [Standing.view, Projection.standing, hfailed]

/-- The claims in flight around those of a pass. -/
theorem flatMap_set {p : LabelPass} (h : s.passes[pass]? = some p) (p' : LabelPass) :
  (s.passes.set pass p').flatMap LabelPass.targets
    = (s.passes.take pass).flatMap LabelPass.targets
      ++ (p'.targets ++ (s.passes.drop (pass + 1)).flatMap LabelPass.targets)
  := by
  obtain ⟨hlength, -⟩ := List.getElem?_eq_some_iff.mp h
  rw [List.set_eq_take_append_cons_drop, if_pos hlength, List.flatMap_append, List.flatMap_cons]

theorem flatMap_around {p : LabelPass} (h : s.passes[pass]? = some p) :
  s.passes.flatMap LabelPass.targets
    = (s.passes.take pass).flatMap LabelPass.targets
      ++ (p.targets ++ (s.passes.drop (pass + 1)).flatMap LabelPass.targets)
  := by
  obtain ⟨hlength, hp⟩ := List.getElem?_eq_some_iff.mp h
  rw [← flatMap_set h p, ← hp, List.set_getElem_self]

variable {rest : List Target}

variable {target : Target}

theorem writing_eq_some (h : s.writing pass = some (target, rest)) :
  s.passes[pass]? = some ⟨true, target :: rest⟩
  := by
  unfold writing at h
  split at h
  · next hp =>
      cases h
      apply hp
  · cases h

/-- The other passes are left as they are when one goes on with some of its claims. -/
theorem Good.goesOn
    (h : s.Good homes) {p : LabelPass} (hp : s.passes[pass]? = some p) (targets : List Target)
    (sub : (targets.map Target.key).Sublist (p.targets.map Target.key)) {s' : Projection}
    (passes : s'.passes = s.passes.set pass ⟨true, targets⟩)
    (standing : Standing.Consistent homes
      ⟨s'.labels, s'.upstream, s'.failedLast,
        (s.passes.take pass).flatMap LabelPass.targets
          ++ (targets ++ (s.passes.drop (pass + 1)).flatMap LabelPass.targets)⟩)
    (lost : ∀ target ∈ s'.lost, homes.task target.key = some target.task) :
  s'.Good homes
  := by
  have hmem : p ∈ s.passes := List.mem_of_getElem? hp
  constructor
  · rw [Projection.standing, passes, flatMap_set hp]
    apply standing
  · rw [passes]
    intro q hq
    rcases List.mem_or_eq_of_mem_set hq with hq | rfl
    · apply h.once q hq
    · apply (h.once p hmem).sublist sub
  · rw [passes]
    intro q hq hbegun
    rcases List.mem_or_eq_of_mem_set hq with hq | rfl
    · apply h.issued q hq hbegun
    · cases hbegun
  · apply lost

theorem nodup_consideredKeys (desired labels : Labels) :
  (consideredKeys desired labels).Nodup
  := by
  apply (List.perm_insertionSort _ _).nodup_iff.mpr
  apply List.nodup_dedup

theorem Good.plan (h : s.Good homes) {desired : Labels}
    {primary : WorkspaceKey → Option PrimaryTask}
    (home : ∀ key ∈ consideredKeys desired s.labels, githubTarget (primary key) = homes.task key) :
  (s.plan desired primary).Good homes
  := by
  obtain ⟨new, hnew, hkeys, hissued⟩ :=
    Standing.claimed_once desired primary (consideredKeys desired s.labels) (s.labels, [])
  have htargets : (claimMembers desired primary s.labels).2 = new := hnew
  have hplan : s.plan desired primary = { s with
      labels := (claimMembers desired primary s.labels).1
      passes := s.passes ++ [⟨false, new⟩] } := by
    rw [Projection.plan, ← htargets]
  rw [hplan]
  constructor
  · have hstart : Standing.Consistent homes
        ⟨s.labels, s.upstream, s.failedLast, s.passes.flatMap LabelPass.targets ++ []⟩ := by
      rw [List.append_nil]
      apply h.standing
    have hinFlight : (s.passes ++ [LabelPass.mk false new]).flatMap LabelPass.targets
        = s.passes.flatMap LabelPass.targets ++ (claimMembers desired primary s.labels).2 := by
      simp [htargets]
    rw [Projection.standing, hinFlight]
    apply Standing.Consistent.planned desired home (s.labels, []) hstart
  · intro pass hpass
    rcases List.mem_append.mp hpass with hpass | hpass
    · apply h.once pass hpass
    · rw [List.mem_singleton.mp hpass]
      apply (nodup_consideredKeys desired s.labels).sublist hkeys
  · intro pass hpass hbegun
    rcases List.mem_append.mp hpass with hpass | hpass
    · apply h.issued pass hpass hbegun
    · rw [List.mem_singleton.mp hpass]
      apply hissued
  · apply h.lost

theorem Good.client
    (h : s.Good homes) {available : Bool}
    (undone : available = true
      ∨ ∀ p ∈ s.passes[pass]?, ∀ target ∈ p.targets, s.newer pass target.key = []) :
  (s.client pass available).Good homes
  := by
  unfold Projection.client
  split
  · next targets hp =>
      have hmem := List.mem_of_getElem? hp
      have hstanding := h.standing
      rw [Projection.standing, flatMap_around hp] at hstanding
      split
      · apply h.goesOn hp targets
        · apply List.Sublist.refl
        · rfl
        · apply hstanding
        · apply h.lost
      · next hunavailable =>
          apply h.goesOn hp []
          · apply List.nil_sublist
          · rfl
          · apply hstanding.undoAll (h.once _ hmem) _ (h.issued _ hmem rfl)
            apply undone.resolve_left hunavailable _ hp
          · apply h.lost
  · apply h

/-- The claims in flight around the one a pass is writing. -/
theorem Good.around (h : s.Good homes) (hw : s.writing pass = some (target, rest)) :
  Standing.Consistent homes ⟨s.labels, s.upstream, s.failedLast,
    (s.passes.take pass).flatMap LabelPass.targets
      ++ target :: (rest ++ (s.passes.drop (pass + 1)).flatMap LabelPass.targets)⟩
  := by
  have hstanding := h.standing
  rw [Projection.standing, flatMap_around (writing_eq_some hw)] at hstanding
  apply hstanding

theorem Good.reach (h : s.Good homes) {left : List String}
    (inOrder : ∀ w ∈ s.writing pass, ∀ o ∈ s.older pass w.1.key, o.stage = .landed) :
  (s.reach pass left).Good homes
  := by
  unfold Projection.reach
  split
  · next target rest hw =>
      split
      · apply h
      · next waits =>
          apply h.goesOn (writing_eq_some hw) ({ target with stage := .partly } :: rest)
          · apply List.Sublist.refl
          · rfl
          · apply (h.around hw).reach (inOrder _ hw) waits
          · apply h.lost
  · apply h

theorem Good.land (h : s.Good homes)
    (inOrder : ∀ w ∈ s.writing pass, ∀ o ∈ s.older pass w.1.key, o.stage = .landed) :
  (s.land pass).Good homes
  := by
  unfold Projection.land
  split
  · next target rest hw =>
      split
      · apply h
      · next waits =>
          apply h.goesOn (writing_eq_some hw) ({ target with stage := .landed } :: rest)
          · apply List.Sublist.refl
          · rfl
          · apply (h.around hw).land (inOrder _ hw) waits
          · apply h.lost
  · apply h

/-- The newer claims of the member a pass is writing are made by newer passes. -/
theorem Good.newer_eq (h : s.Good homes) (hw : s.writing pass = some (target, rest)) :
  inFlightOf target.key (rest ++ (s.passes.drop (pass + 1)).flatMap LabelPass.targets)
    = s.newer pass target.key
  := by
  have honce := h.once _ (List.mem_of_getElem? (writing_eq_some hw))
  rw [List.map_cons, List.nodup_cons] at honce
  have hrest : inFlightOf target.key rest = [] := by
    apply List.filter_eq_nil_iff.mpr
    intro t ht hkey
    apply honce.1
    rw [← decide_eq_true_eq.mp hkey]
    apply List.mem_map_of_mem ht
  rw [Standing.inFlightOf_append, hrest, List.nil_append, newer]

/-- A claim is undone when its write failed. -/
theorem Good.undone (h : s.Good homes) (hw : s.writing pass = some (target, rest))
    (newest : s.newer pass target.key = [])
    (first : target.stage = .issued ∨ s.older pass target.key = []) {lost : List Target}
    (hlost : ∀ t ∈ lost, homes.task t.key = some t.task) :
  Good homes
    { s.goesOn pass rest with
      labels := target.rollBack s.labels
      lost
      failedLast := Function.update s.failedLast target.key true }
  := by
  apply h.goesOn (writing_eq_some hw) rest
  · apply List.sublist_cons_self
  · rfl
  · rw [← h.newer_eq hw] at newest
    rcases first with issued | first
    · apply (h.around hw).undo newest issued
      · exact fun k hk => Function.update_of_ne hk ..
      · exact fun _ => Function.update_self ..
    · apply (h.around hw).fail first newest
  · apply hlost

theorem Good.answer
    (h : s.Good homes) {outcome : WriteOutcome}
    (newest : outcome = .synced ∨ ∀ w ∈ s.writing pass,
      s.newer pass w.1.key = [] ∧ (w.1.stage = .issued ∨ s.older pass w.1.key = [])) :
  (s.answer pass outcome).Good homes
  := by
  unfold Projection.answer
  split
  · next target rest hw =>
      have hhome := h.around hw |>.home
      cases outcome with
      | synced =>
        dsimp only
        split
        · next landed =>
            apply h.goesOn (writing_eq_some hw) rest
            · apply List.sublist_cons_self
            · rfl
            · apply (h.around hw).synced landed
            · apply h.lost
        · apply h
      | failed =>
        obtain ⟨hnewest, hfirst⟩ := newest.resolve_left (by decide) _ hw
        apply h.undone hw hnewest hfirst
        apply h.lost
      | timedOut =>
        obtain ⟨hnewest, hfirst⟩ := newest.resolve_left (by decide) _ hw
        apply h.undone hw hnewest hfirst
        intro t ht
        rcases List.mem_append.mp ht with ht | ht
        · apply h.lost t ht
        · rw [List.mem_singleton.mp ht]
          apply hhome
  · apply h

theorem Good.stray
    (h : s.Good homes) {write : ℕ} {left : List String}
    (failed : ∀ target ∈ s.lost[write]?, s.failedLast target.key = true
      ∧ ∀ t ∈ inFlightOf target.key (s.passes.flatMap LabelPass.targets), t.stage ≠ .landed) :
  (s.stray write left).Good homes
  := by
  unfold Projection.stray
  split
  · next target htarget =>
      obtain ⟨hfailed, hwaits⟩ := failed target htarget
      constructor
      · apply h.standing.stray (h.lost target (List.mem_of_getElem? htarget)) hfailed hwaits
      · apply h.once
      · apply h.issued
      · apply h.lost
  · apply h

theorem Good.step (h : s.Good homes) {a : LabelAct} (ordered : s.Ordered homes a) :
  (s.step a).Good homes
  := by
  cases a with
  | plan desired primary => exact h.plan ordered
  | client pass available => exact h.client ordered
  | reach pass left => exact h.reach ordered
  | land pass => exact h.land ordered
  | answer pass outcome => exact h.answer ordered
  | stray write left => exact h.stray ordered

end Projection

/-! ### Two passes -/

def issue : GithubTask := (⟨"github", "o/r#1"⟩, "o/r")

/-- One member, on an issue. -/
def onIssue : Homes where
  task key := if key = ⟨"k"⟩ then some issue else none
  own := by
    intro key key' task h h'
    split at h
    · next hkey =>
        split at h'
        · next hkey' => rw [hkey, hkey']
        · cases h'
    · cases h

/-- Two passes claim the member, the first to show that it is blocked, the second that it is
done. -/
def twoPasses (writes : List LabelAct) : List LabelAct :=
  [.plan [(⟨"k"⟩, some statusLabelBlocked)] fun _ => some ⟨issue.1, some issue.2⟩,
    .plan [(⟨"k"⟩, some statusLabelDone)] fun _ => some ⟨issue.1, some issue.2⟩,
    .client 0 true, .client 1 true] ++ writes

end Lazybox.Epics
