import Lazybox.Polling.WriteTargets

/-!
# A write lands on the task it was requested for

A request is about the task that is primary when it is made.  Each time its write is sent, after
every wait for a retry, the workspace is loaded anew, and the write goes to the task that its slots
then say.  Meanwhile a poll may have put a pull request, or another issue, in front of the task.
-/

namespace Lazybox

/-- A workspace as it is stored, its drives, and what each of them loaded last. -/
structure Coordinator where
  daemon : Daemon
  slots : Slots
  loaded : ℕ → Loaded

/-! ### The operation of a drive -/

/-- An operation that a drive is issuing, and whose fields it has left to write, meets `P`. -/
def Stage.Issues (P : PendingMutation → Prop) : Stage → Prop
  | .idle | .refetching _ => True
  | .loaded op | .built op => P op
  | .marked op left | .inFlight op left => P op ∧ ∀ field ∈ left, field ∈ op.desired.writes

namespace Daemon

/-- The operation that an idle drive takes to issue it. -/
def sending (d : Daemon) (i : ℕ) : Option PendingMutation :=
  match d.drives[i]? with
  | some ⟨.send id :: _, .idle⟩ | some ⟨.retry id _ :: _, .idle⟩ => d.board.ops.get id
  | _ => none

variable {d : Daemon} {P : PendingMutation → Prop} {i : ℕ} {drive : Drive}

/-- One drive was replaced by one that issues an operation which meets `P`, if it issues one. -/
def Moves (d : Daemon) (P : PendingMutation → Prop) (i : ℕ) (drives : List Drive) : Prop :=
  ∃ drive', drives = d.drives.set i drive' ∧ drive'.stage.Issues P

/-- A drive takes an operation only to send it. -/
theorem takeEffect_moves
    {effect : OpEffect} {rest : List OpEffect} (hi : d.drives[i]? = some ⟨effect :: rest, .idle⟩)
    (found : Bool) (taken : found = true → ∀ op ∈ d.sending i, P op) :
  d.Moves P i (d.takeEffect i effect rest found).drives
  := by
  cases found with
  | false =>
    use ⟨rest, .idle⟩
    constructor
    · cases effect <;> rfl
    · trivial
  | true =>
    have hsending := taken rfl
    rw [sending, hi] at hsending
    unfold takeEffect
    cases effect with
    | send id | retry id _ =>
      dsimp only at hsending ⊢
      cases hop : d.board.ops.get id with
      | none => exact ⟨⟨rest, .idle⟩, rfl, trivial⟩
      | some op => exact ⟨⟨rest, .loaded op⟩, rfl, hsending op hop⟩
    | reconcile id =>
      dsimp only
      cases d.board.ops.get id with
      | none => exact ⟨⟨rest, .idle⟩, rfl, trivial⟩
      | some op => exact ⟨⟨rest, .refetching op.task⟩, rfl, trivial⟩
    | report id message | settled id => exact ⟨⟨rest, .idle⟩, rfl, trivial⟩

/-- A drive keeps to its operation until it takes another. -/
theorem driveStep_moves (hi : d.drives[i]? = some drive) (h : drive.stage.Issues P) {a : Act}
    (taken : a = .take i true → ∀ op ∈ d.sending i, P op) (mine : a.drive? = some i) :
  d.Moves P i (d.driveStep i drive a).1.drives
  := by
  obtain ⟨hlength, hdrive⟩ := List.getElem?_eq_some_iff.mp hi
  have hstays : d.Moves P i d.drives := by
    use drive
    constructor
    · rw [← hdrive, List.set_getElem_self]
    · apply h
  obtain ⟨queue, stage⟩ := drive
  cases a with
  | take _ found =>
    cases mine
    cases stage with
    | idle =>
      cases queue with
      | nil => apply hstays
      | cons effect rest =>
        apply takeEffect_moves hi
        rintro rfl
        apply taken rfl
    | loaded | built | marked | inFlight | refetching => apply hstays
  | build _ failure now stored =>
    cases stage with
    | loaded op =>
      cases failure with
      | none => exact ⟨⟨queue, .built op⟩, rfl, h⟩
      | some detail => exact ⟨⟨_, .idle⟩, rfl, trivial⟩
    | idle | built | marked | inFlight | refetching => apply hstays
  | mark _ stored =>
    cases stage with
    | built op => exact ⟨⟨queue, .marked op op.desired.writes⟩, rfl, h, fun _ => id⟩
    | idle | loaded | marked | inFlight | refetching => apply hstays
  | dispatch _ =>
    cases stage with
    | marked op left =>
      cases left with
      | nil => exact ⟨⟨queue, .inFlight op []⟩, rfl, h⟩
      | cons field left =>
        exact ⟨⟨queue, .inFlight op left⟩, rfl, h.1,
          fun field hfield => h.2 field (List.mem_cons_of_mem _ hfield)⟩
    | idle | loaded | built | inFlight | refetching => apply hstays
  | answer _ error now stored =>
    cases stage with
    | inFlight op left =>
      cases left with
      | nil => exact ⟨⟨_, .idle⟩, rfl, trivial⟩
      | cons field left =>
        cases error with
        | none => exact ⟨⟨queue, .marked op (field :: left)⟩, rfl, h⟩
        | some error => exact ⟨⟨_, .idle⟩, rfl, trivial⟩
    | idle | loaded | built | marked | refetching => cases error <;> apply hstays
  | refetched _ task now stored =>
    cases stage with
    | refetching id =>
      cases task with
      | none => exact ⟨⟨queue, .idle⟩, rfl, trivial⟩
      | some task =>
        use ⟨queue, .idle⟩
        constructor
        · cases stored <;> rfl
        · trivial
    | idle | loaded | built | marked | inFlight => apply hstays
  | request | cancel | recover | observe | detach | crash => cases mine

/-- What the drives issue after a step they issued before, or one of them has just taken. -/
theorem issues_next {P : ℕ → PendingMutation → Prop}
    (h : ∀ i stage, d.stageAt i = some stage → stage.Issues (P i)) (a : Act)
    (taken : ∀ i, a = .take i true → ∀ op ∈ d.sending i, P i op) (i : ℕ) (stage : Stage)
    (hstage : (machine.next d a).stageAt i = some stage) :
  stage.Issues (P i)
  := by
  cases hmine : a.drive? with
  | none =>
    have hstepped := (stepped d a).2
    rw [stageAt] at hstage
    generalize (machine.next d a).drives = drives at hstage hstepped
    generalize machine.emit d a = os at hstepped
    cases hstepped with
    | kept quiet => apply h i stage hstage
    | crashed => cases hstage
    | started other _ =>
      rw [List.getElem?_append] at hstage
      split at hstage
      · apply h i stage hstage
      · obtain ⟨drive, hdrive, rfl⟩ := Option.map_eq_some_iff.mp hstage
        rw [List.mem_singleton.mp (List.mem_of_getElem? hdrive)]
        trivial
    | drove mine _ _ =>
      rw [hmine] at mine
      cases mine
  | some j =>
    change (d.step a).1.stageAt i = some stage at hstage
    cases hj : d.drives[j]? with
    | none =>
      rw [(step_of_none hmine hj).1] at hstage
      apply h i stage hstage
    | some drive =>
      rw [step_of_some hmine hj] at hstage
      have htaken : a = .take j true → ∀ op ∈ d.sending j, P j op := taken j
      obtain ⟨drive', hdrives, hissues⟩ :=
        driveStep_moves hj (h j drive.stage (stageAt_drive hj)) htaken hmine
      rw [stageAt, hdrives, List.getElem?_set] at hstage
      split at hstage
      · next hij =>
          subst hij
          split at hstage
          · cases hstage
            apply hissues
          · cases hstage
      · apply h i stage hstage

end Daemon

namespace Coordinator

inductive Act where
  | request (desired : DesiredFields) (now : Instant) (stored : Bool)
  | cancel (fields : Finset MutationField) (now : Instant) (stored : Bool)
  | recover (now : Instant) (found stored : Bool)
  /-- A poll of a task is attached to the workspace. -/
  | attach (link : Link) (values : Task) (now : Instant) (stored : Bool)
  | take (drive : ℕ) (found : Bool)
  | build (drive : ℕ) (failure : Option String) (now : Instant) (stored : Bool)
  | mark (drive : ℕ) (stored : Bool)
  /-- The labels of the repository are read, and the next write is made. -/
  | dispatch (drive : ℕ) (repoLabels : List String)
  | answer (drive : ℕ) (error : Option (Bool × String)) (now : Instant) (stored : Bool)
  | refetched (drive : ℕ) (task : Option (Link × Task)) (now : Instant) (stored : Bool)
  | crash

/-- The write of a field of an operation, and the calls that it made. -/
structure Obs where
  op : PendingMutation
  field : MutationField
  calls : List ProviderCall

/-- The values of a request that the provider can hold. -/
def narrowToProvider (provider : Provider) (desired : DesiredFields) : DesiredFields :=
  match provider with
  | .github => desired
  | .linear => { desired with assignees := desired.assignees.map Loaded.narrowAssignees }

def attached (s : Coordinator) (link : Link) (values : Task) (now : Instant) (stored : Bool) :
    Coordinator :=
  if stored && classifyTask link ≠ .unknown then
    let slots := s.slots.attachTask link
    { s with
      daemon :=
        { s.daemon.observed { values with id := link.id } now true with held := slots.holds }
      slots := slots }
  else s

/-- The calls of the write that a drive makes next. -/
def calls (s : Coordinator) (provider : Provider) (i : ℕ) (repoLabels : List String) : List Obs :=
  match s.daemon.stageAt i with
  | some (.marked op (field :: _)) =>
      match (s.loaded i).dispatch provider repoLabels op.desired field with
      | .ok calls => [⟨op, field, calls⟩]
      | .error _ => [⟨op, field, []⟩]
  | _ => []

variable (key : String) (provider : Provider)

/-- A step of the daemon that leaves the slots of the workspace alone. -/
def daemonStep (s : Coordinator) (a : Daemon.Act) : Coordinator :=
  { s with daemon := Daemon.machine.next s.daemon a }

/-- An idle drive loads the workspace for the effect it takes. -/
def taken (s : Coordinator) (i : ℕ) (found : Bool) : Coordinator :=
  match s.daemon.stageAt i with
  | some .idle =>
      { s.daemonStep (.take i found) with
        loaded := Function.update s.loaded i ⟨key, s.slots, s.daemon.board.entities⟩ }
  | _ => s

def step (s : Coordinator) : Act → Coordinator × List Obs
  | .request desired now stored =>
      match s.slots.primaryTask with
      | some primary =>
          (s.daemonStep (.request primary.id (narrowToProvider provider desired) now stored), [])
      | none => (s, [])
  | .cancel fields now stored =>
      match s.slots.primaryTask with
      | some primary => (s.daemonStep (.cancel primary.id fields now stored), [])
      | none => (s, [])
  | .recover now found stored => (s.daemonStep (.recover now found stored), [])
  | .attach link values now stored => (s.attached link values now stored, [])
  | .take i found => (s.taken key i found, [])
  | .build i failure now stored => (s.daemonStep (.build i failure now stored), [])
  | .mark i stored => (s.daemonStep (.mark i stored), [])
  | .dispatch i repoLabels => (s.daemonStep (.dispatch i), s.calls provider i repoLabels)
  | .answer i error now stored => (s.daemonStep (.answer i error now stored), [])
  | .refetched i task now stored =>
      let s' := s.daemonStep (.refetched i none now stored)
      match s.daemon.stageAt i, task with
      | some (.refetching _), some (link, values) => (s'.attached link values now stored, [])
      | _, _ => (s', [])
  | .crash => (s.daemonStep .crash, [])

/-- The coordinator of a workspace. -/
def machine : Machine Coordinator Act Obs := ⟨step key provider⟩

/-- A workspace with an empty ledger, and no drives. -/
def new (slots : Slots) (entities : { e : TaskId → Task // ∀ t, (e t).id = t }) : Coordinator :=
  ⟨.new entities slots.holds, slots, fun _ => ⟨key, slots, entities.1⟩⟩

/-- The operation whose write a drive is about to send. -/
def sends? (s : Coordinator) : Act → Option PendingMutation
  | .take i true => s.daemon.sending i
  | .take _ false | .request _ _ _ | .cancel _ _ _ | .recover _ _ _ | .attach _ _ _ _
  | .build _ _ _ _ | .mark _ _ | .dispatch _ _ | .answer _ _ _ _ | .refetched _ _ _ _ | .crash =>
      none

/-- Each field of an operation is written, by the slots of the workspace, to its own task. -/
def Addressed (slots : Slots) (op : PendingMutation) : Prop :=
  ∀ field ∈ op.desired.writes, ∀ target ∈ slots.writesTo provider field, target.1 = op.task

instance (slots : Slots) (op : PendingMutation) : Decidable (Addressed provider slots op) :=
  inferInstanceAs (Decidable
    (∀ field ∈ op.desired.writes, ∀ target ∈ slots.writesTo provider field, target.1 = op.task))

/-- When a write is sent, the slots of the workspace still say the task of its operation. -/
def SendsToOwn (s : Coordinator) (a : Act) : Prop :=
  ∀ op ∈ s.sends? a, Addressed provider s.slots op

instance (s : Coordinator) (a : Act) : Decidable (SendsToOwn provider s a) :=
  inferInstanceAs (Decidable (∀ op ∈ s.sends? a, Addressed provider s.slots op))

/-! ### Every run -/

/-- What the drives have loaded says that the operations they issue go to their own tasks. -/
def LoadedOwn (s : Coordinator) : Prop :=
  ∀ i stage, s.daemon.stageAt i = some stage →
    stage.Issues (Addressed provider (s.loaded i).slots)

variable {key provider}

variable {s : Coordinator}

/-- Attaching a task is nothing to the drives. -/
theorem attached_loadedOwn
    (h : s.LoadedOwn provider) (link : Link) (values : Task) (now : Instant) (stored : Bool) :
  (s.attached link values now stored).LoadedOwn provider
  := by
  unfold attached
  split
  · apply h
  · apply h

/-- A step of the daemon which takes nothing keeps what was loaded. -/
theorem daemonStep_loadedOwn
    (h : s.LoadedOwn provider) {a : Daemon.Act} (other : ∀ i found, a ≠ .take i found) :
  (s.daemonStep a).LoadedOwn provider
  := by
  intro i stage hstage
  apply Daemon.issues_next h a _ i stage hstage
  intro i ha
  apply absurd ha (other i true)

/-- What a drive loads to send an operation says that it goes to its own task. -/
theorem take_loadedOwn {i : ℕ} {found : Bool} (h : s.LoadedOwn provider)
    (own : SendsToOwn provider s (.take i found)) :
  (s.taken key i found).LoadedOwn provider
  := by
  unfold taken
  cases hidle : s.daemon.stageAt i with
  | none => apply h
  | some stage =>
    cases stage with
    | idle =>
      intro j stage hstage
      apply Daemon.issues_next (P := fun j => Addressed provider
        (Function.update s.loaded i ⟨key, s.slots, s.daemon.board.entities⟩ j).slots)
        _ (.take i found) _ j stage hstage
      · intro j stage hstage
        by_cases hj : j = i
        · rw [hj, hidle] at hstage
          cases hstage
          trivial
        · rw [Function.update_of_ne hj]
          apply h j stage hstage
      · intro j hj op hop
        cases hj
        rw [Function.update_self]
        apply own op hop
    | loaded | built | marked | inFlight | refetching => apply h

theorem loadedOwn_next {a : Act} (own : SendsToOwn provider s a) (h : s.LoadedOwn provider) :
  ((machine key provider).next s a).LoadedOwn provider
  := by
  cases a with
  | request desired now stored =>
    change (step key provider s (.request desired now stored)).1.LoadedOwn provider
    unfold step
    cases s.slots.primaryTask with
    | none => apply h
    | some primary => exact daemonStep_loadedOwn h (by rintro _ _ ⟨⟩)
  | cancel fields now stored =>
    change (step key provider s (.cancel fields now stored)).1.LoadedOwn provider
    unfold step
    cases s.slots.primaryTask with
    | none => apply h
    | some primary => exact daemonStep_loadedOwn h (by rintro _ _ ⟨⟩)
  | attach link values now stored => exact attached_loadedOwn h link values now stored
  | take i found => exact take_loadedOwn h own
  | refetched i task now stored =>
    have hmoved : (s.daemonStep (.refetched i none now stored)).LoadedOwn provider :=
      daemonStep_loadedOwn h (by rintro _ _ ⟨⟩)
    change (step key provider s (.refetched i task now stored)).1.LoadedOwn provider
    unfold step
    dsimp only
    split
    · apply attached_loadedOwn hmoved
    · apply hmoved
  | recover | build | mark | dispatch | answer | crash =>
    exact daemonStep_loadedOwn h (by rintro _ _ ⟨⟩)

/-- A call of the provider is on the task of the operation it is made for. -/
def Obs.Lands (o : Obs) : Prop := ∀ call ∈ o.calls, call.task = o.op.task

theorem calls_land (h : s.LoadedOwn provider) (i : ℕ) (repoLabels : List String) {o : Obs}
    (ho : o ∈ s.calls provider i repoLabels) :
  o.Lands
  := by
  unfold calls at ho
  split at ho
  · next op field left hstage =>
      obtain ⟨haddressed, hleft⟩ := h i _ hstage
      split at ho
      · next calls hcalls =>
          rw [List.mem_singleton.mp ho]
          intro call hcall
          apply haddressed field (hleft field List.mem_cons_self) (call.task, call.node)
          apply Loaded.dispatch_writesTo hcalls hcall
      · rw [List.mem_singleton.mp ho]
        rintro call ⟨⟩
  · cases ho

theorem lands_emit
    (h : s.LoadedOwn provider) (a : Act) {o : Obs} (ho : o ∈ (machine key provider).emit s a) :
  o.Lands
  := by
  change o ∈ (step key provider s a).2 at ho
  unfold step at ho
  cases a with
  | dispatch i repoLabels => apply calls_land h i repoLabels ho
  | request desired now stored | cancel fields now stored =>
    dsimp only at ho
    cases hprimary : s.slots.primaryTask with
    | none =>
      rw [hprimary] at ho
      cases ho
    | some primary =>
      rw [hprimary] at ho
      cases ho
  | refetched i task now stored =>
    dsimp only at ho
    split at ho <;> cases ho
  | recover | attach | take | build | mark | answer | crash => cases ho

/-- In every run in which the slots of the workspace still say the task of an operation each time
its write is sent, every call of the provider is on the task of the operation it is made for. -/
theorem writes_land
    (slots : Slots) (entities : { e : TaskId → Task // ∀ t, (e t).id = t }) {as : List Act}
    (own : (machine key provider).Along (SendsToOwn provider) (new key slots entities) as) :
  ∀ o ∈ (machine key provider).trace (new key slots entities) as, o.Lands
  := by
  have hinvariant := (machine key provider).invariant
    (I := fun s os => s.LoadedOwn provider ∧ ∀ o ∈ os, o.Lands) (s := new key slots entities) (by
      constructor
      · intro i stage hstage
        cases hstage
      · intro o ho
        cases ho) (by
      rintro s os a hown ⟨hloaded, hlands⟩
      use loadedOwn_next hown hloaded
      intro o ho
      obtain ho | ho := List.mem_append.mp ho
      · apply hlands o ho
      · apply lands_emit hloaded a ho) own
  apply hinvariant.2

/-- An issue of a repository. -/
def issueSeven : Link :=
  ⟨⟨"github", "o/r#7"⟩, some .issue, "https://github.com/o/r/issues/7", some "I_7", some "o/r"⟩

/-- A pull request of the repository. -/
def pullEight : Link :=
  ⟨⟨"github", "o/r#8"⟩, some .pr, "https://github.com/o/r/pull/8", some "PR_8", some "o/r"⟩

/-- The workspace of the issue. -/
def issueWorkspace : Coordinator := new "github-o-r-7" ⟨none, [issueSeven], []⟩ Board.blankTasks

/-- A close of the issue, which is sent again after a wait in which a pull request is attached. -/
def closeTwice : List Act :=
  [.request { state := some ⟨.closed, none⟩ } 0 true, .take 0 true, .build 0 none 0 true,
    .mark 0 true, .dispatch 0 [], .answer 0 (some (true, "timeout")) 1 true,
    .attach pullEight (Board.blankTask pullEight.id) 2 true, .take 0 true,
    .build 0 none 20 true, .mark 0 true, .dispatch 0 []]

theorem closeTwice_lands :
  ((machine "github-o-r-7" .github).trace issueWorkspace closeTwice).isEmpty = false
    ∧ ∀ o ∈ (machine "github-o-r-7" .github).trace issueWorkspace closeTwice, o.Lands
  := ⟨by decide +kernel, writes_land _ _ (by decide +kernel)⟩

/-- A label for the issue, which is sent again after a wait in which a pull request is attached. -/
def labelTwice : List Act :=
  [.request { labels := some ["bug"] } 0 true, .take 0 true, .build 0 none 0 true,
    .mark 0 true, .dispatch 0 ["bug"], .answer 0 (some (true, "timeout")) 1 true,
    .attach pullEight (Board.blankTask pullEight.id) 2 true, .take 0 true,
    .build 0 none 20 true, .mark 0 true, .dispatch 0 ["bug"]]

/-- The label asked for on the issue is put on the pull request. -/
theorem labelTwice_lands_elsewhere :
  ¬ ∀ o ∈ (machine "github-o-r-7" .github).trace issueWorkspace labelTwice, o.Lands
  := by
  have helsewhere : ((machine "github-o-r-7" .github).trace issueWorkspace labelTwice).any
      (fun o => o.calls.any fun call => call.task ≠ o.op.task) = true := by
    decide +kernel
  intro hlands
  obtain ⟨o, ho, hcalls⟩ := List.any_eq_true.mp helsewhere
  obtain ⟨call, hcall, hother⟩ := List.any_eq_true.mp hcalls
  apply of_decide_eq_true hother
  apply hlands o ho call hcall

end Coordinator

end Lazybox
