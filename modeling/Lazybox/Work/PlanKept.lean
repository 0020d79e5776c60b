import Lazybox.Work.Progress

/-!
# Plans kept along a run

A task under a parent is created on the plan of the parent, unless another plan is named, and a
task that is deleted leaves what is nested under it.  As long as every task is created on the plan
of its parent, which is still there when the task is written, and no task is deleted above a task
on a plan, the progress of each plan is what is listed with it.
-/

namespace Lazybox.Work

variable {tasks tasks' : List Task}

/-- What leads up to a root on a plan does so in other tasks which have the same work on the way
up. -/
theorem LeadsTo.transfer (keep : Task → Prop) (distinct : (tasks.map Task.id).Nodup)
    (distinct' : (tasks'.map Task.id).Nodup)
    (same : ∀ t ∈ tasks, keep t → ∃ t' ∈ tasks', SameWork t t')
    (upward : ∀ a ∈ tasks, ∀ b ∈ tasks, b.parent = some a.id → keep b → keep a) {plan : PlanId}
    {t t' : Task} (h : LeadsTo tasks plan t) (kept : keep t) (ht' : t' ∈ tasks')
    (hid : t'.id = t.id) :
  LeadsTo tasks' plan t'
  := by
  obtain ⟨root, hroot, hparent, hplan, hunder⟩ := h
  obtain ⟨r, hr, hrid, hkept⟩ := hunder.exists_root upward kept
  rw [List.inj_on_of_nodup_map distinct hr hroot hrid] at hkept
  obtain ⟨root', hroot', hsame⟩ := same root hroot hkept
  refine ⟨root', hroot', hsame.parent.trans hparent, hsame.plan.trans hplan, ?_⟩
  rw [hsame.id]
  apply hunder.transfer keep _ _ upward kept t' ht' hid
  · intro a ha hka
    obtain ⟨b, hb, hab⟩ := same a ha hka
    exact ⟨b, hb, hab.id⟩
  · intro a ha hka b hb hkey
    obtain ⟨c, hc, hac⟩ := same a ha hka
    rw [List.inj_on_of_nodup_map distinct' hb hc (hkey.trans hac.id.symm)]
    apply hac.parent

/-- Every task is on the plan its links lead up to. -/
def Planned (tasks : List Task) : Prop := ∀ t ∈ tasks, OnItsPlan tasks t

/-- Tasks that are the same work, one by one, are all on their plans when the others are. -/
theorem Planned.of_same (distinct : (tasks.map Task.id).Nodup)
    (distinct' : (tasks'.map Task.id).Nodup) (same : ∀ t ∈ tasks, ∃ t' ∈ tasks', SameWork t t')
    (same' : ∀ t' ∈ tasks', ∃ t ∈ tasks, SameWork t t') (h : Planned tasks) :
  Planned tasks'
  := by
  intro t' ht' plan
  obtain ⟨t, ht, hsame⟩ := same' t' ht'
  rw [hsame.plan, h t ht plan]
  constructor
  · intro hleads
    apply hleads.transfer (fun _ => True) distinct distinct' (fun a ha _ => same a ha)
      (fun _ _ _ _ _ _ => trivial) trivial ht' hsame.id
  · intro hleads
    apply hleads.transfer (fun _ => True) distinct' distinct _
      (fun _ _ _ _ _ _ => trivial) trivial ht hsame.id.symm
    intro a ha _
    obtain ⟨b, hb, hba⟩ := same' a ha
    exact ⟨b, hb, hba.symm⟩

/-- A new task on the plan of its parent, under which there is nothing yet, leaves every task on
its plan. -/
theorem Planned.add
    {t : Task} (distinct : (tasks.map Task.id).Nodup) (distinct' : (tasks'.map Task.id).Nodup)
    (mem : ∀ u, u ∈ tasks' ↔ u = t ∨ u ∈ tasks) (new : ∀ u ∈ tasks, u.id ≠ t.id)
    (leaf : ∀ u ∈ tasks, u.parent ≠ some t.id) (self : t.parent ≠ some t.id)
    (under : ∀ p, t.parent = some p → ∃ u ∈ tasks, u.id = p ∧ t.plan = u.plan) (h : Planned tasks) :
  Planned tasks'
  := by
  have hold : ∀ u ∈ tasks, ∀ plan, LeadsTo tasks' plan u ↔ LeadsTo tasks plan u := by
    intro u hu plan
    constructor
    · intro hleads
      apply hleads.transfer (fun a => a ∈ tasks) distinct' distinct
        (fun a _ ha => ⟨a, ha, .refl a⟩) _ hu hu rfl
      intro a ha b _ hlink hb
      obtain rfl | ha := (mem a).mp ha
      · exact absurd hlink (leaf b hb)
      · apply ha
    · intro hleads
      apply hleads.transfer (fun _ => True) distinct distinct'
        (fun a ha _ => ⟨a, (mem a).mpr (.inr ha), .refl a⟩) (fun _ _ _ _ _ _ => trivial) trivial
        ((mem u).mpr (.inr hu)) rfl
  intro u hu plan
  obtain rfl | hu := (mem u).mp hu
  · cases hparent : u.parent with
    | none =>
      constructor
      · intro hplan
        exact ⟨u, hu, hparent, hplan, .self hu rfl⟩
      · rintro ⟨root, hroot, -, hplan, hunder⟩
        have hid := hunder.eq_of_root hparent
        rwa [List.inj_on_of_nodup_map distinct' hu hroot hid]
    | some p =>
      obtain ⟨v, hv, rfl, hplan⟩ := under p hparent
      have hv' := (mem v).mpr (.inr hv)
      rw [hplan, h v hv plan, ← hold v hv plan]
      constructor
      · rintro ⟨root, hroot, hnone, hrplan, hunder⟩
        exact ⟨root, hroot, hnone, hrplan, .child hu hparent hunder⟩
      · rintro ⟨root, hroot, hnone, hrplan, hunder⟩
        use root, hroot, hnone, hrplan
        cases hunder with
        | self mem eq =>
          rw [← List.inj_on_of_nodup_map distinct' hu hroot eq, hparent] at hnone
          cases hnone
        | @child a _ mem link above =>
          rw [hparent] at link
          have hkey := Option.some.inj link
          rwa [List.inj_on_of_nodup_map distinct' above.mem hv' hkey.symm] at above
  · rw [h u hu plan, hold u hu plan]

/-- Without a task above tasks on no plan only, every task is on its plan. -/
theorem Planned.delete {id : WorkId} (distinct : (tasks.map Task.id).Nodup)
    (distinct' : (tasks'.map Task.id).Nodup) (mem : ∀ u, u ∈ tasks' ↔ u ∈ tasks ∧ u.id ≠ id)
    (below : ∀ u ∈ tasks, Forest.Under Task.id Task.parent tasks id u → u.id ≠ id → u.plan = none)
    (h : Planned tasks) :
  Planned tasks'
  := by
  intro u hu' plan
  obtain ⟨hu, hid⟩ := (mem u).mp hu'
  constructor
  · intro hplan
    have hleads := (h u hu plan).mp hplan
    apply hleads.transfer (fun a => ¬ Forest.Under Task.id Task.parent tasks id a)
      distinct distinct' _ _ _ hu' rfl
    · intro a ha hka
      refine ⟨a, (mem a).mpr ⟨ha, ?_⟩, .refl a⟩
      intro heq
      apply hka
      apply Forest.Under.self ha heq
    · intro a _ b hb hlink hkb hka
      apply hkb
      apply Forest.Under.child hb hlink hka
    · intro hunder
      rw [below u hu hunder hid] at hplan
      cases hplan
  · intro hleads
    rw [h u hu plan]
    apply hleads.transfer (fun _ => True) distinct' distinct
      (fun a ha _ => ⟨a, ((mem a).mp ha).1, .refl a⟩) (fun _ _ _ _ _ _ => trivial) trivial hu rfl

/-! ### Runs -/

/-- The tasks held under one id are the same work. -/
def OneWork (w : Server) : Prop :=
  ∀ t t', w.Holds t → w.Holds t' → t.id = t'.id → SameWork t t'

theorem OneWork.next {w : Server} (minted : Minted w) (h : OneWork w) (a : Act) :
  OneWork (Server.machine.next w a)
  := by
  intro t t' ht ht' hid
  obtain ⟨u, hu, same⟩ | ⟨hnext, args, hcreated⟩ := Server.holds_next ht
  · obtain ⟨u', hu', same'⟩ | ⟨-, args', hcreated'⟩ := Server.holds_next ht'
    · apply same.symm.trans
      apply SameWork.trans _ same'
      apply h u u' hu hu'
      rw [← same.id, hid, same'.id]
    · exfalso
      apply minted.fresh hu
      rw [← same.id, hid, hcreated'.id]
  · obtain ⟨u', hu', same'⟩ | ⟨hnext', -⟩ := Server.holds_next ht'
    · exfalso
      apply minted.fresh hu'
      rw [← same'.id, ← hid, hcreated.id]
    · rw [hnext] at hnext'
      have hpending := congrArg Server.pending hnext'
      simp only [Server.start, List.append_cancel_left_eq, List.cons.injEq, single,
        Batch.mk.injEq, and_true] at hpending
      rw [hpending]
      apply SameWork.refl

namespace Server

/-- A task is written where one is stored, or as a new one on the plan of its parent; a task is
deleted above tasks on no plan only. -/
def KeepsPlans (w : Server) : Act → Prop
  | .save i => ∀ batch, w.pending[i]? = some batch →
      (∀ t' ∈ batch.tasks, ∃ t, w.store.loadTask t'.id = some t)
      ∨ ∃ t', batch.tasks = [t'] ∧ (∀ t ∈ w.store.allTasks, t.parent ≠ some t'.id)
          ∧ ∀ p, t'.parent = some p → ∃ t, w.store.loadTask p = some t ∧ t'.plan = t.plan
  | .deleteTask id => ∀ t ∈ w.store.allTasks,
      Forest.Under Task.id Task.parent w.store.allTasks id t → t.id ≠ id → t.plan = none
  | _ => True

/-- What a run keeps. -/
structure Kept (w : Server) : Prop where
  minted : Minted w
  oneWork : OneWork w
  planned : Planned w.store.allTasks

theorem planned_saves {w : Server} (kept : Kept w) {i : ℕ} {batch : Batch}
    (hbatch : w.pending[i]? = some batch) (h : KeepsPlans w (.save i)) :
  Planned (w.store.saveTasks batch.tasks).allTasks
  := by
  have held : ∀ t' ∈ batch.tasks, w.Holds t' :=
    fun t' ht' => .inr ⟨batch, List.mem_of_getElem? hbatch, ht'⟩
  have written : (∀ t' ∈ batch.tasks, ∃ t, w.store.loadTask t'.id = some t) →
      Planned (w.store.saveTasks batch.tasks).allTasks := by
    intro hstored
    apply kept.planned.of_same w.store.distinct_allTasks (WorkStore.distinct_allTasks _)
    · intro t ht
      by_cases hwritten : ∃ u ∈ batch.tasks, u.id = t.id
      · obtain ⟨u, hu, hid⟩ := hwritten
        use u, WorkStore.mem_allTasks_saveTasks.mpr (.inl hu)
        apply kept.oneWork t u (.inl ht) (held u hu) hid.symm
      · push Not at hwritten
        exact ⟨t, WorkStore.mem_allTasks_saveTasks.mpr (.inr ⟨ht, hwritten⟩), .refl t⟩
    · intro t' ht'
      obtain hnew | ⟨hold, -⟩ := WorkStore.mem_allTasks_saveTasks.mp ht'
      · obtain ⟨t, hload⟩ := hstored t' hnew
        have hid := WorkStore.loadTask_id hload
        rw [← hid] at hload
        have ht := WorkStore.mem_allTasks.mpr hload
        exact ⟨t, ht, kept.oneWork t t' (.inl ht) (held t' hnew) hid⟩
      · exact ⟨t', hold, .refl t'⟩
  obtain hstored | ⟨t', htasks, hleaf, hunder⟩ := h batch hbatch
  · apply written hstored
  · cases hload : w.store.loadTask t'.id with
    | some t =>
      apply written
      rw [htasks]
      intro u hu
      rw [List.mem_singleton.mp hu]
      exact ⟨t, hload⟩
    | none =>
      have hnew : ∀ u ∈ w.store.allTasks, u.id ≠ t'.id := by
        intro u hu hid
        rw [WorkStore.mem_allTasks, hid, hload] at hu
        cases hu
      apply kept.planned.add w.store.distinct_allTasks (WorkStore.distinct_allTasks _)
        (t := t') _ hnew hleaf
      · intro hself
        have := (kept.minted t' (held t' (by simp [htasks]))).parent _ hself
        exact absurd this (lt_irrefl _)
      · intro p hp
        obtain ⟨u, hu, hplan⟩ := hunder p hp
        have hid := WorkStore.loadTask_id hu
        rw [← hid] at hu
        exact ⟨u, WorkStore.mem_allTasks.mpr hu, hid, hplan⟩
      · intro u
        rw [WorkStore.mem_allTasks_saveTasks, htasks]
        simp only [List.mem_singleton, forall_eq]
        constructor
        · rintro (h | ⟨h, -⟩)
          · exact .inl h
          · exact .inr h
        · rintro (h | h)
          · exact .inl h
          · exact .inr ⟨h, (hnew u h).symm⟩

theorem Kept.next {w : Server} (kept : Kept w) {a : Act} (h : KeepsPlans w a) :
  Kept (machine.next w a)
  := by
  constructor
  · apply kept.minted.next
  · apply kept.oneWork.next kept.minted
  · have hdoes := w.does a
    generalize machine.next w a = w' at hdoes
    cases hdoes with
    | saves hbatch => apply planned_saves kept hbatch h
    | deletes id =>
      apply kept.planned.delete w.store.distinct_allTasks (WorkStore.distinct_allTasks _) _ h
      intro u
      apply WorkStore.mem_allTasks_deleteTask
    | idle | created | reads | fails => apply kept.planned

theorem Kept.empty : Kept .empty
  := by
  constructor
  · apply Minted.empty
  · intro t t' ht
    simp [Holds, Server.empty, WorkStore.empty, WorkStore.allTasks] at ht
  · intro t ht
    simp [Server.empty, WorkStore.empty, WorkStore.allTasks] at ht

theorem minted_final (as : List Act) :
  Minted (machine.final empty as)
  := by
  apply machine.invariant (P := fun _ _ => True) (I := fun w _ => Minted w) Minted.empty
    (fun w _ a _ h => h.next a)
  apply machine.along_of_forall
  intros
  trivial

theorem ranked_allTasks {w : Server} (minted : Minted w) :
  Forest.Ranked Task.id Task.parent w.store.allTasks WorkId.uuid w.next
  := by
  constructor
  · intro t ht
    apply (minted t (.inl ht)).id
  · intro a _ b hb hlink
    apply (minted b (.inl hb)).parent _ hlink

/-- In every store that is reached, the progress of a plan is the count of the tasks met going
down from its roots, which ends and meets each once.  The counts are those of the tasks listed
exactly when each task not canceled is on the plan its links lead up to, and so they are along
every run whose steps keep plans and nesting together. -/
theorem planProgress_counts_listed (as : List Act) :
  let w := machine.final empty as
  let tasks := w.store.allTasks
  (∀ n, w.next < n → ∀ plan, ∃ rows, counted tasks n plan = some rows ∧ rows.Nodup
      ∧ planProgress tasks n plan = some (tally ⟨0, 0⟩ rows))
    ∧ (∀ n, w.next < n → ((∀ plan, CountsListed tasks n plan)
        ↔ ∀ t ∈ tasks, t.lifecycle ≠ .canceled → OnItsPlan tasks t))
    ∧ (machine.Along KeepsPlans empty as →
        ∀ n, w.next < n → ∀ plan, CountsListed tasks n plan)
  := by
  intro w tasks
  have hranked := ranked_allTasks (minted_final as)
  have hdistinct := w.store.distinct_allTasks
  have hiff : ∀ n, w.next < n → ((∀ plan, CountsListed tasks n plan)
      ↔ ∀ t ∈ tasks, t.lifecycle ≠ .canceled → OnItsPlan tasks t) := by
    intro n hn
    apply countsListed_iff hdistinct hranked (by omega) hn.le
  and_intros
  · intro n hn plan
    obtain ⟨rows, hrows, nodup⟩ := exists_counted hdistinct hranked (by omega) hn.le plan
    refine ⟨rows, hrows, nodup, ?_⟩
    rw [planProgress_eq, hrows, Option.map_some]
  · apply hiff
  · intro along n hn
    rw [hiff n hn]
    have kept : Kept w := machine.invariant (I := fun w _ => Kept w) Kept.empty
      (fun w _ a ha h => h.next ha) along
    intro t ht _
    apply kept.planned t ht

/-- A task is created under another, on the plan of that one. -/
def nestedThere : List Act :=
  [.savePlan ⟨⟨1⟩, "one"⟩, .create ⟨"requester", "parent", "", none, some ⟨1⟩, none, []⟩ 0, .save 0,
    .create ⟨"requester", "child", "", none, none, some ⟨0⟩, []⟩ 1, .save 0]

theorem planProgress_nestedThere :
  let tasks := (machine.final empty nestedThere).store.allTasks
  ∀ n, (machine.final empty nestedThere).next < n → ∀ plan, CountsListed tasks n plan
  := by
  apply (planProgress_counts_listed nestedThere).2.2
  refine ⟨trivial, trivial, ?_, trivial, ?_, trivial⟩
  · intro batch hbatch
    cases hbatch
    right
    refine ⟨_, rfl, by decide +kernel, ?_⟩
    intro p hp
    cases hp
  · intro batch hbatch
    cases hbatch
    right
    refine ⟨_, rfl, by decide +kernel, ?_⟩
    intro p hp
    cases hp
    exact ⟨_, rfl, rfl⟩

/-- A task is created under another, on another plan than that one. -/
def nestedElsewhere : List Act :=
  [.savePlan ⟨⟨1⟩, "one"⟩, .savePlan ⟨⟨2⟩, "two"⟩,
    .create ⟨"requester", "parent", "", none, some ⟨1⟩, none, []⟩ 0, .save 0,
    .create ⟨"requester", "child", "", none, some ⟨2⟩, some ⟨0⟩, []⟩ 1, .save 0]

/-- The child is listed with its own plan and counted on the other. -/
theorem nestedElsewhere_miscounted :
  let w := machine.final empty nestedElsewhere
  ¬ ∀ n, w.next < n → ∀ plan, CountsListed w.store.allTasks n plan
  := by
  intro w h
  have hprogress := (h 3 (by decide +kernel) ⟨2⟩).progress
  have hnone : planProgress w.store.allTasks 3 ⟨2⟩ = some ⟨0, 0⟩ := by decide +kernel
  rw [hnone] at hprogress
  have hone : ((listed w.store.allTasks ⟨2⟩).filter notCanceled).length = 1 := by decide +kernel
  rw [hone] at hprogress
  cases hprogress

end Server

end Lazybox.Work
