import Lazybox.Library.Forest
import Lazybox.Work.Calls

/-!
# The progress of a plan

The progress of a plan is found by going down the parent links from the roots on the plan, and the
tasks shown with it are those whose own plan it is.  The links of the tasks lead to older ids, so
going down ends, and meets each task once.  The two agree on a store exactly when every task not
canceled is on the plan its links lead up to, and on none when they lead to no root.
-/

namespace Lazybox.Work

structure Progress where
  done : ℕ
  total : ℕ
deriving DecidableEq, Repr

/-- Count a task, unless it is canceled. -/
def Progress.count (p : Progress) (t : Task) : Progress :=
  if t.lifecycle ≠ .canceled then
    ⟨if t.lifecycle = .completed then p.done + 1 else p.done, p.total + 1⟩
  else p

/-- Add a task and everything nested under it, or `none` when the fuel runs out. -/
def accumulate (tasks : List Task) : ℕ → Option WorkId → Progress → Option Progress
  | 0, _, _ => none
  | n + 1, id, p =>
      match id with
      | none => some p
      | some id =>
          match Keyed.lookup Task.id id tasks with
          | none => some p
          | some t =>
              (tasks.filter fun other => other.parent = some id).foldlM
                (fun p child => accumulate tasks n (some child.id) p) (p.count t)

/-- The roots on a plan. -/
def roots (tasks : List Task) (plan : PlanId) : List Task :=
  tasks.filter fun t => t.plan = some plan ∧ t.parent = none

/-- Progress for a whole plan. -/
def planProgress (tasks : List Task) (n : ℕ) (plan : PlanId) : Option Progress :=
  (roots tasks plan).foldlM (fun p t => accumulate tasks n (some t.id) p) ⟨0, 0⟩

/-- The tasks shown with a plan. -/
def listed (tasks : List Task) (plan : PlanId) : List Task :=
  tasks.filter fun t => t.plan = some plan

def notCanceled (t : Task) : Bool := t.lifecycle ≠ .canceled

def completed (t : Task) : Bool := t.lifecycle = .completed

/-! ### The tasks that are counted -/

/-- The tasks met going down from the roots on a plan. -/
def counted (tasks : List Task) (n : ℕ) (plan : PlanId) : Option (List Task) :=
  Forest.walks Task.id Task.parent tasks n (roots tasks plan)

/-- The count of some tasks. -/
def tally (p : Progress) (rows : List Task) : Progress := rows.foldl Progress.count p

theorem tally_eq (p : Progress) (rows : List Task) :
  tally p rows
    = ⟨p.done + (rows.filter completed).length, p.total + (rows.filter notCanceled).length⟩
  := by
  induction rows generalizing p with
  | nil => rfl
  | cons t rows ih =>
    rw [tally, List.foldl_cons]
    change tally (p.count t) rows = _
    rw [ih, Progress.count]
    by_cases hcanceled : t.lifecycle = .canceled
    · simp [completed, notCanceled, hcanceled]
    · by_cases hcompleted : t.lifecycle = .completed
      · simp [completed, notCanceled, hcompleted]
        omega
      · simp [completed, notCanceled, hcanceled, hcompleted]
        omega

/-- Counting the parts one after another is counting what they are put together to. -/
theorem foldlM_tally {β : Type} {f : Progress → β → Option Progress} {g : β → Option (List Task)}
    (h : ∀ p b, f p b = (g b).map (tally p)) (p : Progress) (bs : List β) :
  bs.foldlM f p = (Forest.collect (bs.map g)).map (tally p)
  := by
  induction bs generalizing p with
  | nil => rfl
  | cons b bs ih =>
    rw [List.foldlM_cons, h, List.map_cons, Forest.collect]
    cases g b with
    | none => rfl
    | some rows =>
      simp only [Option.map_some, Option.bind_eq_bind, Option.bind_some, Option.map_map]
      rw [ih]
      congr 1
      funext more
      simp [tally]

theorem accumulate_eq (tasks : List Task) (n : ℕ) (id : WorkId) (p : Progress) :
  accumulate tasks n (some id) p
    = (Forest.walk Task.id Task.parent tasks n id).map (tally p)
  := by
  induction n generalizing id p with
  | zero => rfl
  | succ n ih =>
    rw [accumulate, Forest.walk]
    cases Keyed.lookup Task.id id tasks with
    | none => rfl
    | some t =>
      dsimp only
      rw [foldlM_tally fun p child => ih child.id p, Option.map_map]
      rfl

/-- The progress of a plan is the count of the tasks met going down from its roots. -/
theorem planProgress_eq (tasks : List Task) (n : ℕ) (plan : PlanId) :
  planProgress tasks n plan = (counted tasks n plan).map (tally ⟨0, 0⟩)
  := by
  apply foldlM_tally
  intro p t
  apply accumulate_eq

/-! ### Counted and listed -/

/-- The links of the task lead up to a root on the plan. -/
def LeadsTo (tasks : List Task) (plan : PlanId) (t : Task) : Prop :=
  ∃ root ∈ tasks, root.parent = none ∧ root.plan = some plan
    ∧ Forest.Under Task.id Task.parent tasks root.id t

/-- The task is on the plan its links lead up to. -/
def OnItsPlan (tasks : List Task) (t : Task) : Prop :=
  ∀ plan, t.plan = some plan ↔ LeadsTo tasks plan t

/-- The progress of the plan is what is listed, and counts the tasks listed, each once. -/
structure CountsListed (tasks : List Task) (n : ℕ) (plan : PlanId) : Prop where
  progress :
    planProgress tasks n plan
      = some ⟨((listed tasks plan).filter completed).length,
          ((listed tasks plan).filter notCanceled).length⟩
  rows :
    ∃ rows, counted tasks n plan = some rows
      ∧ (rows.filter notCanceled).Perm ((listed tasks plan).filter notCanceled)

section Tasks

variable {tasks : List Task} (distinct : (tasks.map Task.id).Nodup) {n : ℕ} {plan : PlanId}
include distinct

theorem mem_counted {rows : List Task} (h : counted tasks n plan = some rows) (t : Task) :
  t ∈ rows ↔ LeadsTo tasks plan t
  := by
  rw [Forest.mem_walks distinct h, LeadsTo]
  constructor
  · rintro ⟨root, hroot, hunder⟩
    obtain ⟨hmem, hcond⟩ := List.mem_filter.mp hroot
    obtain ⟨hplan, hparent⟩ := of_decide_eq_true hcond
    exact ⟨root, hmem, hparent, hplan, hunder⟩
  · rintro ⟨root, hmem, hparent, hplan, hunder⟩
    exact ⟨root, List.mem_filter.mpr ⟨hmem, decide_eq_true ⟨hplan, hparent⟩⟩, hunder⟩

variable {rank : WorkId → ℕ} {N : ℕ} (ranked : Forest.Ranked Task.id Task.parent tasks rank N)
  (hn : 0 < n) (hN : N ≤ n)
include ranked hn hN

/-- Going down ends, and meets each task once. -/
theorem exists_counted (plan : PlanId) :
  ∃ rows, counted tasks n plan = some rows ∧ rows.Nodup
  := by
  obtain ⟨rows, hrows⟩ := Forest.exists_walks ranked hn hN (roots tasks plan)
  use rows, hrows
  apply Forest.nodup_walks distinct ranked hrows
  · apply (List.Nodup.of_map _ distinct).filter
  · intro r hr
    obtain ⟨hmem, hcond⟩ := List.mem_filter.mp hr
    exact ⟨hmem, (of_decide_eq_true hcond).2⟩

omit ranked hn hN in
/-- The tasks counted are those listed, but for the canceled ones, when each of the others is
listed exactly if its links lead up to the plan. -/
theorem perm_listed_iff
    {rows : List Task} (hrows : counted tasks n plan = some rows) (nodup : rows.Nodup) :
  (rows.filter notCanceled).Perm ((listed tasks plan).filter notCanceled)
    ↔ ∀ t ∈ tasks, t.lifecycle ≠ .canceled → (t.plan = some plan ↔ LeadsTo tasks plan t)
  := by
  have hlisted : (listed tasks plan).Nodup := (List.Nodup.of_map _ distinct).filter _
  rw [List.perm_ext_iff_of_nodup (nodup.filter _) (hlisted.filter _)]
  simp only [List.mem_filter, mem_counted distinct hrows, listed, notCanceled]
  constructor
  · intro h t ht hlive
    have := h t
    simp only [ht, true_and, hlive, ne_eq, not_false_eq_true, decide_true, and_true,
      decide_eq_true_eq] at this
    apply this.symm
  · intro h t
    by_cases ht : t ∈ tasks
    · by_cases hlive : t.lifecycle = .canceled
      · simp [hlive]
      · simp [ht, hlive, h t ht hlive]
    · have : ¬ LeadsTo tasks plan t := by
        rintro ⟨root, -, -, -, hunder⟩
        apply ht hunder.mem
      simp [ht, this]

omit distinct ranked hn hN in
theorem filter_completed (rows : List Task) :
  rows.filter completed = (rows.filter notCanceled).filter completed
  := by
  rw [List.filter_filter]
  apply List.filter_congr
  intro t _
  by_cases hdone : t.lifecycle = .completed <;> simp [completed, notCanceled, hdone]

/-- What is counted is what is listed, for every plan, exactly when each task not canceled is on
the plan its links lead up to. -/
theorem countsListed_iff :
  (∀ plan, CountsListed tasks n plan)
    ↔ ∀ t ∈ tasks, t.lifecycle ≠ .canceled → OnItsPlan tasks t
  := by
  constructor
  · intro h t ht hlive plan
    obtain ⟨rows, hrows, nodup⟩ := exists_counted distinct ranked hn hN plan
    obtain ⟨rows', hrows', hperm⟩ := (h plan).rows
    rw [hrows] at hrows'
    cases hrows'
    apply (perm_listed_iff distinct hrows nodup).mp hperm t ht hlive
  · intro h plan
    obtain ⟨rows, hrows, nodup⟩ := exists_counted distinct ranked hn hN plan
    have hperm := (perm_listed_iff distinct hrows nodup).mpr fun t ht hlive => h t ht hlive plan
    constructor
    · rw [planProgress_eq, hrows, Option.map_some, tally_eq, filter_completed,
        filter_completed (listed tasks plan), (hperm.filter completed).length_eq,
        hperm.length_eq]
      simp
    · exact ⟨rows, hrows, hperm⟩

end Tasks

end Lazybox.Work
