import Lazybox.Core.ProviderBoard
import Mathlib.Data.List.Forall2
import Mathlib.Data.Nat.Count

/-!
# Entities sharing a ledger

A run over several tasks that share a ledger is compared with the run of the actions of one
task alone, from the same ledger.  Identities are given out in the order of requests, so those
of the second run are renamed: an operation is numbered by how many operations known to the
second run come before it.

The generations are kept by field only.  A request or a cancellation of another task moves the
generation of every field it names, and so makes an operation lose a field of its own entity.
As long as that does not happen to a current operation of the task the two runs agree about it.
-/

namespace Lazybox

/-- The event about renamed operations. -/
def OpEvent.rename (ρ : OperationId → OperationId) : OpEvent → OpEvent
  | .requested task desired now => .requested task desired now
  | .sent id => .sent (ρ id)
  | .acked id now => .acked (ρ id) now
  | .failed id failure detail now => .failed (ρ id) failure detail now
  | .cancelled task fields now => .cancelled task fields now

def OpEffect.rename (ρ : OperationId → OperationId) : OpEffect → OpEffect
  | .send id => .send (ρ id)
  | .reconcile id => .reconcile (ρ id)
  | .retry id notBefore => .retry (ρ id) notBefore
  | .report id message => .report (ρ id) message
  | .settled id => .settled (ρ id)

namespace Board

open ProviderOps

def Act.rename (ρ : OperationId → OperationId) : Act → Act
  | .event task e => .event task (e.rename ρ)
  | .observed task now => .observed task now
  | .recovered now => .recovered now

def Obs.rename (ρ : OperationId → OperationId) (o : Obs) : Obs :=
  ⟨o.act.rename ρ, o.effects.map (OpEffect.rename ρ)⟩

/-- The operations a run restricted to one task knows: the first `n`, which the ledger gave out
before the run, and those of the task. -/
def Known (n : ℕ) (t : TaskId) (owners : List TaskId) (id : OperationId) : Prop :=
  id < n ∨ owners[id]? = some t

instance (n : ℕ) (t : TaskId) (owners : List TaskId) : DecidablePred (Known n t owners) :=
  fun id => inferInstanceAs (Decidable (id < n ∨ owners[id]? = some t))

/-- The identity of an operation in the run restricted to one task. -/
def renamed (n : ℕ) (t : TaskId) (owners : List TaskId) : OperationId → OperationId :=
  Nat.count (Known n t owners)

/-- The pending operations about a task. -/
def view (b : Board) (t : TaskId) : List PendingMutation :=
  b.ops.pending.filter fun op => op.task = t

/-- The same operation, under its identity in the restricted run.  The generations it recorded
are not compared: they are counted over all tasks. -/
structure Twin (ρ : OperationId → OperationId) (op op' : PendingMutation) : Prop where
  id : op'.id = ρ op.id
  task : op'.task = op.task
  desired : op'.desired = op.desired
  previous : op'.previous = op.previous
  issuedAt : op'.issuedAt = op.issuedAt
  phase : op'.phase = op.phase
  attempts : op'.attempts = op.attempts

/-- Two boards agree about a task: its entity shows the same, and its pending operations are the
same. -/
structure Agree (t : TaskId) (ρ : OperationId → OperationId) (b c : Board) : Prop where
  entity : c.entities t = b.entities t
  ops : List.Forall₂ (Twin ρ) (b.view t) (c.view t)

/-- No action of another task touches a field of a current operation of the task. -/
def Undisturbed (t : TaskId) (b : Board) : Act → Prop
  | .event task event =>
      task ≠ t → ∀ op ∈ b.ops.pending, op.task = t → b.ops.isCurrent op = true →
        Disjoint op.desired.claimed (ProviderOps.touched event)
  | .observed _ _ | .recovered _ => True

instance (t : TaskId) (b : Board) : ∀ a : Act, Decidable (b.Undisturbed t a)
  | .event task event => inferInstanceAs (Decidable
      (task ≠ t → ∀ op ∈ b.ops.pending, op.task = t → b.ops.isCurrent op = true →
        Disjoint op.desired.claimed (ProviderOps.touched event)))
  | .observed _ _ | .recovered _ => isTrue trivial

/-! ### Who an operation belongs to -/

/-- The board knows the task of every operation its ledger gave out. -/
structure Owned (b : Board) : Prop where
  wf : b.ops.Wf
  length : b.owners.length = b.ops.nextId
  owner : ∀ op ∈ b.ops.pending, b.owners[op.id]? = some op.task

theorem owners_step (b : Board) (a : Act) :
  (machine.next b a).owners = b.owners ++ (b.admitted a).map PendingMutation.task
  := by
  cases a with
  | event task event => rfl
  | observed task now => exact (List.append_nil _).symm
  | recovered now => exact (List.append_nil _).symm

variable {b : Board}

theorem Owned.step (owned : Owned b) (a : Act) :
  Owned (machine.next b a)
  where
  wf := step_wf owned.wf a
  length := by
    rw [owners_step, step_ops owned.wf]
    simp [owned.length]
  owner := by
    intro op' hop'
    rw [owners_step]
    rcases (mem_pending_step owned.wf).mp hop' with ⟨op, hop, hfate⟩ | hnew
    · rw [(sameClaim_fate hfate).id, (sameClaim_fate hfate).task, List.getElem?_append_left]
      · apply owned.owner op hop
      · rw [owned.length]
        apply owned.wf.known op hop
    · rcases b.admitted_cases a with hnone | ⟨op, hop, hid⟩
      · simp [hnone] at hnew
      · rw [hop, List.mem_singleton] at hnew
        rw [hnew, hid, ← owned.length, hop]
        simp

theorem owned_new (entities : { e : TaskId → Task // ∀ t, (e t).id = t }) :
  Owned (new entities)
  where
  wf := wf_new entities
  length := rfl
  owner := by simp [new, ProviderOps.default]

theorem Owned.final (owned : Owned b) (acts : List Act) :
  Owned (machine.final b acts)
  := by
  induction acts generalizing b with
  | nil => apply owned
  | cons a acts ih => apply ih (owned.step a)

theorem owners_grown (b : Board) (acts : List Act) :
  b.owners <+: (machine.final b acts).owners
  := by
  induction acts generalizing b with
  | nil => apply List.prefix_rfl
  | cons a acts ih =>
    apply List.IsPrefix.trans _ (ih (machine.next b a))
    rw [owners_step]
    apply List.prefix_append

/-! ### Steps of one task and the operations of another -/

variable {op : PendingMutation}

variable {t : TaskId}

/-- An operation named by an event applied to the entity of a task is about that task. -/
theorem Owned.task_of_named
    (owned : Owned b) {event : OpEvent} (addressed : b.Addressed (.event t event))
    (hop : op ∈ b.ops.pending) (hid : event.id? = some op.id) :
  op.task = t
  := addressed.2 op.id hid op.task (owned.owner op hop)

/-- An event applied to the entity of one task does nothing because of the operations of
another. -/
theorem quiet_other (owned : Owned b) {event : OpEvent} (addressed : b.Addressed (.event t event))
    (hop : op ∈ b.ops.pending) (htask : op.task ≠ t) :
  b.ops.fate event op = some op ∧ b.ops.traces event op = []
    ∧ b.ops.putsBack event op = false
  := by
  have hnamed : event.id? ≠ some op.id := fun h => htask (owned.task_of_named addressed hop h)
  cases event with
  | requested task desired now =>
    obtain rfl := addressed.1 task rfl
    have hkept : supersedes task desired.claimed op = false := by
      rw [Bool.eq_false_iff]
      exact fun h => htask (supersedes_iff.mp h).1
    simp [ProviderOps.fate, traces, putsBack, hkept]
  | sent id =>
    have hid : op.id ≠ id := fun h => hnamed (congrArg some h.symm)
    simp [ProviderOps.fate, traces, putsBack, hid]
  | acked id now =>
    have hid : op.id ≠ id := fun h => hnamed (congrArg some h.symm)
    simp [ProviderOps.fate, traces, putsBack, hid]
  | failed id failure detail now =>
    have hid : op.id ≠ id := fun h => hnamed (congrArg some h.symm)
    simp [ProviderOps.fate, traces, putsBack, hid]
  | cancelled task fields now =>
    obtain rfl := addressed.1 task rfl
    have hkept : affected task fields op = false := by
      rw [Bool.eq_false_iff]
      exact fun h => htask (affected_iff.mp h).1
    simp [ProviderOps.fate, traces, putsBack, hkept]

/-- An action of one task does nothing to the operations of another. -/
theorem fate_other (owned : Owned b) {a : Act} (ht : a.task? = some t) (addressed : b.Addressed a)
    (hop : op ∈ b.ops.pending) (htask : op.task ≠ t) :
  b.fate a op = some op
  := by
  cases a with
  | event task event =>
    cases ht
    apply (quiet_other owned addressed hop htask).1
  | observed task now =>
    cases ht
    simp [Board.fate, htask]
  | recovered now => cases ht

/-- What a step admits is about the task of the action. -/
theorem task_of_admitted
    {a : Act} (ht : a.task? = some t) (addressed : b.Addressed a) (hop : op ∈ b.admitted a) :
  op.task = t
  := by
  cases a with
  | event task event =>
    cases ht
    obtain ⟨task', desired, now, rfl, -, rfl⟩ := mem_admitted.mp hop
    apply addressed.1 task' rfl
  | observed task now => simp [Board.admitted] at hop
  | recovered now => simp [Board.admitted] at hop

/-- The operations about a task after a step. -/
theorem view_step (wf : b.ops.Wf) (a : Act) (t : TaskId) :
  (machine.next b a).view t
    = (b.view t).filterMap (b.fate a) ++ (b.admitted a).filter fun op => op.task = t
  := by
  rw [view, step_ops wf, List.filter_append, view, List.filter_filterMap, List.filterMap_filter]
  congr 1
  apply List.filterMap_congr
  intro op _
  cases hfate : b.fate a op with
  | none => simp
  | some op' =>
    have htask := (sameClaim_fate hfate).task
    by_cases ht : op.task = t <;> simp [htask, ht]

/-! ### The two runs in step -/

section Mirrors

variable {n : ℕ} {t : TaskId} {owners : List TaskId} {b c : Board}

variable {id : OperationId}

theorem renamed_of_le (h : id ≤ n) :
  renamed n t owners id = id
  := by
  rw [renamed, Nat.count_iff_forall]
  intro id' hid'
  left
  apply lt_of_lt_of_le hid' h

theorem le_renamed (h : n ≤ id) :
  n ≤ renamed n t owners id
  := by
  calc n = renamed n t owners n := (renamed_of_le le_rfl).symm
    _ ≤ renamed n t owners id := Nat.count_monotone _ h

/-- The board `c` of the restricted run mirrors the board `b` of the whole run, whose owners
will be `owners` in the end. -/
structure Mirrors (n : ℕ) (t : TaskId) (owners : List TaskId) (b c : Board) : Prop where
  owned : Owned b
  owned' : Owned c
  grown : b.owners <+: owners
  started : n ≤ b.ops.nextId
  next : c.ops.nextId = renamed n t owners b.ops.nextId
  known : ∀ id, ∀ u ∈ c.owners[id]?, u = t ∨ (id < n ∧ b.owners[id]? = some u)
  entity : c.entities t = b.entities t
  ops : List.Forall₂
    (fun op op' => Twin (renamed n t owners) op op' ∧ c.ops.isCurrent op' = b.ops.isCurrent op)
    (b.view t) (c.view t)

variable {α : Type}

variable {l : List α}

theorem getElem?_of_grown {l' : List α} (h : l <+: l') {i : ℕ} (hi : i < l.length) :
  l'[i]? = l[i]?
  := by
  obtain ⟨rest, rfl⟩ := h
  apply List.getElem?_append_left hi

variable {op : PendingMutation}

variable {event : OpEvent}

/-- Two operations an event of the task can tell apart are told apart after renaming. -/
theorem Mirrors.named_iff (m : Mirrors n t owners b c) (addressed : b.Addressed (.event t event))
    (hop : op ∈ b.view t) (hid : event.id? = some id) :
  renamed n t owners op.id = renamed n t owners id ↔ op.id = id
  := by
  obtain ⟨hpending, htask⟩ := List.mem_filter.mp hop
  have hlt := m.owned.wf.known op hpending
  have hknown : Known n t owners op.id := by
    right
    rw [getElem?_of_grown m.grown (m.owned.length ▸ hlt), m.owned.owner op hpending,
      of_decide_eq_true htask]
  constructor
  · intro h
    by_cases hnext : id < b.ops.nextId
    · apply Nat.count_injective hknown _ h
      right
      have hlength : id < b.owners.length := m.owned.length ▸ hnext
      rw [getElem?_of_grown m.grown hlength, List.getElem?_eq_getElem hlength]
      congr 1
      apply addressed.2 id hid
      exact List.getElem?_eq_getElem hlength
    · have hcount : renamed n t owners op.id < renamed n t owners id :=
        Nat.count_strict_mono hknown (lt_of_lt_of_le hlt (not_lt.mp hnext))
      exact absurd h hcount.ne
  · intro h
    rw [h]

/-- An action applied to its own entity is, renamed, applied to its own entity. -/
theorem Mirrors.addressed (m : Mirrors n t owners b c) (addressed : b.Addressed (.event t event)) :
  c.Addressed (.event t (event.rename (renamed n t owners)))
  := by
  constructor
  · intro t' ht'
    apply addressed.1 t'
    cases event <;> apply ht'
  · intro id' hid' u hu
    obtain ⟨id, hid, rfl⟩ : ∃ id, event.id? = some id ∧ id' = renamed n t owners id := by
      cases event with
      | sent id => exact ⟨id, rfl, (Option.some.inj hid').symm⟩
      | acked id now => exact ⟨id, rfl, (Option.some.inj hid').symm⟩
      | failed id failure detail now => exact ⟨id, rfl, (Option.some.inj hid').symm⟩
      | requested task desired now => cases hid'
      | cancelled task fields now => cases hid'
    rcases m.known _ u hu with rfl | ⟨hlt, hold⟩
    · rfl
    · have hid_lt : id < n := by
        by_contra hge
        have hle : n ≤ renamed n t owners id := le_renamed (not_lt.mp hge)
        exact absurd hlt (not_lt.mpr hle)
      rw [renamed_of_le hid_lt.le] at hold
      apply addressed.2 id hid u hold

variable {β : Type}

variable {R : α → β → Prop}

theorem rel_ite {p q : Prop} [Decidable p] [Decidable q] (h : p ↔ q) {x y : Option α}
    {x' y' : Option β} (hx : Option.Rel R x x') (hy : Option.Rel R y y') :
  Option.Rel R (if p then x else y) (if q then x' else y')
  := by
  by_cases hp : p
  · rw [if_pos hp, if_pos (h.mp hp)]
    apply hx
  · rw [if_neg hp, if_neg fun hq => hp (h.mpr hq)]
    apply hy

theorem ite_map {f : α → β} {p q : Prop} [Decidable p] [Decidable q] (h : q ↔ p) {x y : List α}
    {x' y' : List β} (hx : x' = x.map f) (hy : y' = y.map f) :
  (if q then x' else y') = (if p then x else y).map f
  := by
  by_cases hp : p
  · rw [if_pos hp, if_pos (h.mpr hp), hx]
  · rw [if_neg hp, if_neg fun hq => hp (h.mp hq), hy]

variable {op' : PendingMutation} {a : Act} {ρ : OperationId → OperationId}

/-- What becomes of twins in a step of their task is twins, or both leave. -/
theorem fate_twin
    (twin : Twin ρ op op')
    (current : c.ops.isCurrent op' = b.ops.isCurrent op)
    (named : ∀ task event, a = .event task event → ∀ id, event.id? = some id →
      (ρ op.id = ρ id ↔ op.id = id)) :
  Option.Rel (Twin ρ) (b.fate a op) (c.fate (a.rename ρ) op')
  := by
  obtain ⟨id', task', desired', previous', claimed', issuedAt', phase', attempts'⟩ := op'
  obtain ⟨hid, htask, hdesired, hprevious, hissued, hphase, hattempts⟩ := twin
  dsimp only at hid htask hdesired hprevious hissued hphase hattempts
  subst hid htask hdesired hprevious hissued hphase hattempts
  have same : ∀ {phase : OpPhase} {attempts : ℕ} {previous : DesiredFields},
      Option.Rel (Twin ρ)
        (some { op with phase := phase, attempts := attempts, previous := previous })
        (some ⟨ρ op.id, op.task, op.desired, previous, claimed', op.issuedAt, phase, attempts⟩) :=
    Option.Rel.some ⟨rfl, rfl, rfl, rfl, rfl, rfl, rfl⟩
  have marked : ∀ {phase : OpPhase} {id : OperationId}, (ρ op.id = ρ id ↔ op.id = id) →
      Option.Rel (Twin ρ) (some (if op.id = id then { op with phase := phase } else op))
        (some (if ρ op.id = ρ id then
            ⟨ρ op.id, op.task, op.desired, op.previous, claimed', op.issuedAt, phase, op.attempts⟩
          else ⟨ρ op.id, op.task, op.desired, op.previous, claimed', op.issuedAt, op.phase,
            op.attempts⟩)) := by
    intro phase id hname
    rw [apply_ite some, apply_ite some]
    exact rel_ite hname.symm same same
  cases a with
  | event task event =>
    cases event with
    | requested task' desired now => exact rel_ite Iff.rfl .none same
    | sent id => exact marked (named task _ rfl id rfl)
    | acked id now => exact marked (named task _ rfl id rfl)
    | failed id failure detail now =>
      apply rel_ite (not_congr (named task _ rfl id rfl)).symm same
      apply rel_ite Iff.rfl same
      apply rel_ite (by rw [current]) .none
      apply rel_ite Iff.rfl same .none
    | cancelled task' fields now => exact rel_ite Iff.rfl .none same
  | observed task now =>
    apply rel_ite Iff.rfl _ same
    exact rel_ite Iff.rfl .none same
  | recovered now =>
    apply Option.Rel.some
    cases hphase : op.phase <;>
      simp only [recoverOp, hphase] <;> exact ⟨rfl, rfl, rfl, rfl, rfl, by simp [hphase], rfl⟩

/-- The work an event of a task asks for because of twins is the same, up to renaming. -/
theorem traces_twin (twin : Twin ρ op op') (current : c.ops.isCurrent op' = b.ops.isCurrent op)
    (named : ∀ id, event.id? = some id → (ρ op.id = ρ id ↔ op.id = id)) :
  c.ops.traces (event.rename ρ) op' = (b.ops.traces event op).map (OpEffect.rename ρ)
  := by
  obtain ⟨id', task', desired', previous', claimed', issuedAt', phase', attempts'⟩ := op'
  obtain ⟨hid, htask, hdesired, hprevious, hissued, hphase, hattempts⟩ := twin
  dsimp only at hid htask hdesired hprevious hissued hphase hattempts
  subst hid htask hdesired hprevious hissued hphase hattempts
  cases event with
  | requested task desired now => exact ite_map Iff.rfl rfl rfl
  | sent id => rfl
  | acked id now => rfl
  | failed id failure detail now =>
    apply ite_map (named id rfl)
    · apply ite_map Iff.rfl
      · rfl
      · apply ite_map (by rw [current])
        · rfl
        · exact ite_map Iff.rfl rfl rfl
    · rfl
  | cancelled task fields now =>
    apply ite_map Iff.rfl
    · exact ite_map Iff.rfl rfl rfl
    · rfl

variable {l' : List β}

theorem forall₂_with_mem (h : List.Forall₂ R l l') :
  List.Forall₂ (fun a b => a ∈ l ∧ b ∈ l' ∧ R a b) l l'
  := by
  induction h with
  | nil => apply List.Forall₂.nil
  | cons hR _ ih =>
    apply List.Forall₂.cons
    · exact ⟨List.mem_cons_self, List.mem_cons_self, hR⟩
    · apply ih.imp
      rintro a b ⟨ha, hb, h⟩
      exact ⟨List.mem_cons_of_mem _ ha, List.mem_cons_of_mem _ hb, h⟩

variable {u : TaskId}

/-- An action of another task keeps the operations of the task, and adds none. -/
theorem Owned.view_other
    (owned : Owned b) (hu : a.task? = some u) (hne : u ≠ t) (addressed : b.Addressed a) :
  (∀ op ∈ b.view t, b.fate a op = some op) ∧ (machine.next b a).view t = b.view t
  := by
  have hfate : ∀ op ∈ b.view t, b.fate a op = some op := by
    intro op hop
    obtain ⟨hpending, htask⟩ := List.mem_filter.mp hop
    apply fate_other owned hu addressed hpending
    rw [of_decide_eq_true htask]
    exact hne.symm
  have hnone : (b.admitted a).filter (fun op => op.task = t) = [] := by
    rw [List.filter_eq_nil_iff]
    intro op hop
    rw [task_of_admitted hu addressed hop]
    simpa using hne
  constructor
  · exact hfate
  · rw [view_step owned.wf, hnone, List.append_nil, List.filterMap_congr hfate,
      List.filterMap_some]

/-- An identity that another task is given is not counted. -/
theorem Mirrors.next_other (m : Mirrors n t owners b c) (hu : a.task? = some u) (hne : u ≠ t)
    (addressed : b.Addressed a) (grown : (machine.next b a).owners <+: owners) :
  c.ops.nextId = renamed n t owners (machine.next b a).ops.nextId
  := by
  rw [m.next, step_ops m.owned.wf]
  rcases b.admitted_cases a with hnone | ⟨op, hop, hid⟩
  · simp [hnone]
  · rw [hop, List.length_singleton]
    dsimp only
    symm
    rw [renamed, Nat.count_succ, if_neg, Nat.add_zero]
    rintro (hlt | howner)
    · exact absurd hlt (not_lt.mpr m.started)
    · rw [owners_step, hop] at grown
      rw [getElem?_of_grown grown (by simp [m.owned.length]), ← m.owned.length] at howner
      simp only [List.map_cons, List.map_nil, List.getElem?_concat_length] at howner
      apply hne
      rw [← Option.some.inj howner]
      symm
      apply task_of_admitted hu addressed
      rw [hop]
      apply List.mem_singleton_self

theorem entities_other (hu : a.task? = some u) (hne : u ≠ t) :
  (machine.next b a).entities t = b.entities t
  := by
  cases a with
  | event task event =>
    cases hu
    rw [entities_event_of_ne b hne.symm]
  | observed task now =>
    cases hu
    rw [entities_observed_of_ne b hne.symm]
  | recovered now => cases hu

/-- An action of another task which disturbs no current operation of the task leaves the
mirror as it is. -/
theorem Mirrors.other
    (m : Mirrors n t owners b c) (hu : a.task? = some u) (hne : u ≠ t) (addressed : b.Addressed a)
    (undisturbed : b.Undisturbed t a) (grown : (machine.next b a).owners <+: owners) :
  Mirrors n t owners (machine.next b a) c
  := by
  have wf := m.owned.wf
  obtain ⟨hfate, hview⟩ := m.owned.view_other hu hne addressed
  constructor
  case owned => exact m.owned.step a
  case owned' => exact m.owned'
  case grown => exact grown
  case started =>
    rw [step_ops wf]
    apply Nat.le_add_right_of_le m.started
  case next => exact m.next_other hu hne addressed grown
  case known =>
    intro id w hw
    apply (m.known id w hw).imp_right
    rintro ⟨hlt, hold⟩
    refine ⟨hlt, ?_⟩
    rw [owners_step, List.getElem?_append_left, hold]
    rw [m.owned.length]
    apply lt_of_lt_of_le hlt m.started
  case entity => rw [m.entity, entities_other hu hne]
  case ops =>
    rw [hview]
    apply (forall₂_with_mem m.ops).imp
    rintro op op' ⟨hop, -, htwin, hcurrent⟩
    refine ⟨htwin, ?_⟩
    obtain ⟨hpending, htask⟩ := List.mem_filter.mp hop
    rw [hcurrent, Bool.eq_iff_iff, isCurrent_step_iff wf hpending (hfate op hop)]
    constructor
    · intro h
      refine ⟨h, ?_⟩
      cases a with
      | event task event =>
        cases hu
        apply undisturbed hne op hpending (of_decide_eq_true htask) h
      | observed task now => apply Finset.disjoint_empty_right
      | recovered now => apply Finset.disjoint_empty_right
    · exact fun h => h.1

variable {γ : Type}

/-- Folding over related lists gives the same when each step does. -/
theorem foldl_forall₂ (h : List.Forall₂ R l l') {f : γ → α → γ} {g : γ → β → γ}
    (same : ∀ z x y, R x y → g z y = f z x) (z : γ) :
  l'.foldl g z = l.foldl f z
  := by
  induction h generalizing z with
  | nil => rfl
  | cons hR _ ih => rw [List.foldl_cons, List.foldl_cons, same z _ _ hR, ih]

theorem map_forall₂
    (h : List.Forall₂ R l l') {f : α → γ} {g : β → γ} (same : ∀ x y, R x y → g y = f x) :
  l'.map g = l.map f
  := by
  induction h with
  | nil => rfl
  | cons hR _ ih => rw [List.map_cons, List.map_cons, same _ _ hR, ih]

theorem flatMap_forall₂ {δ : Type} (h : List.Forall₂ R l l') {f : γ → δ} {g : α → List γ}
    {g' : β → List δ} (same : ∀ x y, R x y → g' y = (g x).map f) :
  l'.flatMap g' = (l.flatMap g).map f
  := by
  induction h with
  | nil => rfl
  | cons hR _ ih => rw [List.flatMap_cons, List.flatMap_cons, List.map_append, same _ _ hR, ih]

/-- What is collected from the operations of one task, when the others give nothing. -/
theorem flatMap_view
    {g : PendingMutation → List γ} (quiet : ∀ op ∈ b.ops.pending, op.task ≠ t → g op = []) :
  b.ops.pending.flatMap g = (b.view t).flatMap g
  := by
  rw [view]
  generalize b.ops.pending = l at quiet
  induction l with
  | nil => rfl
  | cons op rest ih =>
    rw [List.forall_mem_cons] at quiet
    rw [List.flatMap_cons, ih quiet.2]
    by_cases htask : op.task = t
    · rw [List.filter_cons_of_pos (by simpa using htask), List.flatMap_cons]
    · rw [List.filter_cons_of_neg (by simpa using htask), quiet.1 htask, List.nil_append]

theorem filter_view {p : PendingMutation → Bool}
    (quiet : ∀ op ∈ b.ops.pending, op.task ≠ t → p op = false) :
  b.ops.pending.filter p = (b.view t).filter p
  := by
  rw [view, List.filter_filter]
  apply List.filter_congr
  intro op hop
  by_cases htask : op.task = t
  · simp [htask]
  · simp [htask, quiet op hop htask]

theorem baseline_view (task : TaskId) (desired : DesiredFields) (entity : Task) :
  b.ops.baseline task desired entity
    = ((b.view task).foldl
        (fun (previous : DesiredFields) op =>
          previous.fillFrom (op.previous.restrictedTo desired.claimed)) {}).fillFrom
        (desired.observedCounterpart entity)
  := rfl

/-- Requests of the task are given the same baseline in both runs. -/
theorem Mirrors.baseline (m : Mirrors n t owners b c) (desired : DesiredFields) :
  c.ops.baseline t desired (c.entities t) = b.ops.baseline t desired (b.entities t)
  := by
  rw [baseline_view, baseline_view, m.entity, foldl_forall₂ m.ops]
  rintro z op op' ⟨twin, -⟩
  rw [twin.previous]

theorem touched_rename (ρ : OperationId → OperationId) (a : Act) :
  touched (a.rename ρ) = touched a
  := by
  cases a with
  | event task event => cases event <;> rfl
  | observed task now => rfl
  | recovered now => rfl

theorem task?_rename (ρ : OperationId → OperationId) (a : Act) :
  (a.rename ρ).task? = a.task?
  := by
  cases a <;> rfl

/-- What the task's next request admits in one run is the twin of what it admits in the
other. -/
theorem Mirrors.admitted
    (m : Mirrors n t owners b c) (ht : a.task? = some t) (addressed : b.Addressed a) :
  List.Forall₂ (Twin (renamed n t owners)) (b.admitted a)
    (c.admitted (a.rename (renamed n t owners)))
  := by
  cases a with
  | event task event =>
    cases ht
    cases event with
    | requested task' desired now =>
      obtain rfl := addressed.1 task' rfl
      simp only [Act.rename, OpEvent.rename, Board.admitted, ProviderOps.admitted,
        m.baseline]
      split
      · apply List.Forall₂.nil
      · apply List.Forall₂.cons _ .nil
        exact ⟨m.next, rfl, rfl, rfl, rfl, rfl, rfl⟩
    | sent id => apply List.Forall₂.nil
    | acked id now => apply List.Forall₂.nil
    | failed id failure detail now => apply List.Forall₂.nil
    | cancelled task' fields now => apply List.Forall₂.nil
  | observed task now => apply List.Forall₂.nil
  | recovered now => cases ht

theorem filter_admitted (ht : a.task? = some t) (addressed : b.Addressed a) :
  (b.admitted a).filter (fun op => op.task = t) = b.admitted a
  := by
  rw [List.filter_eq_self]
  intro op hop
  simpa using task_of_admitted ht addressed hop

/-- The operations of the task are twins after its next action, and as current. -/
theorem Mirrors.view_own (m : Mirrors n t owners b c) (ht : a.task? = some t)
    (addressed : b.Addressed a) (addressed' : c.Addressed (a.rename (renamed n t owners))) :
  List.Forall₂
    (fun op op' => Twin (renamed n t owners) op op'
      ∧ (machine.next c (a.rename (renamed n t owners))).ops.isCurrent op'
        = (machine.next b a).ops.isCurrent op)
    ((machine.next b a).view t) ((machine.next c (a.rename (renamed n t owners))).view t)
  := by
  rw [view_step m.owned.wf, view_step m.owned'.wf, filter_admitted ht addressed,
    filter_admitted (by rw [task?_rename, ht]) addressed']
  apply List.rel_append
  · apply List.rel_filterMap _ (forall₂_with_mem m.ops)
    rintro op op' ⟨hop, hop', htwin, hcurrent⟩
    have hrel : Option.Rel (Twin (renamed n t owners)) (b.fate a op)
        (c.fate (a.rename (renamed n t owners)) op') := by
      apply fate_twin htwin hcurrent
      rintro task event rfl id hid
      cases ht
      apply m.named_iff addressed hop hid
    generalize hfate : b.fate a op = x at hrel
    generalize hfate' : c.fate (a.rename (renamed n t owners)) op' = y at hrel
    cases hrel with
    | none => apply Option.Rel.none
    | some htwin' =>
      apply Option.Rel.some
      refine ⟨htwin', ?_⟩
      rw [Bool.eq_iff_iff, isCurrent_step_iff m.owned'.wf (List.mem_filter.mp hop').1 hfate',
        isCurrent_step_iff m.owned.wf (List.mem_filter.mp hop).1 hfate, hcurrent,
        htwin.desired, touched_rename]
  · apply (forall₂_with_mem (m.admitted ht addressed)).imp
    rintro op op' ⟨hop, hop', htwin⟩
    refine ⟨htwin, ?_⟩
    rw [(isCurrent_admitted m.owned.wf hop).1, (isCurrent_admitted m.owned'.wf hop').1]

theorem restore_twin (twin : Twin ρ op op') (entity : Task) :
  restore op' entity = restore op entity
  := by
  simp only [restore, twin.task, twin.previous]

theorem putsBack_twin (twin : Twin ρ op op') (current : c.ops.isCurrent op' = b.ops.isCurrent op)
    (named : ∀ id, event.id? = some id → (ρ op.id = ρ id ↔ op.id = id)) :
  c.ops.putsBack (event.rename ρ) op' = b.ops.putsBack event op
  := by
  have hrel : Option.Rel (Twin ρ) (b.ops.fate event op) (c.ops.fate (event.rename ρ) op') := by
    apply fate_twin (a := .event op.task event) twin current
    rintro _ _ ⟨rfl, rfl⟩
    apply named
  have hnone : (c.ops.fate (event.rename ρ) op').isNone = (b.ops.fate event op).isNone := by
    generalize b.ops.fate event op = x at hrel
    generalize c.ops.fate (event.rename ρ) op' = y at hrel
    cases hrel <;> rfl
  cases event with
  | requested task desired now => rfl
  | sent id => rfl
  | acked id now => rfl
  | failed id failure detail now => exact hnone
  | cancelled task fields now => exact hnone

/-- Laying the ledger over the same entity shows the same, when the operations of the task are
twins and as current. -/
theorem overlay_twin
    (h : List.Forall₂ (fun op op' => Twin ρ op op' ∧ c.ops.isCurrent op' = b.ops.isCurrent op)
      (b.view t) (c.view t))
    {entity : Task} (hid : entity.id = t) :
  c.ops.overlay entity = b.ops.overlay entity
  := by
  rw [overlay_eq_foldl, overlay_eq_foldl, hid]
  have hpainting : List.Forall₂
      (fun op op' => Twin ρ op op' ∧ c.ops.isCurrent op' = b.ops.isCurrent op)
      (b.ops.painting t) (c.ops.painting t) := by
    apply List.rel_filter _ h
    rintro op op' ⟨-, hcurrent⟩
    dsimp only
    rw [hcurrent]
  apply foldl_forall₂ hpainting
  rintro z op op' ⟨twin, -⟩
  rw [twin.desired]

/-- The entity of the task shows the same after its next action. -/
theorem Mirrors.entity_own (m : Mirrors n t owners b c) (ht : a.task? = some t)
    (addressed : b.Addressed a) (addressed' : c.Addressed (a.rename (renamed n t owners))) :
  (machine.next c (a.rename (renamed n t owners))).entities t = (machine.next b a).entities t
  := by
  have hview := m.view_own ht addressed addressed'
  cases a with
  | event task event =>
    cases ht
    rw [Act.rename] at hview addressed' ⊢
    rw [entities_event m.owned.wf, entities_event m.owned'.wf, m.entity,
      filter_view fun op hop htask => (quiet_other m.owned addressed hop htask).2.2,
      filter_view fun op hop htask => (quiet_other m.owned' addressed' hop htask).2.2]
    have hback : List.Forall₂ (Twin (renamed n t owners))
        ((b.view t).filter (b.ops.putsBack event))
        ((c.view t).filter
          (c.ops.putsBack (event.rename (renamed n t owners)))) := by
      apply List.Forall₂.imp _ (List.rel_filter _ (forall₂_with_mem m.ops))
      · rintro op op' ⟨-, -, htwin, -⟩
        exact htwin
      · rintro op op' ⟨hop, -, htwin, hcurrent⟩
        dsimp only
        rw [putsBack_twin htwin hcurrent]
        intro id hid
        apply m.named_iff addressed hop hid
    rw [foldl_forall₂ hback (fun entity op op' twin => restore_twin twin entity)]
    apply overlay_twin hview
    rw [foldl_restore_id, b.entities_id]
  | observed task now =>
    cases ht
    rw [Act.rename, entities_observed, entities_observed]
    apply overlay_twin hview rfl
  | recovered now => cases ht

/-- The task's next action asks for the same work, up to renaming. -/
theorem Mirrors.effects_own (m : Mirrors n t owners b c) (ht : a.task? = some t)
    (addressed : b.Addressed a) (addressed' : c.Addressed (a.rename (renamed n t owners))) :
  (c.step (a.rename (renamed n t owners))).2
    = (b.step a).2.map (OpEffect.rename (renamed n t owners))
  := by
  have hadmitted := m.admitted ht addressed
  cases a with
  | event task event =>
    cases ht
    rw [Act.rename] at hadmitted addressed' ⊢
    rw [step_effects m.owned.wf, step_effects m.owned'.wf, List.map_append,
      flatMap_view fun op hop htask => (quiet_other m.owned addressed hop htask).2.1,
      flatMap_view fun op hop htask => (quiet_other m.owned' addressed' hop htask).2.1]
    congr 1
    · apply flatMap_forall₂ (forall₂_with_mem m.ops)
      rintro op op' ⟨hop, -, htwin, hcurrent⟩
      apply traces_twin htwin hcurrent
      intro id hid
      apply m.named_iff addressed hop hid
    · rw [List.map_map]
      apply map_forall₂ hadmitted
      intro op op' twin
      exact congrArg OpEffect.send twin.id
  | observed task now => rfl
  | recovered now => cases ht

/-- The task's next action keeps the mirror. -/
theorem Mirrors.own (m : Mirrors n t owners b c) (ht : a.task? = some t) (addressed : b.Addressed a)
    (addressed' : c.Addressed (a.rename (renamed n t owners)))
    (grown : (machine.next b a).owners <+: owners) :
  Mirrors n t owners (machine.next b a) (machine.next c (a.rename (renamed n t owners)))
  where
  owned := m.owned.step a
  owned' := m.owned'.step _
  grown := grown
  started := by
    rw [step_ops m.owned.wf]
    apply Nat.le_add_right_of_le m.started
  next := by
    rw [step_ops m.owned.wf, step_ops m.owned'.wf, m.next]
    have hlength := (m.admitted ht addressed).length_eq
    rcases b.admitted_cases a with hnone | ⟨op, hop, -⟩
    · simp only [hnone, List.length_nil] at hlength ⊢
      rw [← hlength, Nat.add_zero, Nat.add_zero]
    · simp only [hop, List.length_singleton] at hlength ⊢
      rw [← hlength]
      symm
      rw [renamed, Nat.count_succ, if_pos]
      -- the new operation is one of the task, so the restricted run knows it
      right
      rw [owners_step, hop] at grown
      rw [getElem?_of_grown grown (by simp [m.owned.length]), ← m.owned.length]
      simp only [List.map_cons, List.map_nil, List.getElem?_concat_length]
      congr 1
      apply task_of_admitted ht addressed
      rw [hop]
      apply List.mem_singleton_self
  known := by
    intro id u hu
    rw [owners_step, List.getElem?_append] at hu
    split_ifs at hu with hlt
    · apply (m.known id u hu).imp_right
      rintro ⟨hid, hold⟩
      refine ⟨hid, ?_⟩
      rw [owners_step, List.getElem?_append_left, hold]
      rw [m.owned.length]
      apply lt_of_lt_of_le hid m.started
    · left
      obtain ⟨op, hop, rfl⟩ := List.mem_map.mp (List.mem_of_getElem? hu)
      apply task_of_admitted _ addressed' hop
      rw [task?_rename, ht]
  entity := m.entity_own ht addressed addressed'
  ops := m.view_own ht addressed addressed'

/-- The actions of one task, about renamed operations. -/
def ownActs (t : TaskId) (ρ : OperationId → OperationId) (acts : List Act) : List Act :=
  (acts.filter fun a => a.task? = some t).map (Act.rename ρ)

theorem Mirrors.final (m : Mirrors n t owners b c) {acts : List Act}
    (running : ∀ a ∈ acts, a.task?.isSome) (addressed : machine.Along Addressed b acts)
    (undisturbed : machine.Along (Undisturbed t) b acts)
    (grown : (machine.final b acts).owners <+: owners) :
  Mirrors n t owners (machine.final b acts)
      (machine.final c (ownActs t (renamed n t owners) acts))
    ∧ machine.trace c (ownActs t (renamed n t owners) acts)
      = ((machine.trace b acts).filter fun o => o.act.task? = some t).map
          (Obs.rename (renamed n t owners))
  := by
  induction acts generalizing b c with
  | nil => exact ⟨m, rfl⟩
  | cons a acts ih =>
    rw [List.forall_mem_cons] at running
    obtain ⟨ha, hacts⟩ := addressed
    have hgrown := (owners_grown (machine.next b a) acts).trans grown
    obtain ⟨u, hu⟩ := Option.isSome_iff_exists.mp running.1
    change _ ∧ _ = ((Obs.mk a (b.step a).2 :: machine.trace (machine.next b a) acts).filter
      fun o => o.act.task? = some t).map _
    by_cases hut : u = t
    · subst hut
      have ha' : c.Addressed (a.rename (renamed n u owners)) := by
        cases a with
        | event task event =>
          cases hu
          apply m.addressed ha
        | observed task now => trivial
        | recovered now => trivial
      have hown : ownActs u (renamed n u owners) (a :: acts)
          = a.rename (renamed n u owners) :: ownActs u (renamed n u owners) acts := by
        simp [ownActs, hu]
      obtain ⟨hm, htrace⟩ := ih (m.own hu ha ha' hgrown) running.2 hacts undisturbed.2 grown
      rw [hown, List.filter_cons_of_pos (by simp [hu]), List.map_cons, ← htrace]
      refine ⟨hm, ?_⟩
      change Obs.mk _ (c.step (a.rename (renamed n u owners))).2 :: _ = _
      rw [m.effects_own hu ha ha']
      rfl
    · have hown : ownActs t (renamed n t owners) (a :: acts)
          = ownActs t (renamed n t owners) acts := by
        simp [ownActs, hu, hut]
      rw [hown, List.filter_cons_of_neg (by simp [hu, hut])]
      apply ih (m.other hu hut ha undisturbed.1 hgrown) running.2 hacts undisturbed.2 grown

theorem forall₂_self {R : α → α → Prop} (h : ∀ a ∈ l, R a a) :
  List.Forall₂ R l l
  := by
  induction l with
  | nil => apply List.Forall₂.nil
  | cons a rest ih =>
    rw [List.forall_mem_cons] at h
    apply List.Forall₂.cons h.1 (ih h.2)

/-- A board mirrors itself before anything happened. -/
theorem Mirrors.start (owned : Owned b) (grown : b.owners <+: owners) :
  Mirrors b.ops.nextId t owners b b
  where
  owned := owned
  owned' := owned
  grown := grown
  started := le_rfl
  next := (renamed_of_le le_rfl).symm
  known := by
    intro id u hu
    right
    refine ⟨?_, hu⟩
    rw [← owned.length]
    apply (List.getElem?_eq_some_iff.mp hu).1
  entity := rfl
  ops := by
    apply forall₂_self
    intro op hop
    have hlt := owned.wf.known op (List.mem_filter.mp hop).1
    exact ⟨⟨(renamed_of_le hlt.le).symm, rfl, rfl, rfl, rfl, rfl, rfl⟩, rfl⟩

end Mirrors

/-- The identity an operation of a run has in the run of the actions of one task. -/
def idAlone (start : Board) (t : TaskId) (acts : List Act) : OperationId → OperationId :=
  renamed start.ops.nextId t (machine.final start acts).owners

/-- The actions of a task alone lead to the same entity and the same operations of the task as
the whole run does, and ask for the same work, up to the renaming of operations. -/
structure Isolated (t : TaskId) (start : Board) (acts : List Act) : Prop where
  agree : Agree t (idAlone start t acts) (machine.final start acts)
    (machine.final start (ownActs t (idAlone start t acts) acts))
  work : machine.trace start (ownActs t (idAlone start t acts) acts)
    = ((machine.trace start acts).filter fun o => o.act.task? = some t).map
        (Obs.rename (idAlone start t acts))

/-- In every run of events and observations over several tasks, from any ledger a history leads
to, none of whose steps disturbs a current operation of the task, the task is isolated. -/
theorem entities_do_not_disturb
    (entities : { e : TaskId → Task // ∀ t, (e t).id = t }) (history acts : List Act)
    (t : TaskId) (running : ∀ a ∈ acts, a.task?.isSome)
    (addressed : machine.Along Addressed (machine.final (new entities) history) acts)
    (undisturbed : machine.Along (Undisturbed t) (machine.final (new entities) history) acts) :
  Isolated t (machine.final (new entities) history) acts
  := by
  have owned : Owned (machine.final (new entities) history) := (owned_new entities).final history
  have m := Mirrors.start (t := t) owned (owners_grown _ acts)
  obtain ⟨hm, htrace⟩ := m.final running addressed undisturbed List.prefix_rfl
  constructor
  · refine ⟨hm.entity, ?_⟩
    apply hm.ops.imp
    exact fun op op' h => h.1
  · apply htrace

/-- Two tasks writing different fields: the issue's request is sent and rejected. -/
theorem entities_do_not_disturb_other_fields :
  Isolated ⟨"linear", "ENG-1"⟩ (machine.final (new blankTasks) [])
    [.event ⟨"github", "o/r#1"⟩ (.requested ⟨"github", "o/r#1"⟩ { labels := some ["bug"] } 0),
      .event ⟨"linear", "ENG-1"⟩ (.requested ⟨"linear", "ENG-1"⟩ { assignees := some ["ana"] } 1),
      .event ⟨"github", "o/r#1"⟩ (.requested ⟨"github", "o/r#1"⟩ { labels := some ["ux"] } 2),
      .event ⟨"linear", "ENG-1"⟩ (.failed 1 .rejected "no such user" 3)]
  := by
  apply entities_do_not_disturb
  · decide
  · decide
  · decide

/-- A request for the pull request's assignees makes the issue's rejected assignment vanish
without a report, which alone it would get. -/
theorem other_request_silences_rejection :
  ∃ acts : List Act, (∀ a ∈ acts, a.task?.isSome)
    ∧ machine.Along Addressed (machine.final (new blankTasks) []) acts
    ∧ ¬ Isolated ⟨"linear", "ENG-1"⟩ (machine.final (new blankTasks) []) acts
  := by
  use [.event ⟨"linear", "ENG-1"⟩
        (.requested ⟨"linear", "ENG-1"⟩ { assignees := some ["ana"] } 0),
      .event ⟨"github", "o/r#1"⟩ (.requested ⟨"github", "o/r#1"⟩ { assignees := some ["bo"] } 1),
      .event ⟨"linear", "ENG-1"⟩ (.failed 0 .rejected "no such user" 2)]
  refine ⟨by decide, by decide, ?_⟩
  intro isolated
  have work := isolated.work
  revert work
  decide

end Board

end Lazybox
