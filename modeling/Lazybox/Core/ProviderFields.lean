import Lazybox.Core.ProviderOps

/-!
# Fields one at a time

A write and a task are records with a component for each mutable field.  Here they are read
one field at a time, and the operations on them are described field by field: what a write is
filled with, what restoring an operation puts back, and what laying writes over a task shows.

The value of the labels is the list of their names, as for the baseline of a write.  A name is
laid over a task as the label the task already has of that name, up to the case of ASCII
letters, so what is shown is the `Same` as what was asked for, not always equal to it.
-/

namespace Lazybox

/-- The values a mutable field takes. -/
def FieldValue : MutationField → Type
  | .assignees | .labels | .reviewers => List String
  | .state => StateWrite

/-- Values that are the same to a reader: label names are compared up to ASCII case. -/
def FieldValue.Same : (f : MutationField) → FieldValue f → FieldValue f → Prop
  | .assignees => fun v w => v = w
  | .labels => fun v w => List.Forall₂ (fun a b => eqIgnoreAsciiCase a b = true) v w
  | .reviewers => fun v w => v = w
  | .state => fun v w => v = w

/-- The value a write asks of a field. -/
def DesiredFields.get (d : DesiredFields) : (f : MutationField) → Option (FieldValue f)
  | .assignees => d.assignees
  | .labels => d.labels
  | .reviewers => d.reviewers
  | .state => d.state

/-- The value a task shows of a field. -/
def Task.value (t : Task) : (f : MutationField) → FieldValue f
  | .assignees => t.assignees
  | .labels => t.labels.map Label.name
  | .reviewers => t.reviewers
  | .state => (⟨t.state, t.stateLabel⟩ : StateWrite)

namespace DesiredFields

theorem mem_ite_singleton (c : Bool) (f g : MutationField) :
  (f ∈ if c = true then ({g} : Finset MutationField) else ∅) ↔ c = true ∧ f = g
  := by
  cases c <;> simp

theorem mem_claimed (d : DesiredFields) (f : MutationField) :
  f ∈ d.claimed ↔ (d.get f).isSome
  := by
  rw [claimed]
  simp only [Finset.mem_union, mem_ite_singleton]
  cases f <;> simp <;> rfl

theorem exists_get {d : DesiredFields} {f : MutationField} (h : f ∈ d.claimed) :
  ∃ v, d.get f = some v
  := by
  apply Option.isSome_iff_exists.mp
  apply (d.mem_claimed f).mp h

theorem get_eq_none {d : DesiredFields} {f : MutationField} (h : f ∉ d.claimed) :
  d.get f = none
  := by
  rw [mem_claimed] at h
  simpa using h

@[simp]
theorem get_empty (f : MutationField) :
  ({} : DesiredFields).get f = none
  := by
  cases f <;> rfl

theorem get_observedCounterpart (d : DesiredFields) (t : Task) (f : MutationField) :
  (d.observedCounterpart t).get f = (d.get f).map fun _ => t.value f
  := by
  cases f <;> rfl

theorem get_fillFrom (d other : DesiredFields) (f : MutationField) :
  (d.fillFrom other).get f = (d.get f).or (other.get f)
  := by
  cases d with
  | mk assignees labels reviewers state =>
    cases f with
    | assignees => cases assignees <;> rfl
    | labels => cases labels <;> rfl
    | reviewers => cases reviewers <;> rfl
    | state => cases state <;> rfl

theorem get_restrictedTo (d : DesiredFields) (fields : Finset MutationField) (f : MutationField) :
  (d.restrictedTo fields).get f = if f ∈ fields then d.get f else none
  := by
  cases f <;> rfl

end DesiredFields

/-! ### The baseline of a write -/

namespace ProviderOps

variable {f : MutationField}

/-- What the baseline of a write inherits of a field is what the first of the pending
operations that carries it says. -/
theorem get_foldl_fillFrom (pending : List PendingMutation) (fields : Finset MutationField)
    (d : DesiredFields) (hf : f ∈ fields) :
  (pending.foldl (fun previous op => previous.fillFrom (op.previous.restrictedTo fields)) d).get f
    = (d.get f).or (pending.findSome? fun op => op.previous.get f)
  := by
  induction pending generalizing d with
  | nil => simp
  | cons op rest ih =>
    rw [List.foldl_cons, ih, DesiredFields.get_fillFrom, DesiredFields.get_restrictedTo,
      if_pos hf, Option.or_assoc, List.findSome?_cons]
    cases op.previous.get f with
    | none => rw [Option.none_or]
    | some v => rw [Option.some_or]

/-- A field no write asks for is in no baseline. -/
theorem get_foldl_fillFrom_of_notMem (pending : List PendingMutation)
    (fields : Finset MutationField) (d : DesiredFields) (hf : f ∉ fields) :
  (pending.foldl (fun previous op => previous.fillFrom (op.previous.restrictedTo fields)) d).get f
    = d.get f
  := by
  induction pending generalizing d with
  | nil => rfl
  | cons op rest ih =>
    rw [List.foldl_cons, ih, DesiredFields.get_fillFrom, DesiredFields.get_restrictedTo,
      if_neg hf, Option.or_none]

theorem get_baseline_of_notMem (ops : ProviderOps) (task : TaskId) {desired : DesiredFields}
    (entity : Task) (hf : f ∉ desired.claimed) :
  (ops.baseline task desired entity).get f = none
  := by
  rw [baseline, DesiredFields.get_fillFrom, get_foldl_fillFrom_of_notMem _ _ _ hf,
    DesiredFields.get_observedCounterpart, DesiredFields.get_eq_none hf]
  simp

variable {v : FieldValue f}

/-- When the pending operations of the task agree with `v` about a field, and the entity shows
`v` if none of them carries it, the baseline of a write to the field is `v`. -/
theorem get_baseline {ops : ProviderOps} {task : TaskId} {desired : DesiredFields} {entity : Task}
    (hf : f ∈ desired.claimed)
    (agree : ∀ op ∈ ops.pending, op.task = task → ∀ w ∈ op.previous.get f, w = v)
    (shown : (∀ op ∈ ops.pending, op.task = task → op.previous.get f = none) → entity.value f = v) :
  (ops.baseline task desired entity).get f = some v
  := by
  obtain ⟨w, hw⟩ := DesiredFields.exists_get hf
  rw [baseline, DesiredFields.get_fillFrom, get_foldl_fillFrom _ _ _ hf,
    DesiredFields.get_observedCounterpart, hw, DesiredFields.get_empty, Option.none_or]
  cases hfound : (ops.pending.filter fun op => op.task = task).findSome?
      fun op => op.previous.get f with
  | some w' =>
    obtain ⟨op, hop, hget⟩ := List.exists_of_findSome?_eq_some hfound
    obtain ⟨hmem, htask⟩ := List.mem_filter.mp hop
    rw [agree op hmem (of_decide_eq_true htask) w' hget]
    rfl
  | none =>
    rw [shown]
    · rfl
    · intro op hop htask
      apply List.findSome?_eq_none_iff.mp hfound
      apply List.mem_filter.mpr ⟨hop, decide_eq_true htask⟩

/-! ### Restoring an operation -/

@[simp]
theorem restore_id (op : PendingMutation) (entity : Task) :
  (restore op entity).id = entity.id
  := by
  unfold restore
  split <;> rfl

variable {op : PendingMutation}

theorem restore_of_ne {entity : Task} (h : op.task ≠ entity.id) :
  restore op entity = entity
  := by
  rw [restore, if_pos h]

theorem restore_value {entity : Task} (h : op.task = entity.id) (f : MutationField) :
  (restore op entity).value f = (op.previous.get f).getD (entity.value f)
  := by
  rw [restore, if_neg (not_not_intro h)]
  obtain ⟨id, task, desired, ⟨assignees, labels, reviewers, state⟩, _, _, _, _⟩ := op
  cases f with
  | assignees => rfl
  | labels =>
    cases labels with
    | none => rfl
    | some names =>
      change (names.map Label.new).map Label.name = names
      rw [List.map_map]
      apply List.map_id
  | reviewers => rfl
  | state => cases state <;> rfl

/-! ### Laying writes over a task -/

@[simp]
theorem paint_id (task : Task) (d : DesiredFields) : (paint task d).id = task.id := rfl

theorem eqIgnoreAsciiCase_refl (a : String) : eqIgnoreAsciiCase a a = true := by
  simp [eqIgnoreAsciiCase]

/-- The label a name is laid over a task as has that name, up to ASCII case. -/
theorem resolved_name (labels : List Label) (name : String) :
  eqIgnoreAsciiCase
    ((labels.find? fun existing => eqIgnoreAsciiCase existing.name name).getD
      (Label.new name)).name name = true
  := by
  cases hfound : labels.find? fun existing => eqIgnoreAsciiCase existing.name name with
  | none => apply eqIgnoreAsciiCase_refl
  | some label => apply List.find?_some hfound

theorem forall₂_resolved (labels : List Label) (names : List String) :
  List.Forall₂ (fun a b => eqIgnoreAsciiCase a b = true)
    ((names.map fun name =>
      (labels.find? fun existing => eqIgnoreAsciiCase existing.name name).getD
        (Label.new name)).map Label.name) names
  := by
  rw [List.map_map, List.forall₂_map_left_iff, List.forall₂_same]
  intro name _
  apply resolved_name

theorem paint_value_of_some {task : Task} {d : DesiredFields} (h : d.get f = some v) :
  FieldValue.Same f ((paint task d).value f) v
  := by
  obtain ⟨assignees, labels, reviewers, state⟩ := d
  cases f with
  | assignees =>
    cases h
    rfl
  | labels =>
    cases h
    apply forall₂_resolved
  | reviewers =>
    cases h
    rfl
  | state =>
    cases h
    rfl

theorem paint_value_of_none {task : Task} {d : DesiredFields} (h : d.get f = none) :
  (paint task d).value f = task.value f
  := by
  obtain ⟨assignees, labels, reviewers, state⟩ := d
  cases f <;> cases h <;> rfl

/-- The operations laid over a task. -/
def painting (ops : ProviderOps) (task : TaskId) : List PendingMutation :=
  (ops.pending.filter fun op => op.task = task).filter fun op => ops.isCurrent op

theorem mem_painting {ops : ProviderOps} {task : TaskId} :
  op ∈ ops.painting task ↔ op ∈ ops.pending ∧ op.task = task ∧ ops.isCurrent op = true
  := by
  rw [painting, List.mem_filter, List.mem_filter, and_assoc, decide_eq_true_iff]

theorem overlay_eq_foldl (ops : ProviderOps) (task : Task) :
  ops.overlay task
    = (ops.painting task.id).foldl (fun task op => paint task op.desired) task
  := rfl

theorem foldl_paint_id (painted : List PendingMutation) (task : Task) :
  (painted.foldl (fun task op => paint task op.desired) task).id = task.id
  := by
  induction painted generalizing task with
  | nil => rfl
  | cons op rest ih => rw [List.foldl_cons, ih, paint_id]

@[simp]
theorem overlay_id (ops : ProviderOps) (task : Task) :
  (ops.overlay task).id = task.id
  := by
  apply foldl_paint_id

variable {painted : List PendingMutation}

theorem foldl_paint_value_of_none (h : ∀ op ∈ painted, op.desired.get f = none) (task : Task) :
  (painted.foldl (fun task op => paint task op.desired) task).value f = task.value f
  := by
  induction painted generalizing task with
  | nil => rfl
  | cons op rest ih =>
    rw [List.forall_mem_cons] at h
    rw [List.foldl_cons, ih h.2, paint_value_of_none h.1]

/-- When the writes laid over a task agree about a field, and there is one, what they ask for
is shown. -/
theorem foldl_paint_value_of_some (agree : ∀ op ∈ painted, ∀ w ∈ op.desired.get f, w = v)
    (found : ∃ op ∈ painted, op.desired.get f = some v) (task : Task) :
  FieldValue.Same f ((painted.foldl (fun task op => paint task op.desired) task).value f) v
  := by
  induction painted using List.reverseRecOn with
  | nil => simp at found
  | append_singleton rest op ih =>
    rw [List.foldl_append, List.foldl_cons, List.foldl_nil]
    cases hop : op.desired.get f with
    | some w =>
      rw [← agree op (by simp) w hop]
      apply paint_value_of_some hop
    | none =>
      rw [paint_value_of_none hop]
      apply ih
      · intro op' hop'
        apply agree op'
        simp [hop']
      · obtain ⟨op', hop', hv⟩ := found
        rw [List.mem_append, List.mem_singleton] at hop'
        rcases hop' with hrest | rfl
        · use op', hrest
        · rw [hop] at hv
          cases hv

end ProviderOps

end Lazybox
