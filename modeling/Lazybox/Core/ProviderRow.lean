import Lazybox.Core.ProviderBoard

/-!
# What the row shows

A row should show, of each mutable field, what the operation owning the field asks for, and
what the provider last reported when no operation owns it.  An operation owns a field while the
generation it recorded is the current one; two pending operations never own the same field.

The ledger asks whether an operation owns all its fields, and lays over the row only those that
do.  So the row is right as long as no operation loses some of its fields only, and no operation
that reached the provider is cancelled: this is `Clean`.
-/

namespace Lazybox

namespace ProviderOps

/-- The operation is the current owner of a field. -/
def Owns (ops : ProviderOps) (op : PendingMutation) (f : MutationField) : Prop :=
  op.claimed f = some (ops.generations f)

instance (ops : ProviderOps) (op : PendingMutation) (f : MutationField) :
    Decidable (ops.Owns op f) :=
  inferInstanceAs (Decidable (op.claimed f = some (ops.generations f)))

section Owners

variable {ops : ProviderOps} (wf : ops.Wf) {op op' : PendingMutation} (hop : op ∈ ops.pending)
  {f : MutationField}
include wf hop

theorem Owns.mem_claimed (h : ops.Owns op f) : f ∈ op.desired.claimed := by
  rw [← wf.claims op hop, h]
  rfl

/-- A current operation owns the fields it claims. -/
theorem owns_of_isCurrent (current : ops.isCurrent op = true) (hf : f ∈ op.desired.claimed) :
  ops.Owns op f
  := by
  obtain ⟨g, hg⟩ := Option.isSome_iff_exists.mp ((wf.claims op hop f).mpr hf)
  rw [Owns, hg, isCurrent_iff.mp current f g hg]

theorem Owns.unique (hop' : op' ∈ ops.pending) (h : ops.Owns op f) (h' : ops.Owns op' f) :
  op = op'
  := wf.owner op hop op' hop' f _ h h'

/-- An operation which owns a field claimed by nobody newer keeps it while its generation
stays. -/
theorem Owns.of_not_owns {generations : MutationField → ℕ}
    (grow : ∀ f, ops.generations f ≤ generations f) (h : op.claimed f = some (generations f)) :
  ops.Owns op f ∧ generations f = ops.generations f
  := by
  have hle := wf.recorded op hop f _ h
  have heq : generations f = ops.generations f := le_antisymm hle (grow f)
  exact ⟨by rw [Owns, h, heq], heq⟩

end Owners

/-! ### What is laid over a row -/

section Overlay

variable {ops : ProviderOps} {entity : Task} {f : MutationField}

/-- A current operation about the entity shows what it asks for. -/
theorem overlay_shows
    (wf : ops.Wf) {op : PendingMutation} (hop : op ∈ ops.pending) (htask : op.task = entity.id)
    (current : ops.isCurrent op = true) {v : FieldValue f} (hv : op.desired.get f = some v) :
  FieldValue.Same f ((ops.overlay entity).value f) v
  := by
  rw [overlay_eq_foldl]
  apply foldl_paint_value_of_some
  · intro op' hop' w hw
    obtain ⟨hmem', -, current'⟩ := mem_painting.mp hop'
    have hclaims {o : PendingMutation} {u : FieldValue f} (h : o.desired.get f = some u) :
        f ∈ o.desired.claimed := by
      rw [DesiredFields.mem_claimed, h]
      rfl
    have howns := owns_of_isCurrent wf hop current (hclaims hv)
    have howns' := owns_of_isCurrent wf hmem' current' (hclaims hw)
    rw [Owns.unique wf hop hmem' howns howns', hw] at hv
    cases hv
    rfl
  · use op, mem_painting.mpr ⟨hop, htask, current⟩

/-- A field no current operation about the entity claims is left as it is. -/
theorem overlay_leaves
    (h : ∀ op ∈ ops.pending, op.task = entity.id → ops.isCurrent op = true → f ∉ op.desired.claimed)
    :
  (ops.overlay entity).value f = entity.value f
  := by
  rw [overlay_eq_foldl]
  apply foldl_paint_value_of_none
  intro op hop
  obtain ⟨hmem, htask, current⟩ := mem_painting.mp hop
  apply DesiredFields.get_eq_none (h op hmem htask current)

end Overlay

/-! ### Putting operations back -/

section Restore

variable {l : List PendingMutation} {entity : Task} {f : MutationField}

/-- Putting back operations that do not carry a field leaves it as it is. -/
theorem foldl_restore_of_none (h : ∀ op ∈ l, op.previous.get f = none) :
  (l.foldl (fun e op => restore op e) entity).value f = entity.value f
  := by
  induction l generalizing entity with
  | nil => rfl
  | cons op rest ih =>
    rw [List.forall_mem_cons] at h
    rw [List.foldl_cons, ih h.2]
    by_cases htask : op.task = entity.id
    · rw [restore_value htask, h.1]
      rfl
    · rw [restore_of_ne htask]

/-- Putting back operations which agree about a field, one of which carries it, gives what they
agree on. -/
theorem foldl_restore_of_some {v : FieldValue f} (agree : ∀ op ∈ l, ∀ w ∈ op.previous.get f, w = v)
    (htask : ∀ op ∈ l, op.task = entity.id) (found : ∃ op ∈ l, op.previous.get f = some v) :
  (l.foldl (fun e op => restore op e) entity).value f = v
  := by
  induction l using List.reverseRecOn with
  | nil => simp at found
  | append_singleton rest op ih =>
    rw [List.foldl_append, List.foldl_cons, List.foldl_nil, restore_value]
    · cases hop : op.previous.get f with
      | some w =>
        rw [agree op (by simp) w hop]
        rfl
      | none =>
        apply ih
        · intro op' hop'
          apply agree op'
          simp [hop']
        · intro op' hop'
          apply htask op'
          simp [hop']
        · obtain ⟨op', hop', hv⟩ := found
          rw [List.mem_append, List.mem_singleton] at hop'
          rcases hop' with hrest | rfl
          · use op', hrest
          · rw [hop] at hv
            cases hv
    · rw [foldl_restore_id]
      apply htask
      simp

end Restore

end ProviderOps

namespace Board

open ProviderOps

/-- The action concerns one entity, and no other. -/
def Concerns (t : TaskId) : Act → Prop
  | .event task event => task = t ∧ ∀ t' ∈ event.task?, t' = t
  | .observed task _ => task.id = t
  | .recovered _ => True

/-- A request takes over all the fields of a current operation or none of them, and no current
operation that reached the provider is cancelled. -/
def Clean (b : Board) : Act → Prop
  | .event _ (.requested _ desired _) =>
      ∀ op ∈ b.ops.pending, b.ops.isCurrent op = true →
        ¬ Disjoint op.desired.claimed desired.claimed → op.desired.claimed ⊆ desired.claimed
  | .event _ (.cancelled _ fields _) =>
      ∀ op ∈ b.ops.pending, b.ops.isCurrent op = true → op.phase.reachedProvider = true →
        Disjoint op.desired.claimed fields
  | .event _ (.sent _) | .event _ (.acked _ _) | .event _ (.failed _ _ _ _)
  | .observed _ _ | .recovered _ => True

instance (t : TaskId) : ∀ a : Act, Decidable (Concerns t a)
  | .event task event => inferInstanceAs (Decidable (task = t ∧ ∀ t' ∈ event.task?, t' = t))
  | .observed task _ => inferInstanceAs (Decidable (task.id = t))
  | .recovered _ => isTrue trivial

instance (b : Board) : ∀ a : Act, Decidable (b.Clean a)
  | .event _ (.requested _ desired _) => inferInstanceAs (Decidable
      (∀ op ∈ b.ops.pending, b.ops.isCurrent op = true →
        ¬ Disjoint op.desired.claimed desired.claimed → op.desired.claimed ⊆ desired.claimed))
  | .event _ (.cancelled _ fields _) => inferInstanceAs (Decidable
      (∀ op ∈ b.ops.pending, b.ops.isCurrent op = true → op.phase.reachedProvider = true →
        Disjoint op.desired.claimed fields))
  | .event _ (.sent _) | .event _ (.acked _ _) | .event _ (.failed _ _ _ _)
  | .observed _ _ | .recovered _ => isTrue trivial

/-- The row of a task shows intent over the last observation: of a field what its owner asks
for, and what the provider last reported when it has no owner. -/
structure RowShows (t : TaskId) (b : Board) : Prop where
  owned : ∀ f, ∀ op ∈ b.ops.pending, op.task = t → b.ops.Owns op f →
    ∀ v ∈ op.desired.get f, FieldValue.Same f ((b.entities t).value f) v
  unowned : ∀ f, (∀ op ∈ b.ops.pending, op.task = t → ¬ b.ops.Owns op f) →
    (b.entities t).value f = (b.reported t).value f

/-- The operation owns all its fields, or it reached the provider and owns none of them. -/
def Whole (ops : ProviderOps) (op : PendingMutation) : Prop :=
  ops.isCurrent op = true ∨ (op.phase.reachedProvider = true ∧ ∀ f, ¬ ops.Owns op f)

/-- The baseline of an operation is what the provider last reported of the fields it claims. -/
def Baseline (reported : Task) (op : PendingMutation) : Prop :=
  ∀ f, op.previous.get f = if f ∈ op.desired.claimed then some (reported.value f) else none

/-- What holds of a board all of whose steps are clean and concern one task. -/
structure Tidy (t : TaskId) (b : Board) : Prop where
  wf : b.ops.Wf
  single : ∀ op ∈ b.ops.pending, op.task = t
  whole : ∀ op ∈ b.ops.pending, Whole b.ops op
  baseline : ∀ op ∈ b.ops.pending, Baseline (b.reported t) op
  row : RowShows t b

variable {op : PendingMutation} {a : Act} {b : Board}

variable {op' : PendingMutation}

/-- A step keeps an operation which is not current among those that reached the provider. -/
theorem reached_fate (hfate : b.fate a op = some op') (hcurrent : b.ops.isCurrent op ≠ true)
    (hreached : op.phase.reachedProvider = true) :
  op'.phase.reachedProvider = true
  := by
  have hmoves := moves_fate hfate
  generalize op'.phase = phase at hmoves
  cases hmoves with
  | kept => apply hreached
  | sent t => rfl
  | acked t now => rfl
  | uncertain t detail now => rfl
  | retried t detail now notBefore current => exact absurd current hcurrent
  | recovered now => rfl

variable {t : TaskId}

/-- In a clean step, an operation none of whose fields is left to it is taken over whole, and
reached the provider. -/
theorem taken_over (concerns : Concerns t a) (clean : b.Clean a) (hop : op ∈ b.ops.pending)
    (htask : op.task = t) (hfate : b.fate a op = some op') (hcurrent : b.ops.isCurrent op = true)
    (hmeets : ¬ Disjoint op.desired.claimed (touched a)) :
  op.desired.claimed ⊆ touched a ∧ op'.phase.reachedProvider = true
  := by
  cases a with
  | event task event =>
    cases event with
    | requested task' desired now =>
      obtain rfl := concerns.2 task' rfl
      simp only [Board.fate, ProviderOps.fate] at hfate
      split_ifs at hfate with hsuperseded
      cases hfate
      constructor
      · apply clean op hop hcurrent hmeets
      · by_contra hreached
        apply hsuperseded
        apply supersedes_iff.mpr ⟨htask, by simpa using hreached, hmeets⟩
    | cancelled task' fields now =>
      obtain rfl := concerns.2 task' rfl
      simp only [Board.fate, ProviderOps.fate] at hfate
      split_ifs at hfate with hwithdrawn
      cases hfate
      exfalso
      apply hmeets
      apply clean op hop hcurrent
      by_contra hreached
      apply hwithdrawn
      rw [Bool.and_eq_true_iff]
      exact ⟨affected_iff.mpr ⟨htask, hmeets⟩, by simpa using hreached⟩
    | sent id => exact absurd (Finset.disjoint_empty_right _) hmeets
    | acked id now => exact absurd (Finset.disjoint_empty_right _) hmeets
    | failed id failure detail now => exact absurd (Finset.disjoint_empty_right _) hmeets
  | observed task now => exact absurd (Finset.disjoint_empty_right _) hmeets
  | recovered now => exact absurd (Finset.disjoint_empty_right _) hmeets

/-- Operations stay whole in a clean step. -/
theorem Tidy.whole_fate (tidy : Tidy t b) (concerns : Concerns t a) (clean : b.Clean a)
    (hop : op ∈ b.ops.pending) (hfate : b.fate a op = some op') :
  Whole (machine.next b a).ops op'
  := by
  by_cases hcurrent : b.ops.isCurrent op = true
  · by_cases hdisjoint : Disjoint op.desired.claimed (touched a)
    · left
      apply (isCurrent_step_iff tidy.wf hop hfate).mpr ⟨hcurrent, hdisjoint⟩
    · right
      obtain ⟨hsub, hreached⟩ :=
        taken_over concerns clean hop (tidy.single op hop) hfate hcurrent hdisjoint
      refine ⟨hreached, ?_⟩
      intro f howns
      rw [Owns, (sameClaim_fate hfate).claimed, step_ops tidy.wf] at howns
      obtain ⟨hold, hsame⟩ := Owns.of_not_owns tidy.wf hop (le_bump b.ops _) howns
      rw [bump_of_mem (hsub (hold.mem_claimed tidy.wf hop))] at hsame
      omega
  · right
    obtain ⟨hreached, hnone⟩ := (tidy.whole op hop).resolve_left hcurrent
    constructor
    · apply reached_fate hfate hcurrent hreached
    · intro f howns
      rw [Owns, (sameClaim_fate hfate).claimed, step_ops tidy.wf] at howns
      apply hnone f (Owns.of_not_owns tidy.wf hop (le_bump b.ops _) howns).1

variable {event : OpEvent}

/-- In a clean step an operation which owns a field is put back, or the field has an owner after
the step. -/
theorem Tidy.owner_kept (tidy : Tidy t b) (concerns : Concerns t (.event t event))
    (clean : b.Clean (.event t event)) (hop : op ∈ b.ops.pending) {f : MutationField}
    (howns : b.ops.Owns op f) (hkept : b.ops.putsBack event op = false) :
  ∃ op' ∈ (machine.next b (.event t event)).ops.pending,
    (machine.next b (.event t event)).ops.Owns op' f
  := by
  have hf := howns.mem_claimed tidy.wf hop
  have hcurrent : b.ops.isCurrent op = true := by
    rcases tidy.whole op hop with hcurrent | ⟨-, hnone⟩
    · apply hcurrent
    · exact absurd howns (hnone f)
  by_cases htouched : f ∈ ProviderOps.touched event
  · cases event with
    | requested task desired now =>
      have hnew : (⟨b.ops.nextId, task, desired, b.ops.baseline task desired (b.entities t),
          b.ops.bumped desired.claimed, now, .accepted, 0⟩ : PendingMutation)
            ∈ b.admitted (.event t (.requested task desired now)) :=
        mem_admitted.mpr ⟨task, desired, now, rfl, Finset.ne_empty_of_mem htouched, rfl⟩
      have hmem := (mem_pending_step tidy.wf).mpr (.inr hnew)
      refine ⟨_, hmem, ?_⟩
      apply owns_of_isCurrent (step_wf tidy.wf _) hmem (isCurrent_admitted tidy.wf hnew).1
      apply htouched
    | cancelled task fields now =>
      obtain rfl := concerns.2 task rfl
      exfalso
      have hmeets : ¬ Disjoint op.desired.claimed fields :=
        Finset.not_disjoint_iff.mpr ⟨f, hf, htouched⟩
      cases hreached : op.phase.reachedProvider with
      | true => apply hmeets (clean op hop hcurrent hreached)
      | false =>
        simp [putsBack, ProviderOps.fate, hreached,
          affected_iff.mpr ⟨tidy.single op hop, hmeets⟩] at hkept
    | sent id => exact absurd htouched (Finset.notMem_empty f)
    | acked id now => exact absurd htouched (Finset.notMem_empty f)
    | failed id failure detail now => exact absurd htouched (Finset.notMem_empty f)
  · cases hfate : b.ops.fate event op with
    | some op' =>
      use op', (mem_pending_step tidy.wf).mpr (.inl ⟨op, hop, hfate⟩)
      rw [Owns, (ProviderOps.sameClaim_fate hfate).1.claimed, step_ops tidy.wf, howns]
      congr 1
      symm
      apply bump_of_notMem htouched
    | none =>
      exfalso
      cases event with
      | requested task desired now =>
        simp only [ProviderOps.fate] at hfate
        split_ifs at hfate with hsuperseded
        apply htouched
        apply clean op hop hcurrent (supersedes_iff.mp hsuperseded).2.2 hf
      | sent id => cases hfate
      | acked id now => cases hfate
      | failed id failure detail now => simp [putsBack, hfate] at hkept
      | cancelled task fields now => simp [putsBack, hfate] at hkept

/-- What is put back of a field, or left of it, is what the provider reported, when the field
has no owner after the step. -/
theorem Tidy.put_back
    (tidy : Tidy t b)
    (concerns : Concerns t (.event t event)) (clean : b.Clean (.event t event))
    {f : MutationField}
    (hfree : ∀ op' ∈ (machine.next b (.event t event)).ops.pending,
      ¬ (machine.next b (.event t event)).ops.Owns op' f) :
  ((b.ops.pending.filter (b.ops.putsBack event)).foldl (fun e op => restore op e)
    (b.entities t)).value f = (b.reported t).value f
  := by
  have hprevious : ∀ op ∈ b.ops.pending.filter (b.ops.putsBack event),
      op.previous.get f
        = if f ∈ op.desired.claimed then some ((b.reported t).value f) else none := by
    intro op hop
    apply tidy.baseline op (List.mem_filter.mp hop).1
  by_cases hback : ∃ op ∈ b.ops.pending.filter (b.ops.putsBack event), f ∈ op.desired.claimed
  · apply foldl_restore_of_some
    · intro op hop w hw
      rw [hprevious op hop] at hw
      split_ifs at hw <;> cases hw
      rfl
    · intro op hop
      rw [b.entities_id]
      apply tidy.single op (List.mem_filter.mp hop).1
    · obtain ⟨op, hop, hf⟩ := hback
      use op, hop
      rw [hprevious op hop, if_pos hf]
  · rw [foldl_restore_of_none]
    · apply tidy.row.unowned
      intro op hop _ howns
      cases hkept : b.ops.putsBack event op with
      | false =>
        obtain ⟨op', hop', howns'⟩ := tidy.owner_kept concerns clean hop howns hkept
        apply hfree op' hop' howns'
      | true =>
        apply hback
        use op, List.mem_filter.mpr ⟨hop, hkept⟩
        apply howns.mem_claimed tidy.wf hop
    · intro op hop
      rw [hprevious op hop, if_neg]
      intro hf
      apply hback
      use op, hop

/-- What a row shows, given that its operations are whole and that its ledger is laid over
values which are what the provider reported wherever a field has no owner. -/
theorem rowShows_of_overlay
    (wf : b.ops.Wf) (single : ∀ op ∈ b.ops.pending, op.task = t)
    (whole : ∀ op ∈ b.ops.pending, Whole b.ops op) {under : Task} (hid : under.id = t)
    (hrow : b.entities t = b.ops.overlay under)
    (hunder : ∀ f, (∀ op ∈ b.ops.pending, ¬ b.ops.Owns op f) →
      under.value f = (b.reported t).value f) :
  RowShows t b where
  owned := by
    intro f op hop htask howns v hv
    rw [hrow]
    apply overlay_shows wf hop (htask.trans hid.symm) _ hv
    rcases whole op hop with hcurrent | ⟨-, hnone⟩
    · apply hcurrent
    · exact absurd howns (hnone f)
  unowned := by
    intro f hfree
    rw [hrow, overlay_leaves]
    · apply hunder
      intro op hop
      apply hfree op hop (single op hop)
    · intro op hop _ hcurrent hf
      apply hfree op hop (single op hop)
      apply owns_of_isCurrent wf hop hcurrent hf

/-- What an action admits is about the task it concerns. -/
theorem admitted_task (concerns : Concerns t a) (hop : op ∈ b.admitted a) :
  op.task = t
  := by
  cases a with
  | event task event =>
    obtain ⟨task', desired, now, rfl, -, rfl⟩ := mem_admitted.mp hop
    apply concerns.2 task' rfl
  | observed task now => simp [Board.admitted] at hop
  | recovered now => simp [Board.admitted] at hop

theorem Tidy.single_step (tidy : Tidy t b) (concerns : Concerns t a) :
  ∀ op ∈ (machine.next b a).ops.pending, op.task = t
  := by
  intro op' hop'
  rcases (mem_pending_step tidy.wf).mp hop' with ⟨op, hop, hfate⟩ | hnew
  · rw [(sameClaim_fate hfate).task]
    apply tidy.single op hop
  · apply admitted_task concerns hnew

theorem Tidy.whole_step (tidy : Tidy t b) (concerns : Concerns t a) (clean : b.Clean a) :
  ∀ op ∈ (machine.next b a).ops.pending, Whole (machine.next b a).ops op
  := by
  intro op' hop'
  rcases (mem_pending_step tidy.wf).mp hop' with ⟨op, hop, hfate⟩ | hnew
  · apply tidy.whole_fate concerns clean hop hfate
  · left
    apply (isCurrent_admitted tidy.wf hnew).1

/-- The baseline of a request is what the provider reported, whatever the row shows. -/
theorem Tidy.baseline_admitted (tidy : Tidy t b) (concerns : Concerns t (.event t event))
    (hop : op ∈ b.admitted (.event t event)) :
  Baseline (b.reported t) op
  := by
  obtain ⟨task, desired, now, rfl, -, rfl⟩ := mem_admitted.mp hop
  obtain rfl := concerns.2 task rfl
  intro f
  dsimp only
  split_ifs with hf
  · apply get_baseline hf
    · intro op hop _ w hw
      rw [tidy.baseline op hop f] at hw
      split_ifs at hw <;> cases hw
      rfl
    · intro hnone
      apply tidy.row.unowned
      intro op hop htask howns
      have hget := tidy.baseline op hop f
      rw [if_pos (howns.mem_claimed tidy.wf hop), hnone op hop htask] at hget
      cases hget
  · apply get_baseline_of_notMem _ _ _ hf

theorem recoverOp_previous (now : Instant) (op : PendingMutation) :
  (recoverOp now op).previous = op.previous
  := by
  unfold recoverOp
  split <;> rfl

/-- After a clean event the row shows what is asked for, and what there is to fall back to is what
was reported. -/
theorem Tidy.event_step
    (tidy : Tidy t b) (concerns : Concerns t (.event t event)) (clean : b.Clean (.event t event)) :
  Tidy t (machine.next b (.event t event))
  := by
  have wf := step_wf tidy.wf (.event t event)
  have single := tidy.single_step concerns
  have whole := tidy.whole_step concerns clean
  refine ⟨wf, single, whole, ?_, ?_⟩
  · intro op' hop'
    rcases (mem_pending_step tidy.wf).mp hop' with ⟨op, hop, hfate⟩ | hnew
    · obtain ⟨hsame, hprevious⟩ := ProviderOps.sameClaim_fate hfate
      intro f
      rw [hprevious, hsame.desired]
      apply tidy.baseline op hop
    · apply tidy.baseline_admitted concerns hnew
  · apply rowShows_of_overlay wf single whole _ (entities_event tidy.wf t event)
    · intro f hfree
      apply tidy.put_back concerns clean hfree
    · rw [foldl_restore_id, b.entities_id]

/-- An observation is what there is to fall back to from now on. -/
theorem Tidy.observed_step {task : Task} (tidy : Tidy task.id b) {now : Instant}
    (concerns : Concerns task.id (.observed task now)) (clean : b.Clean (.observed task now)) :
  Tidy task.id (machine.next b (.observed task now))
  := by
  have wf := step_wf tidy.wf (.observed task now)
  have single := tidy.single_step concerns
  have whole := tidy.whole_step concerns clean
  have hreported : (machine.next b (.observed task now)).reported task.id = task :=
    Function.update_self _ _ _
  refine ⟨wf, single, whole, ?_, ?_⟩
  · intro op' hop' f
    rw [hreported]
    rcases (mem_pending_step tidy.wf).mp hop' with ⟨op, hop, hfate⟩ | hnew
    · simp only [Board.fate, tidy.single op hop, if_true] at hfate
      split_ifs at hfate
      cases hfate
      dsimp only
      rw [DesiredFields.get_observedCounterpart]
      split_ifs with hf
      · obtain ⟨v, hv⟩ := DesiredFields.exists_get hf
        rw [hv]
        rfl
      · rw [DesiredFields.get_eq_none hf]
        rfl
    · simp [Board.admitted] at hnew
  · apply rowShows_of_overlay wf single whole rfl (entities_observed b task now)
    intro f _
    rw [hreported]

/-- A restart changes no claim and no row. -/
theorem Tidy.recovered_step (tidy : Tidy t b) {now : Instant}
    (concerns : Concerns t (.recovered now)) (clean : b.Clean (.recovered now)) :
  Tidy t (machine.next b (.recovered now))
  := by
  have wf := step_wf tidy.wf (.recovered now)
  have single := tidy.single_step concerns
  have whole := tidy.whole_step concerns clean
  have hops := step_ops tidy.wf (.recovered now)
  have hmem {op : PendingMutation} (hop : op ∈ b.ops.pending) :
      recoverOp now op ∈ (machine.next b (.recovered now)).ops.pending :=
    (mem_pending_step tidy.wf).mpr (.inl ⟨op, hop, rfl⟩)
  have howns (op : PendingMutation) (f : MutationField) :
      (machine.next b (.recovered now)).ops.Owns (recoverOp now op) f ↔ b.ops.Owns op f := by
    rw [Owns, Owns, (sameClaim_recoverOp now op).claimed, hops]
    rfl
  have hpending : ∀ op' ∈ (machine.next b (.recovered now)).ops.pending,
      ∃ op ∈ b.ops.pending, op' = recoverOp now op := by
    intro op' hop'
    rcases (mem_pending_step tidy.wf).mp hop' with ⟨op, hop, hfate⟩ | hnew
    · use op, hop
      cases hfate
      rfl
    · simp [Board.admitted] at hnew
  refine ⟨wf, single, whole, ?_, ?_, ?_⟩
  · intro op' hop'
    obtain ⟨op, hop, rfl⟩ := hpending op' hop'
    intro f
    rw [recoverOp_previous, (sameClaim_recoverOp now op).desired]
    apply tidy.baseline op hop
  · intro f op' hop' _ howns'
    obtain ⟨op, hop, rfl⟩ := hpending op' hop'
    rw [(sameClaim_recoverOp now op).desired]
    apply tidy.row.owned f op hop (tidy.single op hop) ((howns op f).mp howns')
  · intro f hfree
    apply tidy.row.unowned
    intro op hop _ howns'
    apply hfree _ (hmem hop) (single _ (hmem hop)) ((howns op f).mpr howns')

/-- A clean step which concerns the task keeps its board tidy. -/
theorem Tidy.step (tidy : Tidy t b) (concerns : Concerns t a) (clean : b.Clean a) :
  Tidy t (machine.next b a)
  := by
  cases a with
  | event task event =>
    obtain rfl := concerns.1
    exact tidy.event_step concerns clean
  | observed task now =>
    obtain rfl := concerns
    exact tidy.observed_step rfl clean
  | recovered now => exact tidy.recovered_step concerns clean

theorem tidy_new (entities : { e : TaskId → Task // ∀ t, (e t).id = t }) (t : TaskId) :
  Tidy t (new entities) where
  wf := wf_new entities
  single := by simp [new, ProviderOps.default]
  whole := by simp [new, ProviderOps.default]
  baseline := by simp [new, ProviderOps.default]
  row := ⟨by simp [new, ProviderOps.default], fun _ _ => rfl⟩

theorem Tidy.final (tidy : Tidy t b) {acts : List Act} (concerns : ∀ a ∈ acts, Concerns t a)
    (clean : machine.Along Clean b acts) :
  Tidy t (machine.final b acts)
  := by
  induction acts generalizing b with
  | nil => apply tidy
  | cons a acts ih =>
    rw [List.forall_mem_cons] at concerns
    apply ih (tidy.step concerns.1 clean.1) concerns.2 clean.2

/-- In every run on one entity whose steps are clean, the row shows intent over the last
observation. -/
theorem row_shows_intent
    (entities : { e : TaskId → Task // ∀ t, (e t).id = t }) (t : TaskId) (acts : List Act)
    (concerns : ∀ a ∈ acts, Concerns t a) (clean : machine.Along Clean (new entities) acts) :
  RowShows t (machine.final (new entities) acts)
  := ((tidy_new entities t).final concerns clean).row

/-- An acknowledged assignment, a poll that has not seen it, and a request over it. -/
theorem row_shows_intent_reassigned :
  RowShows ⟨"linear", "ENG-1"⟩ (machine.final (new blankTasks)
    [.event ⟨"linear", "ENG-1"⟩ (.requested ⟨"linear", "ENG-1"⟩ { assignees := some ["ana"] } 0),
      .event ⟨"linear", "ENG-1"⟩ (.sent 0), .event ⟨"linear", "ENG-1"⟩ (.acked 0 10),
      .observed { blankTask ⟨"linear", "ENG-1"⟩ with updatedAt := 5 } 11,
      .event ⟨"linear", "ENG-1"⟩ (.requested ⟨"linear", "ENG-1"⟩ { assignees := some ["bo"] } 12)])
  := by
  apply row_shows_intent
  · decide
  · decide

/-- An assignment that was sent and then cancelled stays on the row, though nothing owns the
field any more and the provider never reported it. -/
theorem cancelled_assignment_stays :
  ¬ RowShows ⟨"linear", "ENG-1"⟩ (machine.final (new blankTasks)
    [.event ⟨"linear", "ENG-1"⟩ (.requested ⟨"linear", "ENG-1"⟩ { assignees := some ["ana"] } 0),
      .event ⟨"linear", "ENG-1"⟩ (.sent 0),
      .event ⟨"linear", "ENG-1"⟩ (.cancelled ⟨"linear", "ENG-1"⟩ {.assignees} 1)])
  := by
  intro row
  have hrow : ["ana"] = ([] : List String) := row.unowned .assignees (by decide)
  cases hrow

end Board

end Lazybox
