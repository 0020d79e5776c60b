import Lazybox.Github.RateBudget
import Mathlib.Algebra.Order.Ring.Rat
import Mathlib.Data.List.Induction

/-!
# What responses say of a window

Each response says how a primary window stands: when it resets, its limit, and what is used of it
and remains.  Responses of concurrent requests are observed in any order.  One of an older window
than the last observed is ignored, one of a newer window replaces what was known, and one of the
same window lowers what remains and raises the other figures.  So what is known in the end is the
latest window, as far as it was seen to be spent.

Beside the figures stands the rate at which others use the token, measured from one observation to
the next.  It is computed in floating point, and given here.
-/

namespace Lazybox.Github

/-- What is computed of the use of others, in floating point. -/
structure BurnRate (F : Type) where
  zero : F
  /-- The rate, with the points that others used in the seconds since it was measured last. -/
  sample : F → ℕ → ℤ → F

/-- All that is known of the window of a resource. -/
structure WindowState (F : Type) extends ResourceState where
  used : ℕ
  observedAt : Instant
  externalBurnPerSec : F
  externalBaselineUsed : ℕ
  externalBaselineRemaining : ℕ
  externalBaselineAt : Instant
  externalBaselineLocalCompleted : ℕ
  externalBaselinePending : Bool

/-- What is observed of a window, and when, on both clocks. -/
structure WindowObservation where
  limit : ℕ
  remaining : ℕ
  used : ℕ
  resetAt : Instant
  observedAt : Instant
  wallNow : Instant
deriving DecidableEq, Repr

/-- The part of the budget that observations read and change. -/
structure WindowBudget (F : Type) where
  resources : String → Option (WindowState F)
  localCompleted : String → ℕ
  /-- The admissions not answered, of each resource and class. -/
  pending : List ((String × String) × List Admission)
  primaryCircuits : String → Option CircuitState

namespace WindowState

variable {F : Type} (B : BurnRate F)

/-- Measure what others used since the baseline, and take a new one.  A baseline that was restored
is only replaced. -/
def rebase (w : WindowState F) (observedAt : Instant) (localCompleted : ℕ) : WindowState F :=
  let w :=
    if w.externalBaselinePending then { w with externalBaselinePending := false }
    else
      let elapsed := max (observedAt - w.externalBaselineAt) 0
      if 0 < elapsed then
        let totalDelta := max (w.used - w.externalBaselineUsed)
          (w.externalBaselineRemaining - w.remaining)
        let localDelta := localCompleted - w.externalBaselineLocalCompleted
        let externalDelta := totalDelta - min localDelta u32Max
        { w with externalBurnPerSec := B.sample w.externalBurnPerSec externalDelta elapsed }
      else w
  { w with
    externalBaselineUsed := w.used
    externalBaselineRemaining := w.remaining
    externalBaselineAt := observedAt
    externalBaselineLocalCompleted := localCompleted }

/-- The same window, observed once more. -/
def update (w : WindowState F) (o : WindowObservation) (hasPending : Bool)
    (localCompleted : ℕ) : WindowState F :=
  let w := { w with
    limit := max w.limit o.limit
    remaining := min w.remaining o.remaining
    used := max w.used o.used
    observedAt := max w.observedAt o.observedAt }
  if hasPending then w else w.rebase B o.observedAt localCompleted

/-- A window that is observed for the first time. -/
def first (o : WindowObservation) (localCompleted : ℕ) : WindowState F where
  remaining := o.remaining
  limit := o.limit
  used := o.used
  resetAt := o.resetAt
  observedAt := o.observedAt
  externalBurnPerSec := B.zero
  externalBaselineUsed := o.used
  externalBaselineRemaining := o.remaining
  externalBaselineAt := o.observedAt
  externalBaselineLocalCompleted := localCompleted
  externalBaselinePending := false

end WindowState

namespace WindowBudget

variable {F : Type} (B : BurnRate F)

def new : WindowBudget F := ⟨fun _ => none, fun _ => 0, [], fun _ => none⟩

def hasPending (b : WindowBudget F) (resource : String) : Bool :=
  b.pending.any fun entry => entry.1.1 = resource && !entry.2.isEmpty

def openPrimaryCircuit (b : WindowBudget F) (resource reason : String) (retryAt : Instant) :
    WindowBudget F :=
  if (b.primaryCircuits resource).all fun current => current.retryAt < retryAt then
    { b with
      primaryCircuits := Function.update b.primaryCircuits resource (some ⟨reason, retryAt⟩) }
  else b

/-- Take in what a response says of a window. -/
def observePrimary (b : WindowBudget F) (resource : String) (o : WindowObservation) :
    WindowBudget F :=
  let localCompleted := b.localCompleted resource
  match b.resources resource with
  | some previous =>
      if o.resetAt < previous.resetAt then b
      else if o.resetAt = previous.resetAt then
        observed (previous.update B o (b.hasPending resource) localCompleted)
      else observed (.first B o localCompleted)
  | none => observed (.first B o localCompleted)
where
  observed (state : WindowState F) : WindowBudget F :=
    let b := { b with resources := Function.update b.resources resource (some state) }
    if o.remaining = 0 ∧ o.wallNow < o.resetAt then
      b.openPrimaryCircuit resource (resource ++ " primary budget exhausted") (o.resetAt + 1)
    else b

def observeAll (b : WindowBudget F) (resource : String) (obs : List WindowObservation) :
    WindowBudget F :=
  obs.foldl (fun b o => b.observePrimary B resource o) b

end WindowBudget

/-! ### The figures of a window -/

/-- The figures a response gives of a window. -/
structure WindowFigures where
  resetAt : Instant
  limit : ℕ
  remaining : ℕ
  used : ℕ
deriving DecidableEq, Repr

namespace WindowFigures

/-- What is known of a window, after another reading. -/
def observe (w v : WindowFigures) : WindowFigures :=
  if v.resetAt < w.resetAt then w
  else if v.resetAt = w.resetAt then
    ⟨w.resetAt, max w.limit v.limit, min w.remaining v.remaining, max w.used v.used⟩
  else v

/-- A window that none of the readings is later than, as far as those of it show it spent. -/
structure Latest (readings : List WindowFigures) (w : WindowFigures) : Prop where
  bound : ∀ v ∈ readings, v.resetAt < w.resetAt
    ∨ v.resetAt = w.resetAt ∧ v.limit ≤ w.limit ∧ w.remaining ≤ v.remaining ∧ v.used ≤ w.used
  limit_read : ∃ v ∈ readings, v.resetAt = w.resetAt ∧ v.limit = w.limit
  remaining_read : ∃ v ∈ readings, v.resetAt = w.resetAt ∧ v.remaining = w.remaining
  used_read : ∃ v ∈ readings, v.resetAt = w.resetAt ∧ v.used = w.used

variable {readings readings' : List WindowFigures} {w w' : WindowFigures}

theorem Latest.of_mem_iff (h : Latest readings w) (same : ∀ v, v ∈ readings ↔ v ∈ readings') :
  Latest readings' w
  := by
  obtain ⟨bound, ⟨l, hl, hlimit⟩, ⟨r, hr, hremaining⟩, ⟨u, hu, hused⟩⟩ := h
  constructor
  · intro v hv
    apply bound v ((same v).mpr hv)
  · exact ⟨l, (same l).mp hl, hlimit⟩
  · exact ⟨r, (same r).mp hr, hremaining⟩
  · exact ⟨u, (same u).mp hu, hused⟩

/-- A reading of the latest window is within its figures. -/
theorem Latest.within (h : Latest readings w) {v : WindowFigures} (hv : v ∈ readings) :
  v.resetAt ≤ w.resetAt
    ∧ (v.resetAt = w.resetAt →
      v.limit ≤ w.limit ∧ w.remaining ≤ v.remaining ∧ v.used ≤ w.used)
  := by
  obtain hlt | ⟨heq, hwithin⟩ := h.bound v hv
  · exact ⟨hlt.le, fun heq => absurd heq hlt.ne⟩
  · exact ⟨heq.le, fun _ => hwithin⟩

/-- Of two latest windows, neither is above the other in any figure. -/
theorem Latest.le (h : Latest readings w) (h' : Latest readings w') :
  w'.resetAt ≤ w.resetAt
    ∧ (w'.resetAt = w.resetAt →
      w'.limit ≤ w.limit ∧ w.remaining ≤ w'.remaining ∧ w'.used ≤ w.used)
  := by
  obtain ⟨l, hl, hlreset, hlimit⟩ := h'.limit_read
  obtain ⟨r, hr, hrreset, hremaining⟩ := h'.remaining_read
  obtain ⟨u, hu, hureset, hused⟩ := h'.used_read
  constructor
  · rw [← hlreset]
    apply (h.within hl).1
  · intro hreset
    rw [← hlimit, ← hremaining, ← hused]
    exact ⟨((h.within hl).2 (hlreset.trans hreset)).1,
      ((h.within hr).2 (hrreset.trans hreset)).2.1,
      ((h.within hu).2 (hureset.trans hreset)).2.2⟩

theorem Latest.unique (h : Latest readings w) (h' : Latest readings w') :
  w = w'
  := by
  have hreset : w.resetAt = w'.resetAt := le_antisymm (h'.le h).1 (h.le h').1
  obtain ⟨hlimit, hremaining, hused⟩ := (h.le h').2 hreset.symm
  obtain ⟨hlimit', hremaining', hused'⟩ := (h'.le h).2 hreset
  cases w
  cases w'
  rw [mk.injEq]
  exact ⟨hreset, le_antisymm hlimit' hlimit, le_antisymm hremaining hremaining',
    le_antisymm hused' hused⟩

theorem latest_singleton (v : WindowFigures) :
  Latest [v] v
  := by
  constructor
  · intro u hu
    rw [List.mem_singleton.mp hu]
    right
    exact ⟨rfl, le_rfl, le_rfl, le_rfl⟩
  · exact ⟨v, List.mem_singleton_self v, rfl, rfl⟩
  · exact ⟨v, List.mem_singleton_self v, rfl, rfl⟩
  · exact ⟨v, List.mem_singleton_self v, rfl, rfl⟩

/-- A figure of a window that was read, once there is another reading. -/
theorem exists_read_concat {f : WindowFigures → ℕ} {v : WindowFigures} {t : Instant} {n : ℕ}
    (h : (∃ u ∈ readings, u.resetAt = t ∧ f u = n) ∨ v.resetAt = t ∧ f v = n) :
  ∃ u ∈ readings ++ [v], u.resetAt = t ∧ f u = n
  := by
  obtain ⟨u, hu, hread⟩ | hread := h
  · exact ⟨u, List.mem_append_left _ hu, hread⟩
  · exact ⟨v, List.mem_append_right _ (List.mem_singleton_self v), hread⟩

theorem Latest.concat (h : Latest readings w) (v : WindowFigures) :
  Latest (readings ++ [v]) (w.observe v)
  := by
  obtain ⟨bound, hlimit, hremaining, hused⟩ := h
  rw [observe]
  obtain hlt | heq | hgt := lt_trichotomy v.resetAt w.resetAt
  · rw [if_pos hlt]
    constructor
    · intro u hu
      obtain hu | hu := List.mem_append.mp hu
      · apply bound u hu
      · rw [List.mem_singleton.mp hu]
        left
        apply hlt
    · apply exists_read_concat (Or.inl hlimit)
    · apply exists_read_concat (Or.inl hremaining)
    · apply exists_read_concat (Or.inl hused)
  · rw [if_neg heq.not_lt, if_pos heq]
    constructor
    · intro u hu
      obtain hu | hu := List.mem_append.mp hu
      · obtain hbefore | ⟨hsame, hl, hr, hs⟩ := bound u hu
        · left
          apply hbefore
        · right
          exact ⟨hsame, le_max_of_le_left hl, min_le_of_left_le hr, le_max_of_le_left hs⟩
      · rw [List.mem_singleton.mp hu]
        right
        exact ⟨heq, le_max_right _ _, min_le_right _ _, le_max_right _ _⟩
    · apply exists_read_concat
      dsimp only
      obtain hmax | hmax := max_choice w.limit v.limit
      · rw [hmax]
        exact Or.inl hlimit
      · exact Or.inr ⟨heq, hmax.symm⟩
    · apply exists_read_concat
      dsimp only
      obtain hmin | hmin := min_choice w.remaining v.remaining
      · rw [hmin]
        exact Or.inl hremaining
      · exact Or.inr ⟨heq, hmin.symm⟩
    · apply exists_read_concat
      dsimp only
      obtain hmax | hmax := max_choice w.used v.used
      · rw [hmax]
        exact Or.inl hused
      · exact Or.inr ⟨heq, hmax.symm⟩
  · rw [if_neg hgt.not_gt, if_neg hgt.ne']
    constructor
    · intro u hu
      obtain hu | hu := List.mem_append.mp hu
      · left
        obtain hbefore | ⟨hsame, -⟩ := bound u hu
        · apply hbefore.trans hgt
        · rw [hsame]
          apply hgt
      · rw [List.mem_singleton.mp hu]
        right
        exact ⟨rfl, le_rfl, le_rfl, le_rfl⟩
    · apply exists_read_concat (Or.inr ⟨rfl, rfl⟩)
    · apply exists_read_concat (Or.inr ⟨rfl, rfl⟩)
    · apply exists_read_concat (Or.inr ⟨rfl, rfl⟩)

end WindowFigures

def WindowObservation.figures (o : WindowObservation) : WindowFigures :=
  ⟨o.resetAt, o.limit, o.remaining, o.used⟩

def WindowState.figures {F : Type} (w : WindowState F) : WindowFigures :=
  ⟨w.resetAt, w.limit, w.remaining, w.used⟩

/-! ### What observations leave -/

section Observations

variable {F : Type} {B : BurnRate F}

@[simp]
theorem WindowState.rebase_figures (w : WindowState F) (observedAt : Instant) (completed : ℕ) :
  (w.rebase B observedAt completed).figures = w.figures
  := by
  rw [rebase]
  split
  · rfl
  · dsimp only
    split <;> rfl

theorem WindowState.update_figures {w : WindowState F} {o : WindowObservation}
    (h : o.resetAt = w.resetAt) (hasPending : Bool) (completed : ℕ) :
  (w.update B o hasPending completed).figures = w.figures.observe o.figures
  := by
  have hmerged : w.figures.observe o.figures
      = ⟨w.resetAt, max w.limit o.limit, min w.remaining o.remaining, max w.used o.used⟩ := by
    rw [WindowFigures.observe]
    exact (if_neg h.not_lt).trans (if_pos h)
  rw [hmerged, update]
  cases hasPending with
  | true => rfl
  | false => apply rebase_figures

namespace WindowBudget

/-- The figures known of a resource. -/
def reading (b : WindowBudget F) (resource : String) : Option WindowFigures :=
  (b.resources resource).map WindowState.figures

theorem reading_observed
    (b : WindowBudget F) (resource : String) (o : WindowObservation) (state : WindowState F) :
  (observePrimary.observed b resource o state).reading resource = some state.figures
  := by
  have hknown : (Function.update b.resources resource (some state) resource).map
      WindowState.figures = some state.figures := by
    rw [Function.update_self, Option.map_some]
  rw [observePrimary.observed]
  split
  · rw [openPrimaryCircuit]
    split <;> apply hknown
  · apply hknown

/-- What is known of a resource is read once more. -/
theorem reading_observePrimary (b : WindowBudget F) (resource : String) (o : WindowObservation) :
  (b.observePrimary B resource o).reading resource
    = some (((b.reading resource).map (·.observe o.figures)).getD o.figures)
  := by
  rw [observePrimary]
  cases hknown : b.resources resource with
  | none =>
    have hreading : b.reading resource = none := by
      rw [reading, hknown, Option.map_none]
    rw [hreading]
    apply reading_observed
  | some previous =>
    have hreading : b.reading resource = some previous.figures := by
      rw [reading, hknown, Option.map_some]
    rw [hreading, Option.map_some, Option.getD_some]
    dsimp only
    obtain hlt | heq | hgt := lt_trichotomy o.resetAt previous.resetAt
    · rw [if_pos hlt, hreading, WindowFigures.observe]
      exact congrArg some (if_pos hlt).symm
    · rw [if_neg heq.not_lt, if_pos heq, reading_observed, WindowState.update_figures heq]
    · rw [if_neg hgt.not_gt, if_neg hgt.ne', reading_observed, WindowFigures.observe]
      exact congrArg some ((if_neg hgt.not_gt).trans (if_neg hgt.ne')).symm

/-- What is known in the end is the latest window of those observed. -/
theorem latest_observeAll
    {b : WindowBudget F} {resource : String} (fresh : b.resources resource = none)
    {obs : List WindowObservation} (some_observed : obs ≠ []) :
  ∃ w, (b.observeAll B resource obs).reading resource = some w
    ∧ WindowFigures.Latest (obs.map WindowObservation.figures) w
  := by
  induction obs using List.reverseRecOn with
  | nil => exact absurd rfl some_observed
  | append_singleton obs o ih =>
    rw [observeAll, List.foldl_append, List.foldl_cons, List.foldl_nil, reading_observePrimary,
      ← observeAll, List.map_append, List.map_singleton]
    by_cases hfirst : obs = []
    · subst hfirst
      use o.figures
      constructor
      · rw [observeAll, List.foldl_nil, reading, fresh]
        rfl
      · apply WindowFigures.latest_singleton
    · obtain ⟨w, hreading, latest⟩ := ih hfirst
      use w.observe o.figures
      constructor
      · rw [hreading]
        rfl
      · apply latest.concat

/-- The budget knows of the windows, and of the circuits they opened, what a rate budget does. -/
structure Shows (b : WindowBudget F) (budget : RateBudget) : Prop where
  resources : ∀ r, budget.resources r = (b.resources r).map WindowState.toResourceState
  primaryCircuits : budget.primaryCircuits = b.primaryCircuits

@[simp]
theorem rebase_toResourceState (w : WindowState F) (observedAt : Instant) (completed : ℕ) :
  (w.rebase B observedAt completed).toResourceState = w.toResourceState
  := by
  rw [WindowState.rebase]
  split
  · rfl
  · dsimp only
    split <;> rfl

/-- The order of observations is no matter: what is known in the end of when the window resets, of
its limit, and of what is used and remains, is the latest window of those observed, with the least
that remained and the most that was used. -/
theorem observeAll_perm
    (B : BurnRate F) {b : WindowBudget F} {resource : String}
    (fresh : b.resources resource = none) {obs obs' : List WindowObservation}
    (perm : obs.Perm obs') :
  (b.observeAll B resource obs).reading resource = (b.observeAll B resource obs').reading resource
    ∧ (obs ≠ [] → ∃ w, (b.observeAll B resource obs).reading resource = some w
      ∧ WindowFigures.Latest (obs.map WindowObservation.figures) w)
  := by
  constructor
  · by_cases hnone : obs = []
    · subst hnone
      rw [perm.nil_eq]
    · obtain ⟨w, hreading, latest⟩ := latest_observeAll (B := B) fresh hnone
      have hnone' : obs' ≠ [] := by
        rintro rfl
        apply hnone perm.eq_nil
      obtain ⟨w', hreading', latest'⟩ := latest_observeAll (B := B) fresh hnone'
      have hsame : ∀ v, v ∈ obs.map WindowObservation.figures
          ↔ v ∈ obs'.map WindowObservation.figures := fun v => (perm.map _).mem_iff
      rw [hreading, hreading', (latest.of_mem_iff hsame).unique latest']
  · apply latest_observeAll fresh

end WindowBudget

end Observations

namespace WindowBudget

/-- The rate in fractions, where the code has floating point. -/
def exactRate : BurnRate ℚ where
  zero := 0
  sample rate external elapsed :=
    let sample := external / (elapsed / 1000000000)
    if rate = 0 then sample else rate * 3 / 4 + sample / 4

/-- Two responses of a window and one of the window before it. -/
theorem observeAll_perm_late :
  let older : WindowObservation := ⟨5000, 12, 4988, 100, 90, 90⟩
  let early : WindowObservation := ⟨5000, 4990, 10, 3700, 101, 101⟩
  let late : WindowObservation := ⟨5000, 4995, 5, 3700, 103, 103⟩
  (new.observeAll exactRate "graphql" [older, early, late]).reading "graphql"
      = (new.observeAll exactRate "graphql" [late, older, early]).reading "graphql"
    ∧ (new.observeAll exactRate "graphql" [late, older, early]).reading "graphql"
      = some ⟨3700, 5000, 4990, 10⟩
  := by
  intro older early late
  have perm : [older, early, late].Perm [late, older, early] := by decide
  constructor
  · apply (observeAll_perm exactRate rfl perm).1
  · rfl

end WindowBudget

end Lazybox.Github
