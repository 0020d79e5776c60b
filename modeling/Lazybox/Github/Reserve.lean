import Lazybox.Github.TickSpend

/-!
# The reserve of a window

GitHub takes the points of a request from its window when it serves it, and the response says what
remains.  Between its admission and its response a request is known to the budget by its forecast
only, and the window by what was last observed of it.

Within one window of each resource, and with scheduled requests alone, the points that actually
remain are kept beside the budget, and of each request how far it has got.
-/

namespace Lazybox.Github

/-- A window of a resource, and the points it has left at first. -/
structure Window where
  limit : ℕ
  resetAt : Instant
  initial : ℕ
deriving DecidableEq, Repr

/-- How far a request has got. -/
inductive Phase where
  | underWay
  /-- GitHub has served it, at a cost, and the response on its way says what remained. -/
  | served (cost remaining : ℕ)
  /-- Its response has arrived, and the budget has, or has not, seen its headers. -/
  | answered (seen : Bool)
deriving DecidableEq, Repr

structure Sent where
  resource : String
  class' : String
  forecast : ℕ
  phase : Phase
deriving DecidableEq, Repr

/-- The forecast of a request of a resource which is not served yet. -/
def Sent.unserved (resource : String) (q : Sent) : ℕ :=
  if q.resource = resource ∧ q.phase = .underWay then q.forecast else 0

/-- The budget, the requests it admitted, and the points that remain.  They are below zero when
more was spent than the window had. -/
structure Metered where
  budget : RateBudget
  requests : List Sent
  points : String → ℤ

inductive MeteredAct where
  | tick (full : Bool) (interval : ℕ) (wallNow : Instant) (grants : String → RateBudget.Grant)
  | admitAt (resource : ApiResource) (class' : String) (priority : RequestPriority)
      (defaultForecast : ℕ) (wallNow monoNow : Instant) (bucketWait : Option ℕ)
  /-- GitHub serves a request. -/
  | serve (i cost : ℕ)
  /-- The response to a request that was served arrives, with a report of its cost or without, and
  with headers or without. -/
  | respond (i : ℕ) (reported headers : Bool) (wallNow : Instant)

namespace Metered

variable (R : Rates) (W : String → Window)

/-- The windows have opened, and nothing was requested in them. -/
def opening (b : RateBudget) : Metered := ⟨b, [], fun r => (W r).initial⟩

def tickStep (s : Metered) (full : Bool) (interval : ℕ) (wallNow : Instant)
    (grants : String → RateBudget.Grant) : Metered :=
  { s with
    budget :=
      if full then (s.budget.beginFullRefreshTick R interval wallNow grants).1
      else (s.budget.beginBackgroundTick R interval wallNow grants).1 }

def admitStep (s : Metered) (resource : ApiResource) (class' : String)
    (priority : RequestPriority) (defaultForecast : ℕ) (wallNow monoNow : Instant)
    (bucketWait : Option ℕ) : Metered :=
  match s.budget.admitAt R resource class' priority defaultForecast wallNow monoNow bucketWait with
  | (budget, .ok forecast) =>
      { s with budget, requests := s.requests ++ [⟨resource.key, class', forecast, .underWay⟩] }
  | (budget, .error _) => { s with budget }

def serveStep (s : Metered) (i cost : ℕ) : Metered :=
  match s.requests[i]? with
  | some q =>
      if q.phase = .underWay then
        let points := s.points q.resource - cost
        { s with
          requests := s.requests.set i { q with phase := .served cost points.toNat }
          points := Function.update s.points q.resource points }
      else s
  | none => s

def respondStep (s : Metered) (i : ℕ) (reported headers : Bool) (wallNow : Instant) : Metered :=
  match s.requests[i]? with
  | some q =>
      match q.phase with
      | .served cost remaining =>
          let budget := s.budget.recordResponse q.resource q.class'
            (if reported then some cost else none)
          { s with
            budget :=
              if headers then
                budget.observePrimary q.resource (W q.resource).limit remaining
                  (W q.resource).resetAt wallNow
              else budget
            requests := s.requests.set i { q with phase := .answered headers } }
      | .underWay | .answered _ => s
  | none => s

def step (s : Metered) : MeteredAct → Metered
  | .tick full interval wallNow grants => s.tickStep R full interval wallNow grants
  | .admitAt resource class' priority defaultForecast wallNow monoNow bucketWait =>
      s.admitStep R resource class' priority defaultForecast wallNow monoNow bucketWait
  | .serve i cost => s.serveStep i cost
  | .respond i reported headers wallNow => s.respondStep W i reported headers wallNow

/-- The budget at work within a window of each resource. -/
def machine : Machine Metered MeteredAct Empty := ⟨fun s a => (s.step R W a, [])⟩

/-! ### The reserve -/

/-- What the budget knows when the windows open is of earlier ones, or what they have left. -/
def Opening (b : RateBudget) : Prop :=
  ∀ r state, b.resources r = some state →
    state.resetAt ≤ (W r).resetAt
      ∧ (state.resetAt = (W r).resetAt →
        state.limit = (W r).limit ∧ state.remaining = (W r).initial)

/-- Requests are scheduled ones, made before the reset, and cost no more than their forecasts. -/
def Within (s : Metered) : MeteredAct → Prop
  | .admitAt resource _ priority _ wallNow _ _ =>
      priority.isScheduled = true ∧ wallNow < (W resource.key).resetAt
  | .serve i cost => ∀ q ∈ s.requests[i]?, cost ≤ q.forecast
  | .tick _ _ _ _ | .respond _ _ _ _ => True

instance decidableWithin : ∀ s a, Decidable (Within W s a)
  | _, .admitAt resource _ priority _ wallNow _ _ =>
      inferInstanceAs (Decidable
        (priority.isScheduled = true ∧ wallNow < (W resource.key).resetAt))
  | s, .serve i cost => inferInstanceAs (Decidable (∀ q ∈ s.requests[i]?, cost ≤ q.forecast))
  | _, .tick _ _ _ _ => isTrue trivial
  | _, .respond _ _ _ _ => isTrue trivial

/-- The points of no resource were brought below its reserve. -/
def Reserved (s : Metered) : Prop :=
  ∀ r, s.points r = (W r).initial ∨ (R.reserveFor (W r).limit : ℤ) ≤ s.points r

/-- What the requests of a resource that are not served yet are forecast to cost. -/
def inFlight (resource : String) (s : Metered) : ℕ :=
  (s.requests.map (Sent.unserved resource)).sum

/-- The budget knows the window of a resource, and has seen the response to every request of it. -/
def Settled (resource : String) (s : Metered) : Prop :=
  (∃ state, s.budget.resources resource = some state ∧ state.resetAt = (W resource).resetAt)
    ∧ ∀ q ∈ s.requests, q.resource = resource → q.phase = .answered true

/-- A request is granted when nothing is outstanding, or when the points that remain cover it and
all that is in flight, above the reserve. -/
def Covered (s : Metered) : MeteredAct → Prop
  | .admitAt resource class' priority defaultForecast wallNow monoNow bucketWait =>
      ∀ forecast,
        (s.budget.admitAt R resource class' priority defaultForecast wallNow monoNow bucketWait).2
          = .ok forecast →
        s.Settled W resource.key
          ∨ (R.reserveFor (W resource.key).limit + s.inFlight resource.key + forecast : ℤ)
            ≤ s.points resource.key
  | .tick _ _ _ _ | .serve _ _ | .respond _ _ _ _ => True

/-- What is in flight of a resource is covered by its points above the reserve. -/
def Safe (s : Metered) : Prop :=
  ∀ r, (s.points r = (W r).initial ∧ s.inFlight r = 0)
    ∨ (R.reserveFor (W r).limit + s.inFlight r : ℤ) ≤ s.points r

/-! ### What the budget has observed -/

/-- The budget knows exactly what remains of a window. -/
def Exact (s : Metered) (r : String) : Prop :=
  ∃ state, s.budget.resources r = some state ∧ state.resetAt = (W r).resetAt
    ∧ state.remaining = (s.points r).toNat

/-- What remains of a window is yet to be observed: the response that says it is on its way, or it
came without its headers. -/
def Outstanding (s : Metered) (r : String) : Prop :=
  ∃ q ∈ s.requests, q.resource = r
    ∧ ((∃ cost, q.phase = .served cost (s.points r).toNat) ∨ q.phase = .answered false)

/-- Nothing was observed of a window, and nothing taken from it. -/
def Untouched (s : Metered) (r : String) : Prop :=
  (∀ state, s.budget.resources r = some state → state.resetAt ≠ (W r).resetAt)
    ∧ ∀ q ∈ s.requests, q.resource = r → q.phase = .underWay

/-- What remains of a window is known, or will be said, or nothing has happened to it. -/
def Tracked (s : Metered) (r : String) : Prop :=
  Exact W s r ∨ Outstanding s r ∨ Untouched W s r

/-- What is known of a window is never less than what remains of it. -/
structure Observes (s : Metered) : Prop where
  spends : ∀ r, s.points r ≤ (W r).initial
  older : ∀ r state, s.budget.resources r = some state → state.resetAt ≤ (W r).resetAt
  current : ∀ r state, s.budget.resources r = some state → state.resetAt = (W r).resetAt →
    state.limit = (W r).limit ∧ (s.points r).toNat ≤ state.remaining
  headers : ∀ q ∈ s.requests, ∀ cost remaining, q.phase = .served cost remaining →
    (s.points q.resource).toNat ≤ remaining
  tracked : ∀ r, Tracked W s r

variable {R W}

variable {b : RateBudget}

theorem observes_opening (h : Opening W b) :
  Observes W (opening W b)
  := by
  constructor
  · intro r
    apply le_refl
  · intro r state hstate
    apply (h r state hstate).1
  · intro r state hstate hcurrent
    obtain ⟨hlimit, hremaining⟩ := (h r state hstate).2 hcurrent
    constructor
    · apply hlimit
    · rw [hremaining, opening, Int.toNat_natCast]
  · intro q hq
    cases hq
  · intro r
    by_cases hknown : ∃ state, b.resources r = some state ∧ state.resetAt = (W r).resetAt
    · obtain ⟨state, hstate, hcurrent⟩ := hknown
      left
      use state, hstate, hcurrent
      rw [((h r state hstate).2 hcurrent).2, opening, Int.toNat_natCast]
    · push Not at hknown
      right; right
      constructor
      · apply hknown
      · intro q hq
        cases hq

variable {r : String}

/-- Observing a window replaces what is known of it, or takes the least of both. -/
theorem observePrimary_resources (limit remaining : ℕ) {resetAt : Instant} (wallNow : Instant)
    (older : ∀ state, b.resources r = some state → state.resetAt ≤ resetAt) :
  ∃ state, (b.observePrimary r limit remaining resetAt wallNow).resources
      = Function.update b.resources r (some state)
    ∧ state.resetAt = resetAt
    ∧ ((∃ previous, b.resources r = some previous ∧ previous.resetAt = resetAt
          ∧ state.limit = max previous.limit limit
          ∧ state.remaining = min previous.remaining remaining)
      ∨ (∀ previous, b.resources r = some previous → previous.resetAt ≠ resetAt)
          ∧ state.limit = limit ∧ state.remaining = remaining)
  := by
  have hobserved : ∀ state,
      (RateBudget.observePrimary.observed b r remaining resetAt wallNow state).resources
        = Function.update b.resources r (some state) := by
    intro state
    unfold RateBudget.observePrimary.observed RateBudget.openPrimaryCircuit
    dsimp only
    split
    · split <;> rfl
    · rfl
  unfold RateBudget.observePrimary
  cases hprevious : b.resources r with
  | none =>
    use ⟨remaining, limit, resetAt⟩, hobserved _, rfl
    right
    constructor
    · rintro previous ⟨⟩
    · constructor <;> rfl
  | some previous =>
    dsimp only
    rw [if_neg (not_lt.mpr (older previous hprevious))]
    by_cases hsame : resetAt = previous.resetAt
    · rw [if_pos hsame]
      use ⟨min previous.remaining remaining, max previous.limit limit, previous.resetAt⟩
      use hobserved _, hsame.symm
      left
      use previous, rfl, hsame.symm
    · rw [if_neg hsame]
      use ⟨remaining, limit, resetAt⟩, hobserved _, rfl
      right
      constructor
      · rintro _ ⟨⟩
        apply Ne.symm hsame
      · constructor <;> rfl

/-- An admission leaves what is known of the windows, and adds to the requests at most one that is
under way. -/
theorem admitStep_eq
    (s : Metered) (resource : ApiResource) (class' : String) (priority : RequestPriority)
    (defaultForecast : ℕ) (wallNow monoNow : Instant) (bucketWait : Option ℕ) :
  (s.admitStep R resource class' priority defaultForecast wallNow monoNow
      bucketWait).budget.resources = s.budget.resources
    ∧ (s.admitStep R resource class' priority defaultForecast wallNow monoNow bucketWait).points
      = s.points
    ∧ ((∃ error,
          (s.budget.admitAt R resource class' priority defaultForecast wallNow monoNow
            bucketWait).2 = .error error
          ∧ (s.admitStep R resource class' priority defaultForecast wallNow monoNow
            bucketWait).requests = s.requests)
      ∨ (s.budget.admitAt R resource class' priority defaultForecast wallNow monoNow
            bucketWait).2 = .ok (s.budget.forecast class' defaultForecast)
          ∧ s.budget.remoteGuard R resource.key priority (s.budget.forecast class' defaultForecast)
            wallNow = none
          ∧ (s.admitStep R resource class' priority defaultForecast wallNow monoNow
            bucketWait).requests
            = s.requests ++ [⟨resource.key, class', s.budget.forecast class' defaultForecast,
              .underWay⟩])
  := by
  rw [admitStep]
  have hadmits := s.budget.admitAt_admits R resource class' priority defaultForecast wallNow
    monoNow bucketWait
  generalize s.budget.admitAt R resource class' priority defaultForecast wallNow monoNow bucketWait
    = outcome at hadmits
  cases hadmits with
  | refused error books =>
    use books.resources, rfl
    left
    use error
  | granted books window =>
    use books.resources, rfl
    right
    use rfl, window

namespace Observes

variable {s s' : Metered}

/-- New requests change nothing while they are under way. -/
theorem append (h : Observes W s) (new : List Sent)
    (hresources : s'.budget.resources = s.budget.resources) (hpoints : s'.points = s.points)
    (hrequests : s'.requests = s.requests ++ new) (hnew : ∀ q ∈ new, q.phase = .underWay) :
  Observes W s'
  := by
  constructor
  · rw [hpoints]
    apply h.spends
  · rw [hresources]
    apply h.older
  · rw [hresources, hpoints]
    apply h.current
  · rw [hrequests, hpoints]
    intro q hq cost remaining hphase
    obtain hq | hq := List.mem_append.mp hq
    · apply h.headers q hq cost remaining hphase
    · rw [hnew q hq] at hphase
      cases hphase
  · intro r
    obtain hexact | ⟨q, hq, hr, hphase⟩ | ⟨hunknown, hunderWay⟩ := h.tracked r
    · left
      rw [Exact, hresources, hpoints]
      apply hexact
    · right; left
      rw [Outstanding, hrequests, hpoints]
      use q, List.mem_append_left new hq
    · right; right
      rw [Untouched, hresources, hrequests]
      use hunknown
      intro q hq hr
      obtain hq | hq := List.mem_append.mp hq
      · apply hunderWay q hq hr
      · apply hnew q hq

/-- An element other than the one that is replaced is still there. -/
theorem mem_set_of_ne {l : List Sent} {i : ℕ} {q q' q'' : Sent} (hi : l[i]? = some q)
    (hmem : q'' ∈ l) (hne : q'' ≠ q) :
  q'' ∈ l.set i q'
  := by
  obtain ⟨j, hj⟩ := List.mem_iff_getElem?.mp hmem
  apply List.mem_iff_getElem?.mpr
  use j
  rw [List.getElem?_set_ne]
  · apply hj
  · rintro rfl
    apply hne
    rw [hi, Option.some.injEq] at hj
    apply hj.symm

/-- What becomes of a request is nothing to the windows of other resources. -/
theorem tracked_of_ne {i : ℕ} {q q' : Sent} (hi : s.requests[i]? = some q)
    (hq' : q'.resource = q.resource) {r : String} (hr : r ≠ q.resource)
    (hresources : s'.budget.resources r = s.budget.resources r) (hpoints : s'.points r = s.points r)
    (hrequests : s'.requests = s.requests.set i q') (h : Tracked W s r) :
  Tracked W s' r
  := by
  obtain hexact | ⟨q'', hmem, hr', hphase⟩ | ⟨hunknown, hunderWay⟩ := h
  · left
    rw [Exact, hresources, hpoints]
    apply hexact
  · right; left
    rw [Outstanding, hrequests, hpoints]
    use q''
    constructor
    · apply mem_set_of_ne hi hmem
      rintro rfl
      apply hr hr'.symm
    · use hr'
  · right; right
    rw [Untouched, hresources, hrequests]
    use hunknown
    intro q'' hmem hr'
    obtain hmem | rfl := List.mem_or_eq_of_mem_set hmem
    · apply hunderWay q'' hmem hr'
    · apply absurd (hr'.symm.trans hq') hr

/-- Serving a request puts what remains on its way. -/
theorem serve (h : Observes W s) (i cost : ℕ) :
  Observes W (s.serveStep i cost)
  := by
  unfold serveStep
  cases hi : s.requests[i]? with
  | none => apply h
  | some q =>
    dsimp only
    by_cases hphase : q.phase = .underWay
    · rw [if_pos hphase]
      have hmem := List.mem_of_getElem? hi
      have hless : ∀ r, (Function.update s.points q.resource (s.points q.resource - cost)) r
          ≤ s.points r := by
        intro r
        rw [Function.update_apply]
        split
        · next hr =>
            rw [hr]
            omega
        · apply le_refl
      have hlength : i < s.requests.length := (List.getElem?_eq_some_iff.mp hi).1
      constructor
      · intro r
        apply le_trans (hless r) (h.spends r)
      · apply h.older
      · intro r state hstate hcurrent
        obtain ⟨hlimit, hpoints⟩ := h.current r state hstate hcurrent
        use hlimit
        apply le_trans (Int.toNat_le_toNat (hless r)) hpoints
      · intro q' hq' cost' remaining hserved
        obtain hq' | rfl := List.mem_or_eq_of_mem_set hq'
        · apply le_trans (Int.toNat_le_toNat (hless _))
          apply h.headers q' hq' cost' remaining hserved
        · simp only [Phase.served.injEq] at hserved
          rw [← hserved.2]
          dsimp only
          rw [Function.update_self]
      · intro r
        by_cases hr : r = q.resource
        · right; left
          use { q with phase := .served cost (s.points q.resource - cost).toNat }
          use List.mem_set hlength _, hr.symm
          left
          use cost
          rw [hr]
          dsimp only
          rw [Function.update_self]
        · refine tracked_of_ne hi ?_ hr rfl (Function.update_of_ne hr _ _) rfl (h.tracked r)
          rfl
    · rw [if_neg hphase]
      apply h

/-- What an observation makes of what is known of a window. -/
theorem observed
    (h : Observes W s) {r : String} {remaining : ℕ} (hremaining : (s.points r).toNat ≤ remaining)
    {b : RateBudget} (hb : b.resources = s.budget.resources) (wallNow : Instant) :
  ∃ state, (b.observePrimary r (W r).limit remaining (W r).resetAt wallNow).resources
      = Function.update s.budget.resources r (some state)
    ∧ state.resetAt = (W r).resetAt ∧ state.limit = (W r).limit
    ∧ (s.points r).toNat ≤ state.remaining
    ∧ (Exact W s r ∨ remaining = (s.points r).toNat → state.remaining = (s.points r).toNat)
  := by
  have holder : ∀ state, b.resources r = some state → state.resetAt ≤ (W r).resetAt := by
    rw [hb]
    apply h.older r
  obtain ⟨state, hresources, hcurrent, hstate⟩ :=
    observePrimary_resources (W r).limit remaining wallNow holder
  rw [hb] at hresources hstate
  use state, hresources, hcurrent
  obtain ⟨previous, hprevious, hsame, hlimit, hmin⟩ | ⟨hunknown, hlimit, hnew⟩ := hstate
  · obtain ⟨hlimit', hleast⟩ := h.current r previous hprevious hsame
    rw [hlimit, hlimit', hmin]
    use Nat.max_self _, Nat.le_min.mpr ⟨hleast, hremaining⟩
    rintro (⟨exact', hexact', -, hremains⟩ | rfl)
    · rw [hprevious, Option.some.injEq] at hexact'
      rw [hexact', hremains]
      apply Nat.min_eq_left hremaining
    · apply Nat.min_eq_right hleast
  · rw [hnew]
    use hlimit, hremaining
    rintro (⟨exact', hexact', hsame, -⟩ | hremains)
    · apply absurd hsame (hunknown exact' hexact')
    · apply hremains

/-- An answer is not among the requests that were served without one. -/
theorem mem_of_mem_set_answered {requests : List Sent} {i : ℕ} {q q' : Sent} {headers : Bool}
    (h : q' ∈ requests.set i { q with phase := .answered headers }) {cost remaining : ℕ}
    (hserved : q'.phase = .served cost remaining) :
  q' ∈ requests
  := by
  obtain h | rfl := List.mem_or_eq_of_mem_set h
  · apply h
  · cases hserved

section Respond

variable {i : ℕ} {q : Sent} (h : Observes W s) (hi : s.requests[i]? = some q)
include h hi

/-- A response that is not seen leaves its request outstanding. -/
theorem respond_unseen (reported : Option ℕ) :
  Observes W { s with
    budget := s.budget.recordResponse q.resource q.class' reported
    requests := s.requests.set i { q with phase := .answered false } }
  := by
  have hlength : i < s.requests.length := (List.getElem?_eq_some_iff.mp hi).1
  constructor
  · apply h.spends
  · apply h.older
  · apply h.current
  · intro q' hq' cost' remaining' hserved
    apply h.headers q' (mem_of_mem_set_answered hq' hserved) cost' remaining' hserved
  · intro r
    by_cases hr : r = q.resource
    · right; left
      use { q with phase := .answered false }, List.mem_set hlength _, hr.symm
      right
      rfl
    · refine tracked_of_ne hi ?_ hr rfl rfl rfl (h.tracked r)
      rfl

/-- A response that is seen says what remained when its request was served. -/
theorem respond_seen {cost remaining : ℕ} (hphase : q.phase = .served cost remaining)
    (reported : Option ℕ) (wallNow : Instant) :
  Observes W { s with
    budget := (s.budget.recordResponse q.resource q.class' reported).observePrimary q.resource
      (W q.resource).limit remaining (W q.resource).resetAt wallNow
    requests := s.requests.set i { q with phase := .answered true } }
  := by
  have hmem := List.mem_of_getElem? hi
  have hremaining := h.headers q hmem cost remaining hphase
  obtain ⟨state, hresources, hcurrent, hlimit, hleast, hexact⟩ :=
    h.observed hremaining (b := s.budget.recordResponse q.resource q.class' reported) rfl wallNow
  constructor
  · apply h.spends
  · intro r state' hstate'
    dsimp only at hstate'
    rw [hresources, Function.update_apply] at hstate'
    split at hstate'
    · next hr =>
        cases hstate'
        rw [hr, hcurrent]
    · apply h.older r state' hstate'
  · intro r state' hstate'
    dsimp only at hstate'
    rw [hresources, Function.update_apply] at hstate'
    split at hstate'
    · next hr =>
        cases hstate'
        rw [hr]
        intro _
        use hlimit
    · apply h.current r state' hstate'
  · intro q' hq' cost' remaining' hserved
    apply h.headers q' (mem_of_mem_set_answered hq' hserved) cost' remaining' hserved
  · intro r
    by_cases hr : r = q.resource
    · rw [hr]
      by_cases hremains : state.remaining = (s.points q.resource).toNat
      · left
        use state
        dsimp only
        rw [hresources, Function.update_self]
        use rfl, hcurrent
      · right; left
        obtain hexact' | ⟨q', hmem', hr', hphase'⟩ | ⟨-, hunderWay⟩ := h.tracked q.resource
        · apply absurd (hexact (.inl hexact')) hremains
        · use q'
          constructor
          · apply mem_set_of_ne hi hmem'
            rintro rfl
            rw [hphase] at hphase'
            obtain ⟨cost', hserved⟩ | hserved := hphase'
            · cases hserved
              apply hremains (hexact (.inr rfl))
            · cases hserved
          · use hr'
        · rw [hunderWay q hmem rfl] at hphase
          cases hphase
    · refine tracked_of_ne hi ?_ hr ?_ rfl rfl (h.tracked r)
      · rfl
      · dsimp only
        rw [hresources, Function.update_of_ne hr]

end Respond

theorem respond (h : Observes W s) (i : ℕ) (reported headers : Bool) (wallNow : Instant) :
  Observes W (s.respondStep W i reported headers wallNow)
  := by
  unfold respondStep
  cases hi : s.requests[i]? with
  | none => apply h
  | some q =>
    dsimp only
    cases hphase : q.phase with
    | underWay => apply h
    | answered _ => apply h
    | served cost remaining =>
      cases headers with
      | false => exact h.respond_unseen hi _
      | true => exact h.respond_seen hi hphase _ wallNow

theorem next (h : Observes W s) (a : MeteredAct) :
  Observes W ((machine R W).next s a)
  := by
  cases a with
  | tick full interval wallNow grants =>
    change Observes W (s.tickStep R full interval wallNow grants)
    apply h.append []
    · cases full <;> rfl
    · rfl
    · rw [List.append_nil, tickStep]
    · simp
  | admitAt resource class' priority defaultForecast wallNow monoNow bucketWait =>
    change Observes W
      (s.admitStep R resource class' priority defaultForecast wallNow monoNow bucketWait)
    obtain ⟨hresources, hpoints, ⟨_, _, hrequests⟩ | ⟨_, _, hrequests⟩⟩ :=
      admitStep_eq (R := R) s resource class' priority defaultForecast wallNow monoNow bucketWait
    · apply h.append [] hresources hpoints
      · rw [hrequests, List.append_nil]
      · simp
    · apply h.append _ hresources hpoints hrequests
      simp
  | serve i cost => apply h.serve
  | respond i reported headers wallNow => apply h.respond

end Observes

/-! ### What is in flight -/

variable {s : Metered}

theorem inFlight_set {i : ℕ} {q : Sent} (hi : s.requests[i]? = some q) (q' : Sent) (r : String) :
  ((s.requests.set i q').map (Sent.unserved r)).sum + q.unserved r = s.inFlight r + q'.unserved r
  := sum_map_set (Sent.unserved r) hi q'

/-- Nothing is in flight of a resource whose every request was answered. -/
theorem Settled.inFlight (h : s.Settled W r) :
  s.inFlight r = 0
  := by
  apply List.sum_eq_zero_iff_forall_eq_nat.mpr
  intro n hn
  obtain ⟨q, hq, rfl⟩ := List.mem_map.mp hn
  apply if_neg
  rintro ⟨hr, hphase⟩
  rw [h.2 q hq hr] at hphase
  cases hphase

/-- Once nothing is outstanding, the budget knows exactly what remains. -/
theorem Settled.exact (h : Observes W s) (settled : s.Settled W r) :
  Exact W s r
  := by
  obtain ⟨⟨state, hstate, hcurrent⟩, hanswered⟩ := settled
  obtain hexact | ⟨q, hq, hr, hphase⟩ | ⟨hunknown, -⟩ := h.tracked r
  · apply hexact
  · rw [hanswered q hq hr] at hphase
    obtain ⟨_, hserved⟩ | hseen := hphase
    · cases hserved
    · cases hseen
  · apply absurd hcurrent (hunknown state hstate)

variable {priority : RequestPriority}

variable {wallNow : Instant}

/-- What the window does not refuse a scheduled request leaves the reserve of what was observed. -/
theorem reserve_of_remoteGuard {forecast : ℕ} {state : ResourceState}
    (hguard : b.remoteGuard R r priority forecast wallNow = none)
    (hscheduled : priority.isScheduled = true) (hstate : b.resources r = some state)
    (hwall : wallNow < state.resetAt) :
  forecast ≤ state.remaining ∧ R.reserveFor state.limit ≤ state.remaining - forecast
  := by
  unfold RateBudget.remoteGuard at hguard
  rw [hstate, Option.filter_some_pos (by simpa using hwall)] at hguard
  dsimp only at hguard
  rw [hscheduled] at hguard
  split at hguard
  · cases hguard
  · next hlow =>
      split at hguard
      · cases hguard
      · next hprotected =>
          simp only [Bool.true_and, Bool.or_eq_true, decide_eq_true_eq, not_or] at hlow hprotected
          omega

theorem one_le_forecast (b : RateBudget) (class' : String) (default : ℕ) :
  1 ≤ b.forecast class' default
  := by
  unfold RateBudget.forecast
  split <;> apply Nat.le_max_right

/-- The guards of the budget keep the reserve when nothing is outstanding. -/
theorem covered_of_settled (h : Observes W s) {forecast : ℕ} (settled : s.Settled W r)
    (hguard : s.budget.remoteGuard R r priority forecast wallNow = none)
    (hscheduled : priority.isScheduled = true) (hwall : wallNow < (W r).resetAt)
    (hforecast : 1 ≤ forecast) :
  (R.reserveFor (W r).limit + s.inFlight r + forecast : ℤ) ≤ s.points r
  := by
  obtain ⟨state, hstate, hcurrent, hremaining⟩ := settled.exact h
  obtain ⟨hlimit, -⟩ := h.current r state hstate hcurrent
  rw [← hcurrent] at hwall
  obtain ⟨hless, hreserve⟩ := reserve_of_remoteGuard hguard hscheduled hstate hwall
  rw [hlimit] at hreserve
  rw [settled.inFlight]
  omega

/-! ### What a step does to the reserve -/

/-- A request served takes its cost from the points, and leaves the flight. -/
theorem serveStep_eq {i : ℕ} {q : Sent} (hi : s.requests[i]? = some q)
    (hphase : q.phase = .underWay) (cost : ℕ) (r : String) :
  (s.serveStep i cost).points r = s.points r - (if r = q.resource then (cost : ℤ) else 0)
    ∧ (s.serveStep i cost).inFlight r + (if r = q.resource then q.forecast else 0)
      = s.inFlight r
  := by
  unfold serveStep
  rw [hi]
  dsimp only
  rw [if_pos hphase]
  constructor
  · dsimp only
    rw [Function.update_apply]
    split
    · next hr => rw [hr]
    · rw [Int.sub_zero]
  · have hset :=
      inFlight_set hi { q with phase := .served cost (s.points q.resource - cost).toNat } r
    simp only [Sent.unserved, hphase, reduceCtorEq, and_true, and_false, if_false, Nat.add_zero,
      eq_comm (a := q.resource)] at hset
    apply hset

/-- Any other request is not served. -/
theorem serveStep_idle {i : ℕ} (h : ∀ q, s.requests[i]? = some q → q.phase ≠ .underWay) (cost : ℕ) :
  s.serveStep i cost = s
  := by
  unfold serveStep
  cases hi : s.requests[i]? with
  | none => rfl
  | some q =>
    dsimp only
    rw [if_neg (h q hi)]

theorem respondStep_inFlight (i : ℕ) (reported headers : Bool) (wallNow : Instant) (r : String) :
  (s.respondStep W i reported headers wallNow).inFlight r = s.inFlight r
    ∧ (s.respondStep W i reported headers wallNow).points = s.points
  := by
  unfold respondStep
  cases hi : s.requests[i]? with
  | none => constructor <;> rfl
  | some q =>
    dsimp only
    cases hphase : q.phase with
    | underWay => constructor <;> rfl
    | answered _ => constructor <;> rfl
    | served cost remaining =>
      constructor
      · have hset := inFlight_set hi { q with phase := .answered headers } r
        simp only [Sent.unserved, hphase, reduceCtorEq, and_false, if_false,
          Nat.add_zero] at hset
        apply hset
      · rfl

theorem safe_serve (safe : Safe R W s) {i cost : ℕ} (within : Within W s (.serve i cost)) :
  Safe R W (s.serveStep i cost)
  := by
  by_cases hfound : ∃ q, s.requests[i]? = some q ∧ q.phase = .underWay
  · obtain ⟨q, hi, hphase⟩ := hfound
    have hcost := within q hi
    intro r
    obtain ⟨hpoints, hflight⟩ := serveStep_eq hi hphase cost r
    have hr := safe r
    by_cases hresource : r = q.resource
    · rw [if_pos hresource] at hpoints hflight
      omega
    · rw [if_neg hresource] at hpoints hflight
      omega
  · push Not at hfound
    rw [serveStep_idle hfound]
    apply safe

theorem safe_admit
    (h : Observes W s) (safe : Safe R W s) {resource : ApiResource} {class' : String}
    {defaultForecast : ℕ} {monoNow : Instant}
    {bucketWait : Option ℕ}
    (within : Within W s
      (.admitAt resource class' priority defaultForecast wallNow monoNow bucketWait)) :
  Safe R W (s.admitStep R resource class' priority defaultForecast wallNow monoNow bucketWait)
    ↔ Covered R W s (.admitAt resource class' priority defaultForecast wallNow monoNow bucketWait)
  := by
  obtain ⟨hscheduled, hwall⟩ := within
  obtain ⟨-, hpoints, ⟨error, hrefused, hrequests⟩ | ⟨hgranted, hguard, hrequests⟩⟩ :=
    admitStep_eq (R := R) s resource class' priority defaultForecast wallNow monoNow bucketWait
  · constructor
    · intro _ forecast hgranted
      rw [hrefused] at hgranted
      cases hgranted
    · intro _ r
      rw [hpoints, inFlight, hrequests]
      apply safe r
  · have hforecast := one_le_forecast s.budget class' defaultForecast
    generalize s.budget.forecast class' defaultForecast = forecast at *
    have hflight : ∀ r, (s.admitStep R resource class' priority defaultForecast wallNow monoNow
        bucketWait).inFlight r = s.inFlight r + (if resource.key = r then forecast else 0) := by
      intro r
      rw [inFlight, hrequests, List.map_append, List.sum_append, inFlight]
      simp [Sent.unserved]
    constructor
    · intro hsafe forecast' hgranted'
      rw [hgranted, Except.ok.injEq] at hgranted'
      subst hgranted'
      have hr := hsafe resource.key
      rw [hpoints, hflight, if_pos rfl] at hr
      right
      omega
    · intro covered r
      have hcovered := covered forecast hgranted
      have hr := safe r
      rw [hpoints, hflight]
      split
      · next hresource =>
          subst hresource
          right
          obtain hsettled | hcovers := hcovered
          · have := covered_of_settled h hsettled hguard hscheduled hwall hforecast
            omega
          · omega
      · rw [Nat.add_zero]
        apply hr

theorem safe_next (h : Observes W s) (safe : Safe R W s) {a : MeteredAct} (within : Within W s a) :
  Safe R W ((machine R W).next s a) ↔ Covered R W s a
  := by
  cases a with
  | tick full interval wallNow grants =>
    constructor
    · intro _
      trivial
    · intro _
      apply safe
  | admitAt resource class' priority defaultForecast wallNow monoNow bucketWait =>
    apply safe_admit h safe within
  | serve i cost =>
    constructor
    · intro _
      trivial
    · intro _
      apply safe_serve safe within
  | respond i reported headers wallNow =>
    constructor
    · intro _
      trivial
    · intro _
      change Safe R W (s.respondStep W i reported headers wallNow)
      intro r
      obtain ⟨hflight, hpoints⟩ := respondStep_inFlight (W := W) (s := s) i reported headers
        wallNow r
      rw [hflight, hpoints]
      apply safe r

/-! ### Every run -/

/-- Nothing but the serving of requests. -/
def Serves (as : List MeteredAct) : Prop := ∀ a ∈ as, ∃ i cost, a = .serve i cost

theorem reserved_of_safe (safe : Safe R W s) {serves : List MeteredAct} (hserves : Serves serves)
    (within : (machine R W).Along (Within W) s serves) :
  Reserved R W ((machine R W).final s serves)
  := by
  induction serves generalizing s with
  | nil =>
    intro r
    obtain ⟨hpoints, -⟩ | hcovered := safe r
    · left
      apply hpoints
    · right
      change _ ≤ s.points r
      omega
  | cons a serves ih =>
    obtain ⟨i, cost, rfl⟩ := hserves a List.mem_cons_self
    apply ih
    · apply safe_serve safe within.1
    · intro a ha
      apply hserves a (List.mem_cons_of_mem _ ha)
    · apply within.2

/-- If what is in flight of a resource can be served within the reserve, it is covered. -/
theorem covered_of_reserved
    (h : Observes W s) (r : String)
    (reserved : ∀ serves, Serves serves → (machine R W).Along (Within W) s serves →
      Reserved R W ((machine R W).final s serves)) :
  (s.points r = (W r).initial ∧ s.inFlight r = 0)
    ∨ (R.reserveFor (W r).limit + s.inFlight r : ℤ) ≤ s.points r
  := by
  -- By induction on what is in flight: a request is served at its forecast.
  induction hn : s.inFlight r using Nat.strongRecOn generalizing s with
  | ind n ih =>
    by_cases hzero : n = 0
    · have hreserved : Reserved R W s := reserved [] (by simp [Serves]) trivial
      have hr := hreserved r
      omega
    · have hflight : ∃ q ∈ s.requests, q.unserved r ≠ 0 := by
        by_contra hnone
        push Not at hnone
        apply hzero
        rw [← hn]
        apply List.sum_eq_zero_iff_forall_eq_nat.mpr
        simpa using hnone
      obtain ⟨q, hq, hforecast⟩ := hflight
      obtain ⟨i, hi⟩ := List.mem_iff_getElem?.mp hq
      rw [Sent.unserved, ne_eq, ite_eq_right_iff] at hforecast
      push Not at hforecast
      obtain ⟨⟨hresource, hphase⟩, hpositive⟩ := hforecast
      obtain ⟨hpoints, hrest⟩ := serveStep_eq hi hphase q.forecast r
      rw [if_pos hresource.symm] at hpoints hrest
      have hwithin : Within W s (.serve i q.forecast) := by
        intro q' hi'
        rw [Option.mem_def, hi, Option.some.injEq] at hi'
        rw [hi']
      have hnext : Observes W (s.serveStep i q.forecast) := h.serve i q.forecast
      have hserved := ih _ (by omega) hnext
        (by
          intro serves hserves within
          apply reserved (.serve i q.forecast :: serves)
          · intro a ha
            obtain rfl | ha := List.mem_cons.mp ha
            · use i, q.forecast
            · apply hserves a ha
          · use hwithin
            apply within)
        rfl
      have hspends := h.spends r
      omega

/-- However the requests granted in a run are served, the points stay at the reserve or above,
exactly when each is granted with nothing outstanding, or when the points that remain cover it and
all that is in flight. -/
theorem reserve_kept_iff
    {b : RateBudget} (hopening : Opening W b) {as : List MeteredAct}
    (within : (machine R W).Along (Within W) (opening W b) as) :
  (∀ before after, as = before ++ after → ∀ serves, Serves serves →
      (machine R W).Along (Within W) ((machine R W).final (opening W b) before) serves →
      Reserved R W ((machine R W).final (opening W b) (before ++ serves)))
    ↔ (machine R W).Along (Covered R W) (opening W b) as
  := by
  have hobserves := (machine R W).final_preserved (fun _ a h => h.next a)
    (observes_opening hopening)
  have hsafe : (∀ before after, as = before ++ after →
      Safe R W ((machine R W).final (opening W b) before))
        ↔ (machine R W).Along (Covered R W) (opening W b) as := by
    apply Machine.forall_reached_iff (J := Observes W) _ _ _ _ _ within
    · intro r
      left
      constructor <;> rfl
    · apply observes_opening hopening
    · intro s a _ h
      apply h.next
    · intro s a hwithin h safe
      apply safe_next h safe hwithin
  rw [← hsafe]
  constructor
  · intro h before after has r
    apply covered_of_reserved (hobserves before)
    intro serves hserves hwithin
    rw [← Machine.final_append]
    apply h before after has serves hserves hwithin
  · intro h before after has serves hserves hwithin
    rw [Machine.final_append]
    apply reserved_of_safe (h before after has) hserves hwithin

/-- More than half of each window is left to background work. -/
def defaultRates : Rates where
  reserveFor := fun limit => (limit * 45 + 99) / 100
  tickShare := fun _ allowance => allowance

/-- A window has thirty points above its reserve. -/
def thirtyAbove : String → Window := fun _ => ⟨5000, 3600, 2280⟩

/-- The budget has observed its GraphQL window. -/
def observedBudget : RateBudget :=
  { RateBudget.new with
    resources := fun r => if r = "graphql" then some ⟨2280, 5000, 3600⟩ else none }

theorem opening_observedBudget :
  Opening thirtyAbove observedBudget
  := by
  intro r state hstate
  rw [observedBudget] at hstate
  dsimp only at hstate
  split at hstate
  · cases hstate
    use le_refl _
    intro _
    constructor <;> rfl
  · cases hstate

/-- A sweep of twenty points is served. -/
def oneSweep : List MeteredAct :=
  [.tick true 60 0 (fun _ => ⟨0, 0, false⟩), .admitAt .graphql "sweep" .sessioned 20 0 0 none,
    .serve 0 18, .respond 0 true true 1]

theorem covered_oneSweep :
  (machine defaultRates thirtyAbove).Along (Covered defaultRates thirtyAbove)
    (opening thirtyAbove observedBudget) oneSweep
  := by
  have hgranted : (((opening thirtyAbove observedBudget).tickStep defaultRates true 60 0
      (fun _ => ⟨0, 0, false⟩)).budget.admitAt defaultRates .graphql "sweep" .sessioned 20 0 0
        none).2 = .ok 20 := by
    rfl
  use trivial
  constructor
  · intro forecast h
    have hforecast := hgranted.symm.trans h
    cases hforecast
    right
    decide +kernel
  · constructor
    · trivial
    · constructor <;> trivial

/-- Once it is granted, the sweep may cost all it was forecast to. -/
theorem reserve_kept_oneSweep :
  Reserved defaultRates thirtyAbove
    ((machine defaultRates thirtyAbove).final (opening thirtyAbove observedBudget)
      (oneSweep.take 2 ++ [.serve 0 20]))
  := by
  apply (reserve_kept_iff opening_observedBudget (by decide +kernel)).mpr covered_oneSweep
    (oneSweep.take 2) (oneSweep.drop 2) rfl
  · intro a ha
    rw [List.mem_singleton.mp ha]
    use 0, 20
  · decide +kernel

/-- A sweep of twenty points whose response is late: a requested reconcile grants what was last
observed once more. -/
def twoSweeps : List MeteredAct :=
  let reconcile := .tick true 60 0 (fun _ => ⟨0, 0, false⟩)
  let sweep := .admitAt .graphql "sweep" .sessioned 20 0 0 none
  [reconcile, sweep, reconcile, sweep, .serve 0 20, .serve 1 20]

/-- Both sweeps are granted thirty points above the reserve, and bring it ten below. -/
theorem twoSweeps_below_reserve :
  Opening thirtyAbove observedBudget
    ∧ (machine defaultRates thirtyAbove).Along (Within thirtyAbove)
      (opening thirtyAbove observedBudget) twoSweeps
    ∧ ¬ Reserved defaultRates thirtyAbove
      ((machine defaultRates thirtyAbove).final (opening thirtyAbove observedBudget) twoSweeps)
  := by
  use opening_observedBudget, (by decide +kernel)
  intro h
  have hgraphql := h "graphql"
  revert hgraphql
  decide +kernel

end Metered

end Lazybox.Github
