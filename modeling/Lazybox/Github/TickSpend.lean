import Lazybox.Github.RateBudget
import Lazybox.Library.Run

/-!
# What a tick has spent

Beside the budget stand the requests that were admitted: whether they were since the tick began,
and what each cost when it was answered.  A response answers one of them, and the budget takes it
for the oldest admission of its resource and class.  The counter of the tick is what its requests
cost, or are forecast to, as long as taking the one for the other changes nothing.
-/

namespace Lazybox.Github

/-- What a sum over a list becomes when an element is replaced. -/
theorem sum_map_set
    {α : Type*} (f : α → ℕ) {l : List α} {i : ℕ} {a : α} (h : l[i]? = some a) (a' : α) :
  ((l.set i a').map f).sum + f a = (l.map f).sum + f a'
  := by
  induction l generalizing i with
  | nil => cases h
  | cons b l ih =>
    cases i with
    | zero =>
      cases h
      simp
      omega
    | succ i =>
      have hrest := ih (i := i) (by simpa using h)
      simp only [List.set_cons_succ, List.map_cons, List.sum_cons]
      omega

/-- A request that was admitted. -/
structure Request where
  resource : String
  class' : String
  forecast : ℕ
  scheduled : Bool
  /-- It was admitted since the current tick began. -/
  current : Bool
  /-- What it cost, once it is answered. -/
  answered : Option ℕ
deriving DecidableEq, Repr

/-- What it cost if it is answered, and what it is forecast to if not. -/
def Request.cost (q : Request) : ℕ := q.answered.getD q.forecast

/-- The request, answered. -/
def Request.answer (q : Request) (reported : Option ℕ) : Request :=
  { q with answered := some (reported.getD q.forecast) }

/-- The headers of a response: the limit and the points that remain of a window. -/
structure RateHeaders where
  limit : ℕ
  remaining : ℕ
  resetAt : Instant
deriving DecidableEq, Repr

/-- The budget, and the requests it admitted. -/
structure Governed where
  budget : RateBudget
  requests : List Request

inductive GovernorAct where
  | tick (full : Bool) (interval : ℕ) (wallNow : Instant) (grants : String → RateBudget.Grant)
  | admitAt (resource : ApiResource) (class' : String) (priority : RequestPriority)
      (defaultForecast : ℕ) (wallNow monoNow : Instant) (bucketWait : Option ℕ)
  /-- The response to a request arrives: what it says it cost, and its headers. -/
  | respond (i : ℕ) (reported : Option ℕ) (headers : Option RateHeaders) (wallNow : Instant)

namespace Governed

variable (R : Rates)

def new : Governed := ⟨.new, []⟩

def tickStep (s : Governed) (full : Bool) (interval : ℕ) (wallNow : Instant)
    (grants : String → RateBudget.Grant) : Governed where
  budget :=
    if full then (s.budget.beginFullRefreshTick R interval wallNow grants).1
    else (s.budget.beginBackgroundTick R interval wallNow grants).1
  requests := s.requests.map fun q => { q with current := false }

def admitStep (s : Governed) (resource : ApiResource) (class' : String)
    (priority : RequestPriority) (defaultForecast : ℕ) (wallNow monoNow : Instant)
    (bucketWait : Option ℕ) : Governed :=
  match s.budget.admitAt R resource class' priority defaultForecast wallNow monoNow bucketWait with
  | (budget, .ok forecast) =>
      ⟨budget, s.requests ++ [⟨resource.key, class', forecast, priority.isScheduled, true, none⟩]⟩
  | (budget, .error _) => ⟨budget, s.requests⟩

def respondStep (s : Governed) (i : ℕ) (reported : Option ℕ) (headers : Option RateHeaders)
    (wallNow : Instant) : Governed :=
  match s.requests[i]? with
  | some q =>
      if q.answered.isSome then s
      else
        let budget := s.budget.recordResponse q.resource q.class' reported
        { budget :=
            match headers with
            | some h => budget.observePrimary q.resource h.limit h.remaining h.resetAt wallNow
            | none => budget
          requests := s.requests.set i (q.answer reported) }
  | none => s

def step (s : Governed) : GovernorAct → Governed
  | .tick full interval wallNow grants => s.tickStep R full interval wallNow grants
  | .admitAt resource class' priority defaultForecast wallNow monoNow bucketWait =>
      s.admitStep R resource class' priority defaultForecast wallNow monoNow bucketWait
  | .respond i reported headers wallNow => s.respondStep i reported headers wallNow

/-- The budget at work. -/
def machine : Machine Governed GovernorAct Empty := ⟨fun s a => (s.step R a, [])⟩

/-! ### What is spent -/

/-- A request counts for what the current tick spends on a resource. -/
def counts (resource : String) (q : Request) : Bool :=
  q.scheduled && q.current && q.resource = resource

/-- What a request counts for. -/
def spentOn (resource : String) (q : Request) : ℕ := if counts resource q then q.cost else 0

/-- What the requests made since the tick began cost, or are forecast to. -/
def spent (resource : String) (requests : List Request) : ℕ :=
  (requests.map (spentOn resource)).sum

/-- The counter of the tick is what its requests spend. -/
def CountsSpend (s : Governed) : Prop :=
  ∀ resource, s.budget.tickScheduled resource = spent resource s.requests

/-- What the response to a request takes from the counter, and what it puts there instead: the
forecast of the oldest admission, as far as it is there, and the cost reported, as far as it
fits. -/
def taken (s : Governed) (q : Request) : ℕ :=
  match (s.budget.pending q.resource q.class').head? with
  | some ⟨forecast, true⟩ => min forecast (s.budget.tickScheduled q.resource)
  | _ => 0

def put (s : Governed) (q : Request) (reported : Option ℕ) : ℕ :=
  match (s.budget.pending q.resource q.class').head? with
  | some ⟨forecast, true⟩ =>
      min (reported.getD forecast) (u32Max - (s.budget.tickScheduled q.resource - forecast))
  | _ => 0

/-- What should be taken, and put: the forecast of the request answered, and its cost, if it counts
for the tick. -/
def owed (q : Request) : ℕ := if counts q.resource q then q.forecast else 0

def due (q : Request) (reported : Option ℕ) : ℕ :=
  if counts q.resource q then reported.getD q.forecast else 0

/-- A response corrects the counter by as much as the request it answers was mistaken by, and a
scheduled request that is granted leaves the counter within its 32 bits. -/
def Corrects (R : Rates) (s : Governed) : GovernorAct → Prop
  | .tick _ _ _ _ => True
  | .admitAt resource class' priority defaultForecast wallNow monoNow bucketWait =>
      ∀ forecast,
        (s.budget.admitAt R resource class' priority defaultForecast wallNow monoNow bucketWait).2
          = .ok forecast →
        priority.isScheduled = true →
        s.budget.tickScheduled resource.key + forecast ≤ u32Max
  | .respond i reported _ _ => ∀ q, s.requests[i]? = some q → q.answered = none →
      s.put q reported + owed q = due q reported + s.taken q

/-- The counters are numbers of 32 bits. -/
def Bounded (s : Governed) : Prop := ∀ resource, s.budget.tickScheduled resource ≤ u32Max

/-! ### Sums over the requests -/

theorem spent_append (resource : String) (requests : List Request) (q : Request) :
  spent resource (requests ++ [q]) = spent resource requests + spentOn resource q
  := by
  simp [spent]

/-- A request of another resource does not count. -/
theorem spentOn_ne {resource : String} {q : Request} (h : q.resource ≠ resource) :
  spentOn resource q = 0
  := by
  simp [spentOn, counts, h]

theorem spentOn_unanswered {q : Request} (h : q.answered = none) :
  spentOn q.resource q = owed q
  := by
  rw [spentOn, owed, Request.cost, h, Option.getD_none]

theorem spentOn_answered (q : Request) (reported : Option ℕ) :
  spentOn q.resource (q.answer reported) = due q reported
  := rfl

/-! ### The counter after a step -/

variable {R}

theorem tickStep_tickScheduled (s : Governed) (full : Bool) (interval : ℕ) (wallNow : Instant)
    (grants : String → RateBudget.Grant) (resource : String) :
  (s.tickStep R full interval wallNow grants).budget.tickScheduled resource = 0
  := by
  cases full <;> rfl

theorem observePrimary_tickScheduled
    (b : RateBudget) (resource : String) (limit remaining : ℕ) (resetAt wallNow : Instant) :
  (b.observePrimary resource limit remaining resetAt wallNow).tickScheduled = b.tickScheduled
  := by
  have hobserved : ∀ state,
      (RateBudget.observePrimary.observed b resource remaining resetAt wallNow state).tickScheduled
        = b.tickScheduled := by
    intro state
    unfold RateBudget.observePrimary.observed RateBudget.openPrimaryCircuit
    dsimp only
    split
    · split <;> rfl
    · rfl
  unfold RateBudget.observePrimary
  split
  · split
    · rfl
    · apply hobserved
  · apply hobserved

theorem recordResponse_tickScheduled_ne (b : RateBudget) {resource other : String} (class' : String)
    (reported : Option ℕ) (h : other ≠ resource) :
  (b.recordResponse resource class' reported).tickScheduled other = b.tickScheduled other
  := by
  unfold RateBudget.recordResponse
  dsimp only
  cases (b.pending resource class').head? with
  | none => rfl
  | some admission =>
    obtain ⟨forecast, scheduled⟩ := admission
    cases scheduled with
    | false => rfl
    | true => apply Function.update_of_ne h

theorem recordResponse_bounded {b : RateBudget} (h : ∀ r, b.tickScheduled r ≤ u32Max)
    (resource class' : String) (reported : Option ℕ) (r : String) :
  (b.recordResponse resource class' reported).tickScheduled r ≤ u32Max
  := by
  by_cases hr : r = resource
  · unfold RateBudget.recordResponse
    dsimp only
    cases (b.pending resource class').head? with
    | none => apply h
    | some admission =>
      obtain ⟨forecast, scheduled⟩ := admission
      cases scheduled with
      | false => apply h
      | true =>
        rw [hr]
        dsimp only
        rw [Function.update_self]
        apply Nat.min_le_right
  · rw [recordResponse_tickScheduled_ne b class' reported hr]
    apply h

variable {s : Governed}

/-- A response takes `taken` from the counter of its resource, and puts `put` there. -/
theorem recordResponse_tickScheduled (bounded : s.Bounded) (q : Request) (reported : Option ℕ) :
  (s.budget.recordResponse q.resource q.class' reported).tickScheduled q.resource + s.taken q
    = s.budget.tickScheduled q.resource + s.put q reported
  := by
  have hbound := bounded q.resource
  unfold RateBudget.recordResponse taken put
  dsimp only
  cases (s.budget.pending q.resource q.class').head? with
  | none => rfl
  | some admission =>
    obtain ⟨forecast, scheduled⟩ := admission
    cases scheduled with
    | false => rfl
    | true =>
      simp only [Option.map_some, Option.getD_some, Function.update_self, addSat]
      omega

/-! ### One step -/

/-- A response that finds its request. -/
theorem respondStep_eq {i : ℕ} {q : Request} (hi : s.requests[i]? = some q) (hq : q.answered = none)
    (reported : Option ℕ) (headers : Option RateHeaders) (wallNow : Instant) :
  (s.respondStep i reported headers wallNow).budget.tickScheduled
      = (s.budget.recordResponse q.resource q.class' reported).tickScheduled
    ∧ (s.respondStep i reported headers wallNow).requests
      = s.requests.set i (q.answer reported)
  := by
  unfold respondStep
  rw [hi]
  dsimp only
  rw [hq, Option.isSome_none, if_neg Bool.false_ne_true]
  constructor
  · cases headers with
    | none => rfl
    | some h => apply observePrimary_tickScheduled
  · rfl

/-- A response that finds none, or one that is answered, changes nothing. -/
theorem respondStep_idle {i : ℕ} (h : ∀ q, s.requests[i]? = some q → q.answered ≠ none)
    (reported : Option ℕ) (headers : Option RateHeaders) (wallNow : Instant) :
  s.respondStep i reported headers wallNow = s
  := by
  unfold respondStep
  cases hi : s.requests[i]? with
  | none => rfl
  | some q =>
    dsimp only
    rw [if_pos (Option.isSome_iff_ne_none.mpr (h q hi))]

theorem bounded_step (s : Governed) (a : GovernorAct) (bounded : s.Bounded) :
  ((machine R).next s a).Bounded
  := by
  intro resource
  cases a with
  | tick full interval wallNow grants =>
    change (s.tickStep R full interval wallNow grants).budget.tickScheduled resource ≤ u32Max
    rw [tickStep_tickScheduled]
    apply Nat.zero_le
  | admitAt admitted class' priority defaultForecast wallNow monoNow bucketWait =>
    change (s.admitStep R admitted class' priority defaultForecast wallNow monoNow
      bucketWait).budget.tickScheduled resource ≤ u32Max
    have hadmits := s.budget.admitAt_admits R admitted class' priority defaultForecast wallNow
      monoNow bucketWait
    rw [admitStep]
    generalize s.budget.admitAt R admitted class' priority defaultForecast wallNow monoNow
      bucketWait = outcome at hadmits
    cases hadmits with
    | refused error books =>
      dsimp only
      rw [books.tickScheduled]
      apply bounded
    | granted books window =>
      dsimp only [RateBudget.charge]
      rw [books.tickScheduled]
      split
      · rw [Function.update_apply]
        split
        · rw [addWrap, u32Max]
          omega
        · apply bounded
      · apply bounded
  | respond i reported headers wallNow =>
    change (s.respondStep i reported headers wallNow).budget.tickScheduled resource ≤ u32Max
    by_cases h : ∃ q, s.requests[i]? = some q ∧ q.answered = none
    · obtain ⟨q, hi, hq⟩ := h
      rw [(respondStep_eq hi hq reported headers wallNow).1]
      apply recordResponse_bounded bounded
    · rw [respondStep_idle (by simpa using h)]
      apply bounded

theorem countsSpend_tick (s : Governed) (full : Bool) (interval : ℕ) (wallNow : Instant)
    (grants : String → RateBudget.Grant) :
  CountsSpend (s.tickStep R full interval wallNow grants)
  := by
  intro resource
  rw [tickStep_tickScheduled, tickStep, spent, List.map_map, eq_comm,
    List.sum_eq_zero_iff_forall_eq_nat]
  simp [spentOn, counts]

theorem countsSpend_admit (h : CountsSpend s) (bounded : s.Bounded) (resource : ApiResource)
    (class' : String) (priority : RequestPriority) (defaultForecast : ℕ) (wallNow monoNow : Instant)
    (bucketWait : Option ℕ) :
  CountsSpend
      (s.admitStep R resource class' priority defaultForecast wallNow monoNow bucketWait)
    ↔ Corrects R s
      (.admitAt resource class' priority defaultForecast wallNow monoNow bucketWait)
  := by
  rw [admitStep, Corrects]
  have hadmits := s.budget.admitAt_admits R resource class' priority defaultForecast wallNow
    monoNow bucketWait
  generalize s.budget.admitAt R resource class' priority defaultForecast wallNow monoNow bucketWait
    = outcome at hadmits
  cases hadmits with
  | refused error books =>
    constructor
    · rintro _ forecast ⟨⟩
    · intro _ r
      dsimp only
      rw [books.tickScheduled]
      apply h
  | granted books window =>
    generalize s.budget.forecast class' defaultForecast = forecast
    have hbound := bounded resource.key
    have hcount := h resource.key
    dsimp only [CountsSpend, RateBudget.charge]
    rw [books.tickScheduled]
    constructor
    · rintro hcounts _ ⟨⟩ hscheduled
      have hr := hcounts resource.key
      rw [spent_append, if_pos hscheduled, Function.update_self, spentOn, counts, hscheduled]
        at hr
      simp only [Bool.and_self, decide_true, if_true, Request.cost, Option.getD_none] at hr
      rw [addWrap] at hr
      rw [u32Max] at hbound ⊢
      omega
    · intro fits r
      rw [spent_append, ← h r]
      cases hscheduled : priority.isScheduled with
      | false => simp [spentOn, counts]
      | true =>
        have hfits := fits forecast rfl hscheduled
        rw [if_pos rfl, Function.update_apply]
        split
        · next hr =>
            rw [hr]
            simp only [spentOn, counts, Bool.and_self, decide_true, if_true, Request.cost,
              Option.getD_none]
            rw [u32Max] at hfits
            apply Nat.mod_eq_of_lt
            omega
        · next hr =>
            rw [spentOn_ne (Ne.symm hr), Nat.add_zero]

theorem countsSpend_respond (h : CountsSpend s) (bounded : s.Bounded) (i : ℕ) (reported : Option ℕ)
    (headers : Option RateHeaders) (wallNow : Instant) :
  CountsSpend (s.respondStep i reported headers wallNow)
    ↔ Corrects R s (.respond i reported headers wallNow)
  := by
  rw [Corrects]
  by_cases hfound : ∃ q, s.requests[i]? = some q ∧ q.answered = none
  · obtain ⟨q, hi, hq⟩ := hfound
    obtain ⟨hcounter, hrequests⟩ := respondStep_eq hi hq reported headers wallNow
    have hrecord := recordResponse_tickScheduled bounded q reported
    have hspent : ∀ r, spent r (s.requests.set i (q.answer reported)) + spentOn r q
        = spent r s.requests + spentOn r (q.answer reported) :=
      fun r => sum_map_set (spentOn r) hi _
    have hown := hspent q.resource
    rw [spentOn_unanswered hq, spentOn_answered, ← h] at hown
    constructor
    · intro hcounts q' hi' hq'
      rw [hi, Option.some.injEq] at hi'
      subst hi'
      have hr := hcounts q.resource
      rw [hcounter, hrequests] at hr
      omega
    · intro corrects r
      have hcorrects := corrects q hi hq
      rw [hcounter, hrequests]
      by_cases hr : r = q.resource
      · rw [hr]
        omega
      · have hother := hspent r
        rw [spentOn_ne (Ne.symm hr), spentOn_ne (q := q.answer reported) (Ne.symm hr)] at hother
        rw [recordResponse_tickScheduled_ne _ _ _ hr, h r]
        omega
  · push Not at hfound
    rw [respondStep_idle hfound]
    constructor
    · intro _ q hi hq
      apply absurd hq (hfound q hi)
    · intro _
      apply h

theorem countsSpend_step
    (s : Governed) (a : GovernorAct) (bounded : s.Bounded) (h : s.CountsSpend) :
  ((machine R).next s a).CountsSpend ↔ Corrects R s a
  := by
  cases a with
  | tick full interval wallNow grants =>
    constructor
    · intro _
      trivial
    · intro _
      apply countsSpend_tick
  | admitAt resource class' priority defaultForecast wallNow monoNow bucketWait =>
    apply countsSpend_admit h bounded
  | respond i reported headers wallNow => apply countsSpend_respond h bounded

/-! ### Every run -/

/-- The counter of the tick is what was spent since it began, after each step of a run, exactly
when each response corrects it by as much as the request it answers was mistaken by, and it stays
within its 32 bits. -/
theorem tickScheduled_counts_spend_iff (R : Rates) (as : List GovernorAct) :
  (∀ before after, as = before ++ after → ((machine R).final new before).CountsSpend)
    ↔ (machine R).Along (Corrects R) new as
  := by
  apply Machine.forall_reached_iff (F := fun _ _ => True) (J := Bounded)
  · intro resource
    rfl
  · intro resource
    apply Nat.zero_le
  · intro s a _
    apply bounded_step
  · intro s a _
    apply countsSpend_step
  · apply Machine.along_of_forall
    intro _ _
    trivial

/-- A budget left to background work of which nothing is kept back. -/
def wholeBudget : Rates := ⟨fun _ => 0, fun _ allowance => allowance⟩

/-- A sweep asks for a point, of the same operation, on each side of the start of a tick; the
response to the first then says that it cost five. -/
def lateResponse : List GovernorAct :=
  let ask := .admitAt .graphql "inbox" .sessioned 1 0 0 none
  [ask, .tick false 60 60 (fun _ => ⟨0, 0, false⟩), ask, .respond 0 (some 5) none 61]

/-- What a request of an earlier tick cost is charged to the current one: it has spent the point
of its own request, and its counter says five. -/
theorem lateResponse_charged :
  ¬ ∀ before after, lateResponse = before ++ after →
    ((machine wholeBudget).final new before).CountsSpend
  := by
  intro h
  have hcounts := h lateResponse [] (List.append_nil _).symm "graphql"
  revert hcounts
  decide +kernel

end Governed

end Lazybox.Github
