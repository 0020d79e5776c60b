import Mathlib.Algebra.GroupWithZero.Nat
import Lazybox.Core.ProviderOps

/-!
# The rate budget of the GitHub client

Requests are admitted against the points that remain of a primary window, as last observed, and
scheduled requests also against an allowance which each tick grants.  An admission is charged by
its forecast, and corrected by what the response says it cost.

The figures that the code computes in floating point are given: the reserve of a window and the
share of an allowance a priority may spend (`Rates`), what a tick grants a resource (`Grant`), and
how long the local token bucket makes a request wait.
-/

namespace Lazybox.Github

def u32Max : ℕ := 2 ^ 32 - 1

/-- Addition of 32 bits, saturating. -/
def addSat (m n : ℕ) : ℕ := min (m + n) u32Max

/-- Addition of 32 bits. -/
def addWrap (m n : ℕ) : ℕ := (m + n) % 2 ^ 32

def lowThreshold : ℕ := 100

def minBackgroundTickAllowance : ℕ := 30

def secondaryInteractiveGap : ℤ := 20

def secondaryInteractiveBurst : ℕ := 4

def focusedReserveGap : ℤ := 30

def focusedReserveBurst : ℕ := 4

inductive ApiResource where
  | graphql
  | rest (resource : String)
deriving DecidableEq, Repr

def ApiResource.key : ApiResource → String
  | graphql => "graphql"
  | rest resource => resource

inductive RequestPriority where
  | interactive
  | focused
  | sessioned
  | recent
  | cold
deriving DecidableEq, Repr

namespace RequestPriority

def isScheduled : RequestPriority → Bool
  | interactive => false
  | focused | sessioned | recent | cold => true

def label : RequestPriority → String
  | interactive => "interactive"
  | focused => "focused"
  | sessioned => "poll"
  | recent => "probe"
  | cold => "claim"

end RequestPriority

/-- What is computed from the share of the budget left to background work. -/
structure Rates where
  /-- The points of a window of a limit which are kept for interactive work. -/
  reserveFor : ℕ → ℕ
  /-- The share of an allowance which probes and claims may spend, rounded up. -/
  tickShare : RequestPriority → ℕ → ℕ

/-- The ceiling of a priority on what is spent within a tick. -/
def Rates.tickCeiling (R : Rates) (priority : RequestPriority) (allowance : ℕ) : ℕ :=
  match priority with
  | .interactive | .focused | .sessioned => allowance
  | .recent | .cold => min (R.tickShare priority allowance) allowance

inductive AcquireError where
  | localBudgetExhausted (waitSecs : ℕ)
  | remoteLow (remaining : ℕ) (resetAt : Instant)
  | reserveProtected (resource : String) (remaining reserve : ℕ) (resetAt : Instant)
  | tickAllowanceExhausted (resource : String) (allowance spent : ℕ) (tier : String)
      (waitSecs : ℕ)
  | circuitOpen (reason : String) (retryAt : Instant)
deriving DecidableEq, Repr

structure ResourceState where
  remaining : ℕ
  limit : ℕ
  resetAt : Instant
deriving DecidableEq, Repr

structure CircuitState where
  reason : String
  retryAt : Instant
deriving DecidableEq, Repr

structure Admission where
  forecast : ℕ
  scheduled : Bool
deriving DecidableEq, Repr

structure RateBudget where
  resources : String → Option ResourceState
  tickAllowance : String → Option ℕ
  tickScheduled : String → ℕ
  tickInterval : ℕ
  /-- The forecast of each class of operations that was seen. -/
  operations : String → Option ℕ
  /-- The admissions not answered, of each resource and class, oldest first. -/
  pending : String → String → List Admission
  secondaryCircuit : Option CircuitState
  secondaryInteractiveNext : Option Instant
  secondaryInteractiveUsed : ℕ
  focusedReserveNext : Option Instant
  focusedReserveUsed : ℕ
  primaryCircuits : String → Option CircuitState

namespace RateBudget

def new : RateBudget where
  resources := fun _ => none
  tickAllowance := fun _ => none
  tickScheduled := fun _ => 0
  tickInterval := 60
  operations := fun _ => none
  pending := fun _ _ => []
  secondaryCircuit := none
  secondaryInteractiveNext := none
  secondaryInteractiveUsed := 0
  focusedReserveNext := none
  focusedReserveUsed := 0
  primaryCircuits := fun _ => none

def forecast (b : RateBudget) (class' : String) (default : ℕ) : ℕ :=
  match b.operations class' with
  | none => max default 1
  | some forecast => max forecast 1

def expireCircuits (b : RateBudget) (now : Instant) : RateBudget :=
  { b with
    secondaryCircuit := b.secondaryCircuit.filter fun circuit => now < circuit.retryAt
    primaryCircuits := fun r => (b.primaryCircuits r).filter fun circuit => now < circuit.retryAt }

/-! ### Ticks -/

/-- What a tick finds for a resource: the credit it has grown to, before the cap, and what other
traffic on the token is projected to use until the reset, and whether there is any. -/
structure Grant where
  credit : ℕ
  projectedExternal : ℕ
  burning : Bool

/-- The allowance of a known window: the credit up to the headroom, with a floor under external
traffic.  An expired window is granted one sweep. -/
def grantAllowance (R : Rates) (state : ResourceState) (grant : Grant) (wallNow : Instant) : ℕ :=
  if state.resetAt ≤ wallNow then minBackgroundTickAllowance
  else
    let capacity := state.remaining - R.reserveFor state.limit
    let credit := min grant.credit (capacity - grant.projectedExternal)
    if grant.burning then max credit (min minBackgroundTickAllowance capacity) else credit

structure BackgroundPlan where
  graphqlPoints : ℕ
  restCorePoints : ℕ
  graphqlBudgetCurrent : Bool
  nextEligibleAt : Option Instant
  tickInterval : ℕ

/-- The budget of a new tick: nothing is spent, and each known window has its allowance. -/
def startTick (R : Rates) (b : RateBudget) (interval : ℕ) (wallNow : Instant)
    (grants : String → Grant) : RateBudget :=
  { b.expireCircuits wallNow with
    tickScheduled := fun _ => 0
    tickInterval := max interval 1
    tickAllowance := fun r =>
      (b.resources r).map fun state => grantAllowance R state (grants r) wallNow }

def plan (b : RateBudget) (wallNow : Instant) : BackgroundPlan where
  graphqlPoints := (b.tickAllowance "graphql").getD minBackgroundTickAllowance
  restCorePoints := (b.tickAllowance "core").getD minBackgroundTickAllowance
  graphqlBudgetCurrent := (b.resources "graphql").any fun state => wallNow < state.resetAt
  nextEligibleAt := b.secondaryCircuit.map CircuitState.retryAt
  tickInterval := b.tickInterval

def beginBackgroundTick (R : Rates) (b : RateBudget) (interval : ℕ) (wallNow : Instant)
    (grants : String → Grant) : RateBudget × BackgroundPlan :=
  let b := b.startTick R interval wallNow grants
  (b, b.plan wallNow)

/-- A requested reconcile may spend the whole window above the reserve, where it is known. -/
def beginFullRefreshTick (R : Rates) (b : RateBudget) (interval : ℕ) (wallNow : Instant)
    (grants : String → Grant) : RateBudget × BackgroundPlan :=
  let b := b.startTick R interval wallNow grants
  let b := { b with
    tickAllowance := fun r =>
      if r = "graphql" ∨ r = "core" then
        match (b.resources r).filter fun state => wallNow < state.resetAt with
        | some state => some (state.remaining - R.reserveFor state.limit)
        | none => b.tickAllowance r
      else b.tickAllowance r }
  (b, b.plan wallNow)

/-! ### Admission -/

/-- Whether a request passes an open secondary circuit: interactive ones do, a few in each gap. -/
def passSecondary (b : RateBudget) (priority : RequestPriority) (monoNow : Instant) :
    RateBudget × Bool :=
  if priority = .interactive then
    let b :=
      if b.secondaryInteractiveNext.all fun next => next ≤ monoNow then
        { b with
          secondaryInteractiveNext := some (monoNow + secondaryInteractiveGap)
          secondaryInteractiveUsed := 0 }
      else b
    if b.secondaryInteractiveUsed < secondaryInteractiveBurst then
      ({ b with secondaryInteractiveUsed := b.secondaryInteractiveUsed + 1 }, true)
    else (b, false)
  else (b, false)

/-- The secondary circuit, if it is open and does not let the request pass. -/
def secondaryGate (b : RateBudget) (priority : RequestPriority) (monoNow : Instant) :
    RateBudget × Option CircuitState :=
  match b.secondaryCircuit with
  | none => (b, none)
  | some circuit =>
      let (b, passes) := b.passSecondary priority monoNow
      (b, if passes then none else some circuit)

/-- Take a slot of the focused reserve, if there is one left in the gap. -/
def claimFocusedReserve (b : RateBudget) (priority : RequestPriority) (monoNow : Instant) :
    RateBudget × Bool :=
  if priority ≠ .focused then (b, false)
  else
    let b :=
      if b.focusedReserveNext.all fun next => next ≤ monoNow then
        { b with focusedReserveNext := some (monoNow + focusedReserveGap), focusedReserveUsed := 0 }
      else b
    if focusedReserveBurst ≤ b.focusedReserveUsed then (b, false)
    else ({ b with focusedReserveUsed := b.focusedReserveUsed + 1 }, true)

/-- What GitHub's window refuses: a request it has no points for, and a scheduled one which would
leave less than the emergency floor or the reserve. -/
def remoteGuard (R : Rates) (b : RateBudget) (resource : String) (priority : RequestPriority)
    (forecast : ℕ) (wallNow : Instant) : Option AcquireError :=
  match (b.resources resource).filter fun state => wallNow < state.resetAt with
  | none => none
  | some state =>
      let emergencyFloor := min lowThreshold (max ((state.limit + 49) / 50) 1)
      if priority.isScheduled && state.remaining ≤ emergencyFloor || state.remaining < forecast then
        some (.remoteLow state.remaining state.resetAt)
      else if priority.isScheduled && state.remaining - forecast < R.reserveFor state.limit then
        some (.reserveProtected resource state.remaining (R.reserveFor state.limit) state.resetAt)
      else none

/-- The allowance of the tick, for a scheduled request.  A request of the focused row may pass on
the reserve of such requests; whether it has is returned. -/
def tickGuard (R : Rates) (b : RateBudget) (resource : String) (priority : RequestPriority)
    (forecast : ℕ) (monoNow : Instant) : RateBudget × Except AcquireError Bool :=
  if priority.isScheduled then
    let allowance := (b.tickAllowance resource).getD minBackgroundTickAllowance
    let spent := b.tickScheduled resource
    let ceiling := R.tickCeiling priority allowance
    if addSat spent forecast > ceiling then
      let (b, reserved) := b.claimFocusedReserve priority monoNow
      if reserved then (b, .ok true)
      else
        (b, .error (.tickAllowanceExhausted resource ceiling spent priority.label
          (max b.tickInterval 1)))
    else (b, .ok false)
  else (b, .ok false)

/-- The local token bucket, which makes all but interactive requests wait when it is empty. -/
def bucketGuard (b : RateBudget) (priority : RequestPriority) (reserved : Bool)
    (bucketWait : Option ℕ) (monoNow : Instant) : RateBudget × Except AcquireError Unit :=
  match bucketWait with
  | none => (b, .ok ())
  | some waitSecs =>
      if priority ≠ .interactive && !reserved then
        let (b, claimed) := b.claimFocusedReserve priority monoNow
        if claimed then (b, .ok ()) else (b, .error (.localBudgetExhausted (max waitSecs 1)))
      else (b, .ok ())

/-- Charge an admission by its forecast, and have it wait for its response. -/
def charge (b : RateBudget) (resource class' : String) (scheduled : Bool) (forecast : ℕ) :
    RateBudget :=
  { b with
    tickScheduled :=
      if scheduled then
        Function.update b.tickScheduled resource (addWrap (b.tickScheduled resource) forecast)
      else b.tickScheduled
    operations := Function.update b.operations class' (some ((b.operations class').getD forecast))
    pending := fun r c =>
      if r = resource ∧ c = class' then b.pending r c ++ [⟨forecast, scheduled⟩]
      else b.pending r c }

/-- Admit a request, or say why not.  `bucketWait` is how long the local bucket makes it wait, when
that is empty. -/
def admitAt (R : Rates) (b : RateBudget) (resource : ApiResource) (class' : String)
    (priority : RequestPriority) (defaultForecast : ℕ) (wallNow monoNow : Instant)
    (bucketWait : Option ℕ) : RateBudget × Except AcquireError ℕ :=
  let (b, refusing) := (b.expireCircuits wallNow).secondaryGate priority monoNow
  match refusing.or (b.primaryCircuits resource.key) with
  | some circuit => (b, .error (.circuitOpen circuit.reason circuit.retryAt))
  | none =>
      let forecast := b.forecast class' defaultForecast
      match b.remoteGuard R resource.key priority forecast wallNow with
      | some error => (b, .error error)
      | none =>
          let (b, allowed) := b.tickGuard R resource.key priority forecast monoNow
          match allowed with
          | .error error => (b, .error error)
          | .ok reserved =>
              let (b, ready) := b.bucketGuard priority reserved bucketWait monoNow
              match ready with
              | .error error => (b, .error error)
              | .ok () =>
                  (b.charge resource.key class' priority.isScheduled forecast, .ok forecast)

/-! ### Responses -/

def openPrimaryCircuit (b : RateBudget) (resource reason : String) (retryAt : Instant) :
    RateBudget :=
  if (b.primaryCircuits resource).all fun current => current.retryAt < retryAt then
    { b with
      primaryCircuits := Function.update b.primaryCircuits resource (some ⟨reason, retryAt⟩) }
  else b

/-- Account for a response: the oldest admission of its resource and class is taken as answered,
and its forecast replaced by what the response cost, as far as it says so. -/
def recordResponse (b : RateBudget) (resource class' : String) (reported : Option ℕ) :
    RateBudget :=
  let admission := (b.pending resource class').head?
  let forecast := (admission.map Admission.forecast).getD (b.forecast class' 1)
  let actual := reported.getD forecast
  { b with
    pending := fun r c =>
      if r = resource ∧ c = class' then (b.pending r c).tail else b.pending r c
    tickScheduled :=
      match admission with
      | some ⟨forecast, true⟩ =>
          Function.update b.tickScheduled resource
            (addSat (b.tickScheduled resource - forecast) actual)
      | _ => b.tickScheduled
    operations := Function.update b.operations class'
      (some (max (max ((b.operations class').getD forecast) actual) 1)) }

/-- Take in what a response says remains of a window.  An older window is ignored, and within one
the least that was seen remains. -/
def observePrimary (b : RateBudget) (resource : String) (limit remaining : ℕ)
    (resetAt wallNow : Instant) : RateBudget :=
  match b.resources resource with
  | some previous =>
      if resetAt < previous.resetAt then b
      else
        let state :=
          if resetAt = previous.resetAt then
            ⟨min previous.remaining remaining, max previous.limit limit, previous.resetAt⟩
          else ⟨remaining, limit, resetAt⟩
        observed state
  | none => observed ⟨remaining, limit, resetAt⟩
where
  observed (state : ResourceState) : RateBudget :=
    let b := { b with resources := Function.update b.resources resource (some state) }
    if remaining = 0 ∧ wallNow < resetAt then
      b.openPrimaryCircuit resource (resource ++ " primary budget exhausted") (resetAt + 1)
    else b

/-! ### What an admission changes -/

/-- The books are the same: what is known of the windows, what a tick grants and has spent, the
forecasts, and the admissions not answered. -/
structure SameBooks (b b' : RateBudget) : Prop where
  resources : b'.resources = b.resources
  tickAllowance : b'.tickAllowance = b.tickAllowance
  tickScheduled : b'.tickScheduled = b.tickScheduled
  operations : b'.operations = b.operations
  pending : b'.pending = b.pending

namespace SameBooks

variable {b b' b'' : RateBudget}

theorem refl (b : RateBudget) : SameBooks b b := ⟨rfl, rfl, rfl, rfl, rfl⟩

theorem trans (h : SameBooks b b') (h' : SameBooks b' b'') :
  SameBooks b b''
  := ⟨h'.resources.trans h.resources, h'.tickAllowance.trans h.tickAllowance,
    h'.tickScheduled.trans h.tickScheduled, h'.operations.trans h.operations,
    h'.pending.trans h.pending⟩

theorem forecast (h : SameBooks b b') (class' : String) (default : ℕ) :
  b'.forecast class' default = b.forecast class' default
  := by
  rw [RateBudget.forecast, h.operations, RateBudget.forecast]

theorem remoteGuard (h : SameBooks b b') (R : Rates) (resource : String)
    (priority : RequestPriority) (forecast : ℕ) (wallNow : Instant) :
  b'.remoteGuard R resource priority forecast wallNow
    = b.remoteGuard R resource priority forecast wallNow
  := by
  rw [RateBudget.remoteGuard, h.resources, RateBudget.remoteGuard]

end SameBooks

section Guards

variable (R : Rates) (b : RateBudget)

theorem expireCircuits_books (now : Instant) :
  SameBooks b (b.expireCircuits now)
  := ⟨rfl, rfl, rfl, rfl, rfl⟩

variable (priority : RequestPriority)

theorem passSecondary_books (monoNow : Instant) :
  SameBooks b (b.passSecondary priority monoNow).1
  := by
  unfold passSecondary
  split
  · dsimp only
    split <;> split <;> exact ⟨rfl, rfl, rfl, rfl, rfl⟩
  · apply SameBooks.refl

theorem secondaryGate_books (monoNow : Instant) :
  SameBooks b (b.secondaryGate priority monoNow).1
  := by
  unfold secondaryGate
  split
  · apply SameBooks.refl
  · apply passSecondary_books

theorem claimFocusedReserve_books (monoNow : Instant) :
  SameBooks b (b.claimFocusedReserve priority monoNow).1
  := by
  unfold claimFocusedReserve
  split
  · apply SameBooks.refl
  · dsimp only
    split <;> split <;> exact ⟨rfl, rfl, rfl, rfl, rfl⟩

theorem tickGuard_books
    (resource : String) (priority : RequestPriority) (forecast : ℕ) (monoNow : Instant) :
  SameBooks b (b.tickGuard R resource priority forecast monoNow).1
  := by
  unfold tickGuard
  split
  · dsimp only
    split
    · split <;> apply claimFocusedReserve_books
    · apply SameBooks.refl
  · apply SameBooks.refl

theorem bucketGuard_books (reserved : Bool) (bucketWait : Option ℕ) (monoNow : Instant) :
  SameBooks b (b.bucketGuard priority reserved bucketWait monoNow).1
  := by
  unfold bucketGuard
  split
  · apply SameBooks.refl
  · split
    · dsimp only
      split <;> apply claimFocusedReserve_books
    · apply SameBooks.refl

end Guards

/-- What an admission does: it leaves the books as they are when it refuses, and charges the
forecast when it grants a request, which the window did not refuse. -/
inductive Admits (R : Rates) (b : RateBudget) (resource class' : String)
    (priority : RequestPriority) (defaultForecast : ℕ) (wallNow : Instant) :
    RateBudget × Except AcquireError ℕ → Prop where
  | refused {b' : RateBudget} (error : AcquireError) (books : SameBooks b b') :
      Admits R b resource class' priority defaultForecast wallNow (b', .error error)
  | granted {b' : RateBudget} (books : SameBooks b b')
      (window : b.remoteGuard R resource priority (b.forecast class' defaultForecast) wallNow
        = none) :
      Admits R b resource class' priority defaultForecast wallNow
        (b'.charge resource class' priority.isScheduled (b.forecast class' defaultForecast),
          .ok (b.forecast class' defaultForecast))

theorem admitAt_admits (R : Rates) (b : RateBudget) (resource : ApiResource) (class' : String)
    (priority : RequestPriority) (defaultForecast : ℕ) (wallNow monoNow : Instant)
    (bucketWait : Option ℕ) :
  Admits R b resource.key class' priority defaultForecast wallNow
    (b.admitAt R resource class' priority defaultForecast wallNow monoNow bucketWait)
  := by
  have hgate := ((b.expireCircuits_books wallNow).trans
    ((b.expireCircuits wallNow).secondaryGate_books priority monoNow))
  unfold admitAt
  generalize (b.expireCircuits wallNow).secondaryGate priority monoNow = gate at hgate ⊢
  obtain ⟨b₁, refusing⟩ := gate
  dsimp only at hgate ⊢
  rw [hgate.forecast, hgate.remoteGuard]
  split
  · apply Admits.refused _ hgate
  · split
    · apply Admits.refused _ hgate
    · next hwindow =>
        have htick := hgate.trans (b₁.tickGuard_books R resource.key priority
          (b.forecast class' defaultForecast) monoNow)
        generalize b₁.tickGuard R resource.key priority _ monoNow = ticked at htick ⊢
        obtain ⟨b₂, allowed⟩ := ticked
        cases allowed with
        | error error => apply Admits.refused _ htick
        | ok reserved =>
          have hbucket := htick.trans (b₂.bucketGuard_books priority reserved bucketWait monoNow)
          dsimp only
          generalize b₂.bucketGuard priority reserved bucketWait monoNow = waited at hbucket ⊢
          obtain ⟨b₃, ready⟩ := waited
          cases ready with
          | error error => apply Admits.refused _ hbucket
          | ok _ => apply Admits.granted hbucket hwindow

end RateBudget

end Lazybox.Github
