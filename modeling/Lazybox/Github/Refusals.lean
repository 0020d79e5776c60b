import Lazybox.Github.RateBudget

/-!
# What a refusal costs

A request passes five gates: the secondary circuit, the primary circuit of its resource, what
remains of the window, the allowance of the tick, and the local token bucket.  Two of them count
who passes.  An open secondary circuit lets a few interactive requests through in each gap, and the
focused reserve lets a few requests of the focused row past the allowance and the bucket.  A slot
of the focused reserve is only taken by a request that is admitted, since no gate after it refuses
one that has it.  But an interactive request takes a slot of the secondary circuit before it comes
to the primary circuit and to the window, and both may refuse it.
-/

namespace Lazybox.Github

/-- The local token bucket, whose tokens are counted in floating point. -/
structure TokenBucket (β : Type) where
  refillAt : β → Instant → β
  /-- There is less than one token. -/
  isShort : β → Bool
  waitSecs : β → ℕ
  take : β → β

/-- The budget, with its token bucket and the points forecast by scheduled requests, since the
tick began and in total. -/
structure Governor (β : Type) where
  budget : RateBudget
  bucket : β
  tickForecastPoints : ℕ
  totalForecastPoints : ℕ

namespace Governor

variable {β : Type} (T : TokenBucket β) (R : Rates)

/-- Admit a request, or say why not. -/
def admitAt (g : Governor β) (resource : ApiResource) (class' : String)
    (priority : RequestPriority) (defaultForecast : ℕ) (wallNow monoNow : Instant) :
    Governor β × Except AcquireError ℕ :=
  let (b, refusing) := (g.budget.expireCircuits wallNow).secondaryGate priority monoNow
  match refusing.or (b.primaryCircuits resource.key) with
  | some circuit => ({ g with budget := b }, .error (.circuitOpen circuit.reason circuit.retryAt))
  | none =>
      let forecast := b.forecast class' defaultForecast
      match b.remoteGuard R resource.key priority forecast wallNow with
      | some error => ({ g with budget := b }, .error error)
      | none =>
          let (b, allowed) := b.tickGuard R resource.key priority forecast monoNow
          match allowed with
          | .error error => ({ g with budget := b }, .error error)
          | .ok reserved =>
              let bucket := T.refillAt g.bucket monoNow
              let bucketWait := if T.isShort bucket then some (T.waitSecs bucket) else none
              let (b, ready) := b.bucketGuard priority reserved bucketWait monoNow
              match ready with
              | .error error => ({ g with budget := b, bucket := bucket }, .error error)
              | .ok () =>
                  let points := if priority.isScheduled then forecast else 0
                  ({ budget := b.charge resource.key class' priority.isScheduled forecast
                     bucket := T.take bucket
                     tickForecastPoints := g.tickForecastPoints + points
                     totalForecastPoints := g.totalForecastPoints + points },
                   .ok forecast)

end Governor

namespace RateBudget

/-! ### Slots -/

/-- The gap of the slots has passed, or there is one left in it. -/
def slotFree (next : Option Instant) (used burst : ℕ) (monoNow : Instant) : Prop :=
  (next.all fun next => next ≤ monoNow) ∨ used < burst

instance (next : Option Instant) (used burst : ℕ) (monoNow : Instant) :
    Decidable (slotFree next used burst monoNow) :=
  inferInstanceAs (Decidable (_ ∨ _))

/-- An open secondary circuit lets the request pass. -/
def PassesSecondary (b : RateBudget) (priority : RequestPriority) (monoNow : Instant) : Prop :=
  b.secondaryCircuit.isSome ∧ priority = .interactive
    ∧ slotFree b.secondaryInteractiveNext b.secondaryInteractiveUsed secondaryInteractiveBurst
      monoNow

instance (b : RateBudget) (priority : RequestPriority) (monoNow : Instant) :
    Decidable (b.PassesSecondary priority monoNow) :=
  inferInstanceAs (Decidable (_ ∧ _))

/-- The budget once a slot of the secondary circuit is taken. -/
def takeInteractive (b : RateBudget) (monoNow : Instant) : RateBudget :=
  if b.secondaryInteractiveNext.all fun next => next ≤ monoNow then
    { b with
      secondaryInteractiveNext := some (monoNow + secondaryInteractiveGap)
      secondaryInteractiveUsed := 1 }
  else { b with secondaryInteractiveUsed := b.secondaryInteractiveUsed + 1 }

variable {b b' : RateBudget} {priority : RequestPriority} {monoNow : Instant}

theorem passSecondary_eq (free : priority = .interactive
      ∧ slotFree b.secondaryInteractiveNext b.secondaryInteractiveUsed secondaryInteractiveBurst
        monoNow) :
  b.passSecondary priority monoNow = (b.takeInteractive monoNow, true)
  := by
  obtain ⟨rfl, free⟩ := free
  rw [passSecondary, if_pos rfl, takeInteractive]
  by_cases hpassed : b.secondaryInteractiveNext.all fun next => next ≤ monoNow
  · simp only [hpassed, if_true]
    rw [if_pos (by decide)]
  · simp only [hpassed, Bool.false_eq_true, if_false]
    rw [if_pos (free.resolve_left hpassed)]

theorem passSecondary_of_not (taken : ¬(priority = .interactive
      ∧ slotFree b.secondaryInteractiveNext b.secondaryInteractiveUsed secondaryInteractiveBurst
        monoNow)) :
  b.passSecondary priority monoNow = (b, false)
  := by
  rw [passSecondary]
  split
  · next hinteractive =>
      have hnone := not_or.mp fun free => taken ⟨hinteractive, free⟩
      simp only [hnone.1, Bool.false_eq_true, if_false]
      rw [if_neg hnone.2]
  · rfl

/-- A slot is taken when an open circuit lets the request pass, and otherwise the circuit refuses
it, if it is open. -/
theorem secondaryGate_eq (b : RateBudget) (priority : RequestPriority) (monoNow : Instant) :
  b.secondaryGate priority monoNow
    = if b.PassesSecondary priority monoNow then (b.takeInteractive monoNow, none)
      else (b, b.secondaryCircuit)
  := by
  rw [secondaryGate]
  cases hopen : b.secondaryCircuit with
  | none => simp [PassesSecondary, hopen]
  | some circuit =>
    dsimp only
    by_cases hfree : priority = .interactive
        ∧ slotFree b.secondaryInteractiveNext b.secondaryInteractiveUsed
          secondaryInteractiveBurst monoNow
    · rw [passSecondary_eq hfree]
      have hpasses : b.PassesSecondary priority monoNow := ⟨by rw [hopen]; rfl, hfree⟩
      rw [if_pos hpasses]
      rfl
    · rw [passSecondary_of_not hfree]
      have hstays : ¬b.PassesSecondary priority monoNow := fun h => hfree h.2
      rw [if_neg hstays]
      rfl

/-- Who is refused a slot of the focused reserve has not changed it. -/
theorem eq_of_not_claimed (h : b.claimFocusedReserve priority monoNow = (b', false)) :
  b' = b
  := by
  rw [claimFocusedReserve] at h
  split at h
  · exact (congrArg Prod.fst h).symm
  · by_cases hpassed : b.focusedReserveNext.all fun next => next ≤ monoNow
    · -- a gap that has passed has slots again
      simp only [hpassed, if_true] at h
      rw [if_neg (by decide)] at h
      cases h
    · simp only [hpassed, Bool.false_eq_true, if_false] at h
      split at h
      · exact (congrArg Prod.fst h).symm
      · cases h

/-! ### Gates that refuse -/

theorem tickGuard_of_error {R : Rates} {resource : String} {forecast : ℕ} {error : AcquireError}
    (h : b.tickGuard R resource priority forecast monoNow = (b', .error error)) :
  b' = b ∧ priority.isScheduled
  := by
  rw [tickGuard] at h
  split at h
  · next hscheduled =>
      dsimp only at h
      split at h
      · generalize hclaim : b.claimFocusedReserve priority monoNow = claim at h
        obtain ⟨claimed, reserved⟩ := claim
        cases reserved with
        | true => cases h
        | false =>
          obtain rfl := eq_of_not_claimed hclaim
          exact ⟨(congrArg Prod.fst h).symm, hscheduled⟩
      · cases h
  · cases h

theorem tickGuard_of_unreserved {R : Rates} {resource : String} {forecast : ℕ}
    (h : b.tickGuard R resource priority forecast monoNow = (b', .ok false)) :
  b' = b
  := by
  rw [tickGuard] at h
  split at h
  · dsimp only at h
    split at h
    · generalize b.claimFocusedReserve priority monoNow = claim at h
      obtain ⟨claimed, reserved⟩ := claim
      cases reserved with
      | true => cases h
      | false => cases h
    · exact (congrArg Prod.fst h).symm
  · exact (congrArg Prod.fst h).symm

theorem bucketGuard_of_error {reserved : Bool} {bucketWait : Option ℕ} {error : AcquireError}
    (h : b.bucketGuard priority reserved bucketWait monoNow = (b', .error error)) :
  b' = b ∧ reserved = false ∧ priority ≠ .interactive
  := by
  unfold bucketGuard at h
  split at h
  · cases h
  · split at h
    · next hwaits =>
        rw [Bool.and_eq_true, decide_eq_true_iff, Bool.not_eq_true'] at hwaits
        generalize hclaim : b.claimFocusedReserve priority monoNow = claim at h
        obtain ⟨claimed, passes⟩ := claim
        cases passes with
        | true => cases h
        | false =>
          obtain rfl := eq_of_not_claimed hclaim
          exact ⟨(congrArg Prod.fst h).symm, hwaits.2, hwaits.1⟩
    · cases h

/-! ### Interactive requests -/

/-- The window refuses an interactive request only when it has no points for it. -/
theorem remoteGuard_interactive
    (R : Rates) (b : RateBudget) (resource : String) (forecast : ℕ) (wallNow : Instant) :
  b.remoteGuard R resource .interactive forecast wallNow = none
    ↔ ¬∃ state ∈ b.resources resource, wallNow < state.resetAt ∧ state.remaining < forecast
  := by
  rw [remoteGuard]
  cases b.resources resource with
  | none => simp
  | some state =>
    by_cases hcurrent : wallNow < state.resetAt
    · simp [Option.filter, hcurrent, RequestPriority.isScheduled]
    · simp [Option.filter, hcurrent]

theorem tickGuard_interactive
    (R : Rates) (b : RateBudget) (resource : String) (forecast : ℕ) (monoNow : Instant) :
  b.tickGuard R resource .interactive forecast monoNow = (b, .ok false)
  := rfl

theorem bucketGuard_interactive
    (b : RateBudget) (reserved : Bool) (bucketWait : Option ℕ) (monoNow : Instant) :
  b.bucketGuard .interactive reserved bucketWait monoNow = (b, .ok ())
  := by
  unfold bucketGuard
  split <;> rfl

end RateBudget

/-! ### Refused requests -/

/-- The slots of a gap are as before, or the gap has passed and none is taken of the next one. -/
def SlotsKept (gap : ℤ) (monoNow : Instant) (before after : Option Instant × ℕ) : Prop :=
  after = before
    ∨ (before.1.all fun next => next ≤ monoNow) ∧ after = (some (monoNow + gap), 0)

/-- A taken slot is missing. -/
theorem not_slotsKept_takeInteractive (b : RateBudget) (monoNow : Instant) :
  ¬SlotsKept secondaryInteractiveGap monoNow
    (b.secondaryInteractiveNext, b.secondaryInteractiveUsed)
    ((b.takeInteractive monoNow).secondaryInteractiveNext,
      (b.takeInteractive monoNow).secondaryInteractiveUsed)
  := by
  rw [SlotsKept, RateBudget.takeInteractive]
  by_cases hpassed : b.secondaryInteractiveNext.all fun next => next ≤ monoNow
  · rw [if_pos hpassed]
    rintro (hsame | ⟨-, hrolled⟩)
    · have hnext : some (monoNow + secondaryInteractiveGap) = b.secondaryInteractiveNext :=
        (Prod.ext_iff.mp hsame).1
      rw [← hnext] at hpassed
      have hlater : monoNow < monoNow + secondaryInteractiveGap :=
        Int.lt_add_of_pos_right monoNow (by decide)
      apply hlater.not_ge
      simpa using hpassed
    · cases (Prod.ext_iff.mp hrolled).2
  · rw [if_neg hpassed]
    rintro (hsame | ⟨hrolls, -⟩)
    · exact Nat.succ_ne_self _ (Prod.ext_iff.mp hsame).2
    · exact hpassed hrolls

namespace Governor

variable {β : Type} (T : TokenBucket β) (R : Rates)

/-- The governor is as before, but for circuits that expired, tokens that were refilled, and gaps
that have passed. -/
structure CostsNothing (wallNow monoNow : Instant) (g g' : Governor β) : Prop where
  books : RateBudget.SameBooks g.budget g'.budget
  tickInterval : g'.budget.tickInterval = g.budget.tickInterval
  secondaryCircuit :
    g'.budget.secondaryCircuit = (g.budget.expireCircuits wallNow).secondaryCircuit
  primaryCircuits : g'.budget.primaryCircuits = (g.budget.expireCircuits wallNow).primaryCircuits
  interactive : SlotsKept secondaryInteractiveGap monoNow
    (g.budget.secondaryInteractiveNext, g.budget.secondaryInteractiveUsed)
    (g'.budget.secondaryInteractiveNext, g'.budget.secondaryInteractiveUsed)
  focused : SlotsKept focusedReserveGap monoNow
    (g.budget.focusedReserveNext, g.budget.focusedReserveUsed)
    (g'.budget.focusedReserveNext, g'.budget.focusedReserveUsed)
  bucket : g'.bucket = g.bucket ∨ g'.bucket = T.refillAt g.bucket monoNow
  tickForecastPoints : g'.tickForecastPoints = g.tickForecastPoints
  totalForecastPoints : g'.totalForecastPoints = g.totalForecastPoints

/-- An open secondary circuit lets the request pass, and then the primary circuit of its resource,
or the window, refuses it. -/
def PassesInVain (g : Governor β) (resource : ApiResource) (class' : String)
    (priority : RequestPriority) (defaultForecast : ℕ) (wallNow monoNow : Instant) : Prop :=
  (g.budget.expireCircuits wallNow).PassesSecondary priority monoNow
    ∧ (((g.budget.expireCircuits wallNow).primaryCircuits resource.key).isSome
      ∨ ∃ state ∈ g.budget.resources resource.key,
        wallNow < state.resetAt ∧ state.remaining < g.budget.forecast class' defaultForecast)

variable {T R} {g g' : Governor β} {resource : ApiResource} {class' : String}
  {priority : RequestPriority} {defaultForecast : ℕ} {wallNow monoNow : Instant}

/-- A refusal leaves what the secondary circuit left, but for a refill of the bucket. -/
theorem admitAt_of_error {error : AcquireError}
    (h : g.admitAt T R resource class' priority defaultForecast wallNow monoNow
      = (g', .error error)) :
  g'.budget = ((g.budget.expireCircuits wallNow).secondaryGate priority monoNow).1
    ∧ (g'.bucket = g.bucket ∨ g'.bucket = T.refillAt g.bucket monoNow)
    ∧ g'.tickForecastPoints = g.tickForecastPoints
    ∧ g'.totalForecastPoints = g.totalForecastPoints
  := by
  unfold admitAt at h
  generalize (g.budget.expireCircuits wallNow).secondaryGate priority monoNow = gate at h ⊢
  obtain ⟨b, refusing⟩ := gate
  dsimp only at h ⊢
  split at h
  · obtain rfl := congrArg Prod.fst h
    exact ⟨rfl, Or.inl rfl, rfl, rfl⟩
  · split at h
    · obtain rfl := congrArg Prod.fst h
      exact ⟨rfl, Or.inl rfl, rfl, rfl⟩
    · generalize hticked : b.tickGuard R resource.key priority _ monoNow = ticked at h
      obtain ⟨b', allowed⟩ := ticked
      cases allowed with
      | error error =>
        obtain ⟨rfl, -⟩ := RateBudget.tickGuard_of_error hticked
        obtain rfl := congrArg Prod.fst h
        exact ⟨rfl, Or.inl rfl, rfl, rfl⟩
      | ok reserved =>
        dsimp only at h
        generalize hwaited : b'.bucketGuard priority reserved _ monoNow = waited at h
        obtain ⟨b'', ready⟩ := waited
        cases ready with
        | error error =>
          -- the bucket refuses nobody who has a slot of the focused reserve
          obtain ⟨rfl, rfl, -⟩ := RateBudget.bucketGuard_of_error hwaited
          obtain rfl := RateBudget.tickGuard_of_unreserved hticked
          obtain rfl := congrArg Prod.fst h
          exact ⟨rfl, Or.inr rfl, rfl, rfl⟩
        | ok _ => cases congrArg Prod.snd h

/-- A request which an open secondary circuit lets pass is refused by the primary circuit or by
the window, or not at all. -/
theorem refused_iff_inVain
    (passes : (g.budget.expireCircuits wallNow).PassesSecondary priority monoNow) :
  (∃ g' error, g.admitAt T R resource class' priority defaultForecast wallNow monoNow
      = (g', .error error))
    ↔ g.PassesInVain resource class' priority defaultForecast wallNow monoNow
  := by
  have hgate := RateBudget.secondaryGate_eq (g.budget.expireCircuits wallNow) priority monoNow
  rw [if_pos passes] at hgate
  have hbooks := (g.budget.expireCircuits_books wallNow).trans
    (RateBudget.secondaryGate_books (g.budget.expireCircuits wallNow) priority monoNow)
  have hprimary : ((g.budget.expireCircuits wallNow).takeInteractive monoNow).primaryCircuits
      = (g.budget.expireCircuits wallNow).primaryCircuits := by
    rw [RateBudget.takeInteractive]
    split <;> rfl
  rw [hgate] at hbooks
  obtain ⟨-, rfl, -⟩ := id passes
  unfold admitAt
  rw [hgate]
  dsimp only
  rw [hprimary, hbooks.forecast, hbooks.remoteGuard, Option.none_or]
  cases hcircuit : (g.budget.expireCircuits wallNow).primaryCircuits resource.key with
  | some circuit =>
    apply iff_of_true
    · exact ⟨_, _, rfl⟩
    · exact ⟨passes, Or.inl (by rw [hcircuit]; rfl)⟩
  | none =>
    dsimp only
    have hvain : g.PassesInVain resource class' .interactive defaultForecast wallNow monoNow
        ↔ ∃ state ∈ g.budget.resources resource.key,
          wallNow < state.resetAt
            ∧ state.remaining < g.budget.forecast class' defaultForecast := by
      rw [PassesInVain, hcircuit]
      constructor
      · rintro ⟨-, hnone | hwindow⟩
        · cases hnone
        · apply hwindow
      · intro hwindow
        exact ⟨passes, Or.inr hwindow⟩
    rw [hvain]
    cases hwindow : g.budget.remoteGuard R resource.key .interactive
        (g.budget.forecast class' defaultForecast) wallNow with
    | some error =>
      apply iff_of_true
      · exact ⟨_, _, rfl⟩
      · by_contra hnone
        rw [(RateBudget.remoteGuard_interactive _ _ _ _ _).mpr hnone] at hwindow
        cases hwindow
    | none =>
      apply iff_of_false
      · dsimp only
        rw [RateBudget.tickGuard_interactive]
        dsimp only
        rw [RateBudget.bucketGuard_interactive]
        rintro ⟨g', error, h⟩
        cases congrArg Prod.snd h
      · apply (RateBudget.remoteGuard_interactive _ _ _ _ _).mp hwindow

/-- A refused request costs nothing, unless it passes an open secondary circuit in vain. -/
theorem refusal_costsNothing_iff
    (T : TokenBucket β) (R : Rates) (g : Governor β) (resource : ApiResource) (class' : String)
    (priority : RequestPriority) (defaultForecast : ℕ) (wallNow monoNow : Instant) :
  (∀ g' error,
      g.admitAt T R resource class' priority defaultForecast wallNow monoNow = (g', .error error) →
        CostsNothing T wallNow monoNow g g')
    ↔ ¬g.PassesInVain resource class' priority defaultForecast wallNow monoNow
  := by
  constructor
  · intro costs vain
    obtain ⟨g', error, refused⟩ := (refused_iff_inVain (T := T) (R := R) vain.1).mpr vain
    have hkept := (costs g' error refused).interactive
    obtain ⟨hbudget, -⟩ := admitAt_of_error refused
    rw [RateBudget.secondaryGate_eq, if_pos vain.1] at hbudget
    rw [hbudget] at hkept
    exact not_slotsKept_takeInteractive (g.budget.expireCircuits wallNow) monoNow hkept
  · intro spared g' error refused
    obtain ⟨hbudget, hbucket, htick, htotal⟩ := admitAt_of_error refused
    have hstays : ¬(g.budget.expireCircuits wallNow).PassesSecondary priority monoNow := by
      intro passes
      apply spared
      apply (refused_iff_inVain passes).mp ⟨g', error, refused⟩
    rw [RateBudget.secondaryGate_eq, if_neg hstays] at hbudget
    constructor
    · rw [hbudget]
      apply RateBudget.expireCircuits_books
    · rw [hbudget]
      rfl
    · rw [hbudget]
    · rw [hbudget]
    · rw [hbudget]
      left
      rfl
    · rw [hbudget]
      left
      rfl
    · apply hbucket
    · apply htick
    · apply htotal

/-- A bucket that is counted in whole tokens, and not refilled. -/
def wholeTokens : TokenBucket ℕ := ⟨fun n _ => n, fun n => n = 0, fun _ => 1, fun n => n - 1⟩

/-- A governor in a secondary cooldown, with the REST window of searches exhausted. -/
def coolingDown : Governor ℕ where
  budget := { RateBudget.new with
    secondaryCircuit := some ⟨"GitHub secondary rate limit", 60⟩
    primaryCircuits := fun r => if r = "search" then some ⟨"search exhausted", 600⟩ else none }
  bucket := 10
  tickForecastPoints := 0
  totalForecastPoints := 0

/-- A search of the user is refused, and takes a slot all the same. -/
theorem refused_search_takesSlot :
  let R : Rates := ⟨fun _ => 0, fun _ n => n⟩
  ∃ g' error, coolingDown.admitAt wholeTokens R (.rest "search") "search_issues" .interactive 1 0 0
      = (g', .error error)
    ∧ coolingDown.budget.secondaryInteractiveUsed = 0 ∧ g'.budget.secondaryInteractiveUsed = 1
    ∧ ¬CostsNothing wholeTokens 0 0 coolingDown g'
  := by
  intro R
  refine ⟨_, _, rfl, rfl, rfl, ?_⟩
  rintro ⟨-, -, -, -, hkept, -⟩
  exact not_slotsKept_takeInteractive coolingDown.budget 0 hkept

end Governor

end Lazybox.Github
