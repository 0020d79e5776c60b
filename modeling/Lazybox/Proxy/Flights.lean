import Lazybox.Proxy.CompactionGuarded

/-!
# Requests on their way

Of several requests of a session the responses arrive in any order, and what each of them does is
judged by what the session holds by then: whether a request of it was ever rewritten, and whether
the last one that began ran under a mode that rewrites.  A response is judged by its own request
(`OwnRequest`) as long as these agree with the request itself (`Undisturbed`).
-/

namespace Lazybox.Compaction

variable {S V : Type}

/-! ### The proxy -/

/-- How far a request has come. -/
inductive Stage where
  | sent
  /-- Its saving was committed. -/
  | committed
  | judged
deriving DecidableEq, Repr

/-- A request that was forwarded. -/
structure Flight where
  agentId : String
  session : String
  rewritten : Rewritten
  stage : Stage
deriving DecidableEq, Repr

/-- The body that was forwarded was rewritten. -/
def Flight.rewrote (flight : Flight) : Bool := flight.rewritten.pending.any Pending.rewrote

structure Proxy (S : Type) where
  sessions : Sessions S
  flights : List Flight

inductive FlightAct (V : Type) where
  | send (request : Request V) (agentId : String)
  /-- A response completes, with its usage: first its saving is committed, -/
  | commit (i : ℕ)
  /-- and then its usage is observed. -/
  | observe (i : ℕ) (usage : AgentUsage)

namespace Proxy

def start : Proxy S := ⟨[], []⟩

def send (pass : Pass V) (s : Proxy S) (request : Request V) (agentId : String) : Proxy S :=
  let (sessions, rewritten) := rewrite pass s.sessions request
  ⟨sessions, s.flights ++ [⟨agentId, request.session, rewritten, .sent⟩]⟩

/-- The flight of an index, if it has come so far. -/
def flightAt (s : Proxy S) (i : ℕ) (stage : Stage) : Option Flight :=
  s.flights[i]?.filter (·.stage = stage)

def commit (s : Proxy S) (i : ℕ) : Proxy S × List Report :=
  match s.flightAt i .sent with
  | none => (s, [])
  | some flight =>
      let (sessions, reports) :=
        match flight.rewritten.pending with
        | none => (s.sessions, [])
        | some pending =>
            Compaction.commit s.sessions flight.session flight.agentId pending
      (⟨sessions, s.flights.set i { flight with stage := .committed }⟩, reports)

section Observe

variable [LE S] [LT S] [Mul S] [DecidableLE S] [DecidableLT S] (shares : Shares S) (pass : Pass V)

def observe (s : Proxy S) (i : ℕ) (usage : AgentUsage) : Proxy S × List Report :=
  match s.flightAt i .committed with
  | none => (s, [])
  | some flight =>
      let (sessions, reports) :=
        observeUsage shares s.sessions flight.session flight.agentId usage
          flight.rewritten.measured
      (⟨sessions, s.flights.set i { flight with stage := .judged }⟩, reports)

def step (s : Proxy S) : FlightAct V → Proxy S × List Report
  | .send request agentId => (s.send pass request agentId, [])
  | .commit i => s.commit i
  | .observe i usage => s.observe shares i usage

def machine : Machine (Proxy S) (FlightAct V) Report := ⟨step shares pass⟩

end Observe

end Proxy

namespace Proxy

/-- The session of a request that was rewritten was rewritten, and has a baseline. -/
def Marked (s : Proxy S) : Prop :=
  ∀ flight ∈ s.flights, flight.rewrote = true →
    flight.rewritten.measured = true
      ∧ (stateOf s.sessions flight.session).rewrote = true
      ∧ ∃ baseline, (stateOf s.sessions flight.session).baselineShare = some baseline

theorem marked_start :
  (start : Proxy S).Marked
  := by
  intro flight hflight
  cases hflight

theorem mem_of_flightAt
    {s : Proxy S} {i : ℕ} {stage : Stage} {flight : Flight} (h : s.flightAt i stage = some flight) :
  flight ∈ s.flights
  := by
  rw [flightAt, Option.filter_eq_some_iff] at h
  apply List.mem_of_getElem? h.1

/-- A request that comes further is the same request. -/
theorem Marked.advance {s : Proxy S} (h : s.Marked) {i : ℕ} {stage stage' : Stage} {flight : Flight}
    (hflight : s.flightAt i stage = some flight) :
  Marked ⟨s.sessions, s.flights.set i { flight with stage := stage' }⟩
  := by
  intro other hother hrewrote
  obtain hother | rfl := List.mem_or_eq_of_mem_set hother
  · apply h other hother hrewrote
  · apply h flight (mem_of_flightAt hflight) hrewrote

end Proxy

/-! ### The degraded turns -/

section Turns

variable [LT S] [Mul S] [DecidableLT S] (shares : Shares S)

/-- The degraded turns in a row, once one more share is compared with the baseline. -/
def Shares.turnsAfter (baseline share : S) (turns : ℕ) : ℕ :=
  if share < baseline * shares.cacheShareFloor then turns + 1 else 0

variable {shares} in
theorem self_eq_turnsAfter_iff {baseline share : S} {turns : ℕ} :
  turns = shares.turnsAfter baseline share turns
    ↔ ¬share < baseline * shares.cacheShareFloor ∧ turns = 0
  := by
  rw [Shares.turnsAfter]
  split
  case isTrue hlow => simp [hlow]
  case isFalse hlow => simp [hlow]

variable {shares} in
theorem turnsAfter_le_iff {baseline share : S} {turns : ℕ} :
  shares.turnsAfter baseline share turns ≤ turns ↔ ¬share < baseline * shares.cacheShareFloor
  := by
  rw [Shares.turnsAfter]
  split
  case isTrue hlow => simp [hlow]
  case isFalse hlow => simp [hlow]

end Turns

section Usage

variable [LE S] [LT S] [Mul S] [DecidableLE S] [DecidableLT S] (shares : Shares S)

/-- A response is compared with the baseline when compaction is not disabled, the last request ran
under a mode that rewrites, and a request was rewritten. -/
theorem degradedTurns_judge (state : SessionState S) (session agentId : String) (share : S) :
  (judge shares state session agentId share).1.degradedTurns
    = match state.baselineShare with
      | none => state.degradedTurns
      | some baseline =>
          if !state.disabled && state.rewriting && state.rewrote then
            shares.turnsAfter baseline share state.degradedTurns
          else state.degradedTurns
  := by
  unfold judge Shares.turnsAfter
  cases state.disabled with
  | true => cases state.baselineShare <;> rfl
  | false =>
    cases state.rewriting with
    | false => cases state.baselineShare <;> rfl
    | true =>
      cases state.rewrote with
      | false =>
        simp only [Bool.not_true, Bool.false_eq_true, if_false, Bool.not_false, if_true]
        split
        all_goals cases state.baselineShare <;> rfl
      | true =>
        cases state.baselineShare with
        | none => rfl
        | some baseline =>
          simp only [Bool.not_true, Bool.false_eq_true, if_false, Bool.not_false,
            Bool.and_self, if_true]
          split
          · split
            all_goals rfl
          · rfl

/-- Observing a response judges the state of its session. -/
theorem stateOf_observeUsage (sessions : Sessions S) (session agentId : String) {usage : AgentUsage}
    {share : S} (reported : shares.cacheReadShare usage = some share) :
  stateOf (observeUsage shares sessions session agentId usage true).1 session
    = (judge shares (stateOf sessions session) session agentId share).1
  := by
  unfold observeUsage
  simp only [Bool.not_true, Bool.false_eq_true, if_false, reported]
  cases hentry : entry sessions session with
  | none =>
    have hnew : stateOf sessions session = .new := by
      unfold entry at hentry
      split at hentry
      · cases hentry
      · next huntracked => rw [stateOf, huntracked]; rfl
    rw [hnew]
    rfl
  | some tracked =>
    obtain ⟨sessions', state⟩ := tracked
    dsimp only
    rw [stateOf_put hentry, if_pos rfl, ← entry_stateOf hentry]

/-! ### Responses and their requests -/

namespace Proxy

variable (pass : Pass V)

/-- A response moves the degraded turns on only if the body of its own request was rewritten, and
the response to a request that was rewritten is compared with the baseline. -/
def OwnRequest (s : Proxy S) : FlightAct V → Prop
  | .observe i usage => ∀ flight, s.flightAt i .committed = some flight →
      let before := stateOf s.sessions flight.session
      let after := stateOf (s.observe shares i usage).1.sessions flight.session
      (before.degradedTurns < after.degradedTurns → flight.rewrote = true)
        ∧ (flight.rewrote = true → before.disabled = false →
          ∀ share, shares.cacheReadShare usage = some share →
            ∃ baseline, before.baselineShare = some baseline
              ∧ after.degradedTurns = shares.turnsAfter baseline share before.degradedTurns)
  | _ => True

/-- When a response to a request that was rewritten has something to say, the last request of the
session ran under a mode that rewrites; when the share of another response is low, no request of
the session was rewritten, or the last ran under a mode that does not rewrite. -/
def Undisturbed (s : Proxy S) : FlightAct V → Prop
  | .observe i usage => ∀ flight, s.flightAt i .committed = some flight →
      let state := stateOf s.sessions flight.session
      flight.rewritten.measured = true → state.disabled = false →
        ∀ share, shares.cacheReadShare usage = some share →
          ∀ baseline, state.baselineShare = some baseline →
            if flight.rewrote then
              share < baseline * shares.cacheShareFloor ∨ 0 < state.degradedTurns →
                state.rewriting = true
            else
              share < baseline * shares.cacheShareFloor →
                state.rewriting = false ∨ state.rewrote = false
  | _ => True

variable {pass shares}

variable {s : Proxy S}

variable (pass shares) in
/-- What an action on the sessions keeps of a request. -/
theorem Marked.sessions (h : s.Marked) (a : CompactionAct V) :
  Marked ⟨(Compaction.machine pass shares).next s.sessions a, s.flights⟩
  := by
  intro flight hflight hrewrote
  obtain ⟨measured, marked, baseline, hbaseline⟩ := h flight hflight hrewrote
  obtain ⟨marked', hkept⟩ :=
    (guardStep_next pass shares s.sessions a flight.session).kept marked
  use measured, marked', baseline, hkept.trans hbaseline

theorem Marked.next (h : s.Marked) (a : FlightAct V) :
  ((machine shares pass).next s a).Marked
  := by
  cases a with
  | send request agentId =>
    intro flight hflight hrewrote
    obtain hflight | hflight := List.mem_append.mp hflight
    · apply h.sessions shares pass (.rewrite request) flight hflight hrewrote
    · rw [List.mem_singleton] at hflight
      subst hflight
      obtain ⟨pending, hpending, hrewrote⟩ := (Option.any_eq_true ..).mp hrewrote
      apply rewrite_rewrote pass hpending hrewrote
  | commit i =>
    change (s.commit i).1.Marked
    unfold commit
    cases hflight : s.flightAt i .sent with
    | none => apply h
    | some flight =>
      dsimp only
      cases hpending : flight.rewritten.pending with
      | none => exact h.advance hflight
      | some pending =>
        exact (h.sessions shares pass
          (.commit flight.session flight.agentId pending)).advance hflight
  | observe i usage =>
    change (s.observe shares i usage).1.Marked
    unfold observe
    cases hflight : s.flightAt i .committed with
    | none => apply h
    | some flight =>
      exact (h.sessions shares pass (.observeUsage flight.session flight.agentId usage
        flight.rewritten.measured)).advance hflight

/-- What a response that is measured does to the degraded turns of its session. -/
theorem degradedTurns_observe {i : ℕ} {usage : AgentUsage} {flight : Flight} {share : S}
    (hflight : s.flightAt i .committed = some flight) (measured : flight.rewritten.measured = true)
    (reported : shares.cacheReadShare usage = some share) (agentId : String) :
  (stateOf (s.observe shares i usage).1.sessions flight.session).degradedTurns
    = (judge shares (stateOf s.sessions flight.session) flight.session agentId
        share).1.degradedTurns
  := by
  rw [observe, hflight]
  dsimp only
  rw [measured, stateOf_observeUsage shares _ _ _ reported, degradedTurns_judge,
    degradedTurns_judge]

/-- A response that is not measured, or reports no share, is not judged. -/
theorem sessions_observe {i : ℕ} {usage : AgentUsage} {flight : Flight}
    (hflight : s.flightAt i .committed = some flight)
    (unmeasured : flight.rewritten.measured = false ∨ shares.cacheReadShare usage = none) :
  (s.observe shares i usage).1.sessions = s.sessions
  := by
  rw [observe, hflight]
  dsimp only
  unfold observeUsage
  obtain unmeasured | unreported := unmeasured
  · rw [unmeasured]
    rfl
  · split
    · rfl
    · rw [unreported]

/-- A response is judged by its own request exactly when it is not disturbed. -/
theorem ownRequest_iff (h : s.Marked) (a : FlightAct V) :
  s.OwnRequest shares a ↔ s.Undisturbed shares a
  := by
  cases a with
  | send | commit => rfl
  | observe i usage =>
    apply forall_congr'
    intro flight
    apply imp_congr_right
    intro hflight
    have marked := h flight (mem_of_flightAt hflight)
    dsimp only
    cases hmeasured : flight.rewritten.measured with
    | false =>
      rw [sessions_observe hflight (Or.inl hmeasured)]
      have : flight.rewrote = false := by
        rw [← Bool.not_eq_true]
        intro hrewrote
        rw [(marked hrewrote).1] at hmeasured
        cases hmeasured
      simp [this]
    | true =>
      cases hreported : shares.cacheReadShare usage with
      | none =>
        rw [sessions_observe hflight (Or.inr hreported)]
        simp
      | some share =>
        rw [degradedTurns_observe hflight hmeasured hreported flight.agentId,
          degradedTurns_judge]
        generalize stateOf s.sessions flight.session = state at marked ⊢
        cases hdisabled : state.disabled with
        | true => cases state.baselineShare <;> simp
        | false =>
          cases hrewrote : flight.rewrote with
          | true =>
            obtain ⟨-, hmarked, baseline, hbaseline⟩ := marked hrewrote
            simp only [hmarked, hbaseline]
            cases hrewriting : state.rewriting with
            | true => simp
            | false => simp [self_eq_turnsAfter_iff]
          | false =>
            cases hbaseline : state.baselineShare with
            | none => simp
            | some baseline =>
              cases hrewriting : state.rewriting with
              | false => simp
              | true =>
                cases hmarked : state.rewrote with
                | false => simp
                | true => simp [turnsAfter_le_iff]

/-- In a run of requests and responses, every response is judged by its own request exactly when
none of them is disturbed. -/
theorem judged_by_own_request_iff (as : List (FlightAct V)) :
  (machine shares pass).Along (OwnRequest shares) start as
    ↔ (machine shares pass).Along (Undisturbed shares) start as
  := by
  apply (machine shares pass).along_iff_along (I := Marked) marked_start
  · intro s a _ h
    apply h.next
  · intro s a h
    apply ownRequest_iff h

end Proxy

end Usage

/-! ### Two requests -/

namespace Proxy

def usageOf (cacheRead : ℕ) : AgentUsage := ⟨some (100 - cacheRead), none, some cacheRead⟩

/-- Two first turns are held, one is answered, and a request is rewritten before the other is. -/
def heldLate : List (FlightAct Unit) :=
  [.send promoted "claude", .send promoted "claude", .commit 1, .observe 1 (usageOf 90),
    .send promoted "claude", .commit 0, .observe 0 (usageOf 10)]

/-- A request is rewritten, and another begins under a mode that does not rewrite before it is
answered. -/
def flipped : List (FlightAct Unit) :=
  [.send promoted "claude", .commit 0, .observe 0 (usageOf 90), .send promoted "claude",
    .send { promoted with optedIn := false } "claude", .commit 1, .observe 1 (usageOf 10)]

/-- A held turn that is answered late is counted as degraded, and a request that was rewritten is
not judged when the mode was changed. -/
theorem late_misjudged :
  ¬(machine fractions condensing).Along (OwnRequest fractions) start heldLate
    ∧ ¬(machine fractions condensing).Along (OwnRequest fractions) start flipped
  := by
  constructor
  · rintro ⟨-, -, -, -, -, -, h, -⟩
    obtain ⟨hcounted, -⟩ := h _ rfl
    have hcounted := hcounted (by decide +kernel)
    revert hcounted
    decide +kernel
  · rintro ⟨-, -, -, -, -, -, h, -⟩
    obtain ⟨-, hjudged⟩ := h _ rfl
    obtain ⟨baseline, hbaseline, hturns⟩ := hjudged (by decide +kernel) (by decide +kernel) _ rfl
    obtain rfl : 9 / 10 = baseline := by
      apply Option.some.inj (Eq.trans _ hbaseline)
      decide +kernel
    revert hturns
    decide +kernel

end Proxy

end Lazybox.Compaction
