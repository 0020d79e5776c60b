import Mathlib.Data.Rat.Lemmas
import Lazybox.Library.Keyed

/-!
# Compaction of the requests behind the proxy

Old tool results are rewritten out of the body of a request.  A session is first observed without
rewriting, for the share of its prompt that is served from the cache, and when the share stays
below that of the beginning once its requests are rewritten, compaction is disabled for it.

The pass over a parsed body, the rate cards and the tags of the sessions are given (`Pass`), and
so is the arithmetic of shares (`Shares`), which the code does in floating point.
-/

namespace Lazybox.Compaction

/-! ### The policy -/

inductive CompactionMode where
  | off
  | shadow
  | on
deriving DecidableEq, Repr

namespace CompactionMode

def evaluates : CompactionMode → Bool
  | off => false
  | shadow | on => true

def rewrites : CompactionMode → Bool
  | on => true
  | off | shadow => false

end CompactionMode

structure ContextHygiene where
  mode : CompactionMode
  keepRecent : ℕ
  minLines : ℕ
deriving DecidableEq, Repr

/-- The mode for a workspace: one that opted in is promoted, unless the pass is off. -/
def ContextHygiene.modeFor (policy : ContextHygiene) (optedIn : Bool) : CompactionMode :=
  if policy.mode.evaluates && optedIn then .on else policy.mode

/-! ### The state of a session -/

def maxSessions : ℕ := 256

def maxCondensedIds : ℕ := 2048

def cacheRegressionTurns : ℕ := 3

/-- The identities of blocks that were seen, oldest first. -/
abbrev SeenBlocks := List String

/-- Whether an identity is new.  One that is seen again is the newest, and past the bound the
oldest is forgotten. -/
def SeenBlocks.insert (seen : SeenBlocks) (id : String) : SeenBlocks × Bool :=
  if id ∈ seen then (seen.erase id ++ [id], false)
  else
    let order := seen ++ [id]
    (if maxCondensedIds < order.length then order.tail else order, true)

/-- How many of some identities are new. -/
def SeenBlocks.count (seen : SeenBlocks) : List String → SeenBlocks × ℕ
  | [] => (seen, 0)
  | id :: ids =>
      let (seen, isNew) := seen.insert id
      let (seen, blocks) := seen.count ids
      (seen, blocks + if isNew then 1 else 0)

structure SessionState (S : Type) where
  disabled : Bool
  condensedTotal : ℕ
  seenRealized : SeenBlocks
  seenProjected : SeenBlocks
  savedBytes : ℕ
  savedMicros : ℕ
  unpricedBytes : ℕ
  /-- A request of the session was rewritten. -/
  rewrote : Bool
  /-- The last request of the session ran under a mode that rewrites. -/
  rewriting : Bool
  /-- The last share that was measured before a request was rewritten. -/
  baselineShare : Option S
  degradedTurns : ℕ
  regressions : ℕ

variable {S : Type}

def SessionState.new : SessionState S where
  disabled := false
  condensedTotal := 0
  seenRealized := []
  seenProjected := []
  savedBytes := 0
  savedMicros := 0
  unpricedBytes := 0
  rewrote := false
  rewriting := false
  baselineShare := none
  degradedTurns := 0
  regressions := 0

abbrev Sessions (S : Type) := List (String × SessionState S)

/-- The state of a session: that of a new one, as long as it is not tracked. -/
def stateOf (sessions : Sessions S) (session : String) : SessionState S :=
  ((Keyed.lookup Prod.fst session sessions).map Prod.snd).getD .new

/-- Have a session tracked, if it is not and there is room. -/
def entry (sessions : Sessions S) (session : String) : Option (Sessions S × SessionState S) :=
  match Keyed.lookup Prod.fst session sessions with
  | some (_, state) => some (sessions, state)
  | none =>
      if maxSessions ≤ sessions.length then none
      else some (sessions ++ [(session, .new)], .new)

/-- Replace the state of a session that is tracked. -/
def put (sessions : Sessions S) (session : String) (state : SessionState S) : Sessions S :=
  Keyed.modifyFirst Prod.fst session (fun tracked => (tracked.1, state)) sessions

theorem lookup_put (sessions : Sessions S) (session : String) (state : SessionState S)
    (other : String) :
  Keyed.lookup Prod.fst other (put sessions session state)
    = if other = session then
        (Keyed.lookup Prod.fst session sessions).map fun tracked => (tracked.1, state)
      else Keyed.lookup Prod.fst other sessions
  := by
  apply Keyed.lookup_modifyFirst
  intro _
  rfl

variable {state : SessionState S} {session : String} {sessions sessions' : Sessions S}

/-- The state of a session once that of another, or its own, is replaced. -/
theorem stateOf_put (h : entry sessions session = some (sessions', state)) (state' : SessionState S)
    (other : String) :
  stateOf (put sessions' session state') other
    = if other = session then state' else stateOf sessions other
  := by
  rw [stateOf, lookup_put, stateOf]
  unfold entry at h
  split at h
  · next state'' htracked =>
      cases h
      rw [htracked]
      split <;> rfl
  · next huntracked =>
      split at h
      · cases h
      · cases h
        rw [Keyed.lookup_append, Keyed.lookup_append, huntracked, Keyed.lookup_cons]
        by_cases hother : other = session
        · rw [if_pos hother, if_pos hother, if_pos rfl]
          rfl
        · rw [if_neg hother, if_neg hother, Keyed.lookup_cons, if_neg (Ne.symm hother)]
          cases Keyed.lookup Prod.fst other sessions <;> rfl

/-- Having a session tracked changes the state of none. -/
theorem stateOf_entry (h : entry sessions session = some (sessions', state)) (other : String) :
  stateOf sessions' other = stateOf sessions other
  := by
  unfold entry at h
  split at h
  · cases h
    rfl
  · next huntracked =>
      split at h
      · cases h
      · cases h
        rw [stateOf, stateOf, Keyed.lookup_append, Keyed.lookup_cons]
        by_cases hother : other = session
        · rw [hother, huntracked, if_pos rfl]
          rfl
        · rw [if_neg (Ne.symm hother)]
          cases Keyed.lookup Prod.fst other sessions <;> rfl

theorem entry_stateOf (h : entry sessions session = some (sessions', state)) :
  state = stateOf sessions session
  := by
  unfold entry at h
  rw [stateOf]
  split at h
  · next htracked =>
      cases h
      rw [htracked]
      rfl
  · next huntracked =>
      split at h
      · cases h
      · cases h
        rw [huntracked]
        rfl

/-! ### The pass -/

abbrev Bytes := List UInt8

/-- What the inspection of a body found: the body rewritten, and the blocks it condensed. -/
structure Plan where
  body : Option Bytes
  model : Option String
  condensed : ℕ
  condensedIds : List String
  savedBytes : ℕ
deriving DecidableEq, Repr

/-- The pass over a parsed body, under a policy and the tag of the session, and what the bytes that
it saves would have cost, where the model has a rate card. -/
structure Pass (V : Type) where
  tag : String → String
  plan : V → ContextHygiene → String → Option Plan
  estimateSavedMicros : Option String → ℕ → Option ℕ

/-- The arithmetic of shares. -/
structure Shares (S : Type) where
  /-- A number of tokens over a number of them. -/
  ratio : ℕ → ℕ → S
  /-- The least share that is taken for a baseline. -/
  minBaselineShare : S
  /-- How much of the baseline a share may fall to. -/
  cacheShareFloor : S

structure AgentUsage where
  inputTokens : Option ℕ
  cacheCreationInputTokens : Option ℕ
  cacheReadInputTokens : Option ℕ
deriving DecidableEq, Repr

/-- The share of the prompt that was served from the cache, if there was a prompt. -/
def Shares.cacheReadShare (shares : Shares S) (usage : AgentUsage) : Option S :=
  let cacheRead := usage.cacheReadInputTokens.getD 0
  let total :=
    (usage.inputTokens.getD 0 + usage.cacheCreationInputTokens.getD 0 + cacheRead) % 2 ^ 64
  if 0 < total then some (shares.ratio cacheRead total) else none

/-- What a request condensed, until its response completes. -/
structure Pending where
  condensedIds : List String
  savedBytes : ℕ
  savedMicros : Option ℕ
  rewrote : Bool
deriving DecidableEq, Repr

/-- What is forwarded, and whether its response can be compared with others. -/
structure Rewritten where
  body : Bytes
  measured : Bool
  pending : Option Pending
deriving DecidableEq, Repr

def Rewritten.passed (body : Bytes) : Rewritten := ⟨body, false, none⟩

structure Saving where
  blocks : ℕ
  savedBytes : ℕ
  savedMicros : Option ℕ
  regressions : ℕ
  rewrote : Bool
deriving DecidableEq, Repr

def Saving.isEmpty (saving : Saving) : Bool :=
  saving.blocks = 0 && saving.savedBytes = 0 && saving.regressions = 0

/-- What is told to the user and to the daily stats. -/
inductive Report where
  | saving (agentId session : String) (saving : Saving)
  /-- Compaction is disabled for a session, which saved this much. -/
  | disabled (agentId : String) (savedMicros savedBytes unpricedBytes : ℕ)
deriving DecidableEq, Repr

/-- What a request may do: a session that is disabled, or not tracked, may do nothing. -/
def begin (sessions : Sessions S) (session : String) (rewrites : Bool) :
    Sessions S × Option Bool :=
  match entry sessions session with
  | none => (sessions, none)
  | some (sessions, state) =>
      if state.disabled then (sessions, none)
      else
        let mayRewrite := state.baselineShare.isSome
        (put sessions session
          { state with
            rewriting := rewrites
            rewrote := state.rewrote || rewrites && mayRewrite },
          some mayRewrite)

section Requests

variable {V : Type} (pass : Pass V)

/-- A request for a session, under the policy that is in force for it. -/
structure Request (V : Type) where
  session : String
  priced : Bool
  body : Bytes
  parsed : Option V
  policy : ContextHygiene
  optedIn : Bool

/-- The policy for a request: that in force, with the mode of its own workspace. -/
def Request.policyFor (request : Request V) : ContextHygiene :=
  { request.policy with mode := request.policy.modeFor request.optedIn }

/-- The mode of the request itself. -/
def Request.mode (request : Request V) : CompactionMode := request.policyFor.mode

/-- What is forwarded for a body that was planned. -/
def forward (request : Request V) (plan : Plan) (mayRewrite : Bool) : Rewritten :=
  let rewriting := request.mode.rewrites && mayRewrite
  if plan.condensed = 0 then .passed request.body
  else
    { body := if rewriting then plan.body.getD request.body else request.body
      measured := true
      pending := some
        { condensedIds := plan.condensedIds
          savedBytes := plan.savedBytes
          savedMicros :=
            if request.priced then pass.estimateSavedMicros plan.model plan.savedBytes else none
          rewrote := rewriting } }

/-- Inspect the body of a request, and return what is forwarded. -/
def rewrite (sessions : Sessions S) (request : Request V) : Sessions S × Rewritten :=
  if !request.mode.evaluates || request.body.isEmpty then (sessions, .passed request.body)
  else if request.session.isEmpty then (sessions, .passed request.body)
  else
    match begin sessions request.session request.mode.rewrites with
    | (sessions, none) => (sessions, .passed request.body)
    | (sessions, some mayRewrite) =>
        match request.parsed with
        | none => (sessions, .passed request.body)
        | some parsed =>
            match pass.plan parsed request.policyFor (pass.tag request.session) with
            | none => (sessions, .passed request.body)
            | some plan => (sessions, forward pass request plan mayRewrite)

variable {request : Request V}

/-- Another body than the original is forwarded only for a plan that may be carried out. -/
theorem forward_body_ne {plan : Plan} {mayRewrite : Bool}
    (h : (forward pass request plan mayRewrite).body ≠ request.body) :
  request.mode.rewrites = true ∧ mayRewrite = true
  := by
  unfold forward at h
  dsimp only at h
  split at h
  · apply absurd rfl h
  · dsimp only at h
    split at h
    · next hrewriting => apply Bool.and_eq_true_iff.mp hrewriting
    · apply absurd rfl h

/-- What is forwarded counts as rewritten only for a plan that may be carried out. -/
theorem forward_rewrote {plan : Plan} {mayRewrite : Bool} {pending : Pending}
    (h : (forward pass request plan mayRewrite).pending = some pending)
    (rewrote : pending.rewrote = true) :
  request.mode.rewrites = true ∧ mayRewrite = true
    ∧ (forward pass request plan mayRewrite).measured = true
  := by
  unfold forward at h ⊢
  dsimp only at h ⊢
  split at h
  · cases h
  · next hcondensed =>
      cases h
      obtain ⟨hmode, hmay⟩ := Bool.and_eq_true_iff.mp rewrote
      rw [if_neg hcondensed]
      use hmode, hmay

/-- What becomes of a request: it passes unseen, or it begins, and then it passes, or is forwarded
for a plan. -/
theorem rewrite_cases (sessions : Sessions S) (request : Request V) :
  rewrite pass sessions request = (sessions, .passed request.body)
    ∨ (rewrite pass sessions request).1
        = (begin sessions request.session request.mode.rewrites).1
      ∧ ((rewrite pass sessions request).2 = .passed request.body
        ∨ ∃ plan mayRewrite,
          (begin sessions request.session request.mode.rewrites).2 = some mayRewrite
            ∧ (rewrite pass sessions request).2 = forward pass request plan mayRewrite)
  := by
  unfold rewrite
  split
  · left
    rfl
  · split
    · left
      rfl
    · right
      obtain ⟨sessions', _ | mayRewrite⟩ :=
        begin sessions request.session request.mode.rewrites
      · use rfl
        left
        rfl
      · dsimp only
        cases request.parsed with
        | none =>
          use rfl
          left
          rfl
        | some parsed =>
          dsimp only
          cases pass.plan parsed request.policyFor (pass.tag request.session) with
          | none =>
            use rfl
            left
            rfl
          | some plan =>
            use rfl
            right
            use plan, mayRewrite

variable {sessions : Sessions S}

/-- A request that may be rewritten is one of a session that is not disabled and has a baseline,
and the session has been rewritten. -/
theorem begin_guards {session : String} (h : (begin sessions session true).2 = some true) :
  (stateOf sessions session).disabled = false
    ∧ (∃ baseline, (stateOf sessions session).baselineShare = some baseline)
    ∧ (stateOf (begin sessions session true).1 session).rewrote = true
    ∧ (stateOf (begin sessions session true).1 session).baselineShare
      = (stateOf sessions session).baselineShare
  := by
  unfold begin at h ⊢
  cases hentry : entry sessions session with
  | none =>
    rw [hentry] at h
    cases h
  | some tracked =>
    obtain ⟨sessions', state⟩ := tracked
    have hstate := entry_stateOf hentry
    rw [hentry] at h
    dsimp only at h ⊢
    split at h
    · cases h
    · next henabled =>
        have hbaseline := Option.isSome_iff_exists.mp (Option.some.inj h)
        rw [if_neg henabled, stateOf_put hentry, if_pos rfl, ← hstate]
        use (by simpa using henabled), hbaseline
        constructor
        · dsimp only
          rw [Option.some.inj h]
          simp
        · rfl

/-- A request whose body is not the original begins under the mode `on`, for a session that is
not disabled and has a baseline, and the session has been rewritten. -/
theorem rewrite_guards (h : (rewrite pass sessions request).2.body ≠ request.body) :
  request.mode = .on
    ∧ (stateOf sessions request.session).disabled = false
    ∧ (∃ baseline, (stateOf sessions request.session).baselineShare = some baseline)
    ∧ (stateOf (rewrite pass sessions request).1 request.session).rewrote = true
    ∧ (stateOf (rewrite pass sessions request).1 request.session).baselineShare
      = (stateOf sessions request.session).baselineShare
  := by
  obtain hpassed | ⟨hbegun, hpassed | ⟨plan, mayRewrite, hbegin, hforward⟩⟩ :=
    rewrite_cases pass sessions request
  · rw [hpassed] at h
    apply absurd rfl h
  · rw [hpassed] at h
    apply absurd rfl h
  · rw [hforward] at h
    obtain ⟨hmode, rfl⟩ := forward_body_ne pass h
    rw [hbegun]
    rw [hmode] at hbegin ⊢
    constructor
    · cases hown : request.mode with
      | on => rfl
      | off | shadow =>
        rw [hown] at hmode
        cases hmode
    · apply begin_guards hbegin

/-- A request that counts as rewritten can be compared with others, and is one of a session which
has been rewritten, and has a baseline. -/
theorem rewrite_rewrote
    {pending : Pending} (h : (rewrite pass sessions request).2.pending = some pending)
    (rewrote : pending.rewrote = true) :
  (rewrite pass sessions request).2.measured = true
    ∧ (stateOf (rewrite pass sessions request).1 request.session).rewrote = true
    ∧ ∃ baseline, (stateOf (rewrite pass sessions request).1 request.session).baselineShare
      = some baseline
  := by
  obtain hpassed | ⟨hbegun, hpassed | ⟨plan, mayRewrite, hbegin, hforward⟩⟩ :=
    rewrite_cases pass sessions request
  · rw [hpassed] at h
    cases h
  · rw [hpassed] at h
    cases h
  · rw [hforward] at h ⊢
    obtain ⟨hmode, rfl, hmeasured⟩ := forward_rewrote pass h rewrote
    rw [hbegun]
    rw [hmode] at hbegin ⊢
    obtain ⟨-, ⟨baseline, hbaseline⟩, hmarked, hkept⟩ := begin_guards hbegin
    use hmeasured, hmarked, baseline
    rw [hkept, hbaseline]

end Requests

/-! ### Responses -/

/-- Add what a request condensed to the tally of its session. -/
def record (sessions : Sessions S) (session : String) (pending : Pending) :
    Sessions S × Saving :=
  match entry sessions session with
  | none => (sessions, ⟨0, 0, none, 0, false⟩)
  | some (sessions, state) =>
      let seen := if pending.rewrote then state.seenRealized else state.seenProjected
      let (seen, blocks) := seen.count pending.condensedIds
      let state := { state with
        seenRealized := if pending.rewrote then seen else state.seenRealized
        seenProjected := if pending.rewrote then state.seenProjected else seen
        condensedTotal := state.condensedTotal + blocks }
      let state :=
        if pending.rewrote then
          { state with
            savedBytes := state.savedBytes + pending.savedBytes
            savedMicros := state.savedMicros + pending.savedMicros.getD 0
            unpricedBytes :=
              state.unpricedBytes + if pending.savedMicros.isSome then 0 else pending.savedBytes }
        else state
      (put sessions session state,
        ⟨blocks, pending.savedBytes, pending.savedMicros, 0, pending.rewrote⟩)

def commit (sessions : Sessions S) (session agentId : String) (pending : Pending) :
    Sessions S × List Report :=
  let (sessions, saving) := record sessions session pending
  (sessions, if saving.isEmpty then [] else [.saving agentId session saving])

section Usage

variable [LE S] [LT S] [Mul S] [DecidableLE S] [DecidableLT S] (shares : Shares S)

/-- Judge the share of a response: a baseline until a request was rewritten, and then whether it
has fallen too far below that for too many turns. -/
def judge (state : SessionState S) (session agentId : String) (share : S) :
    SessionState S × List Report :=
  if state.disabled then (state, [])
  else if !state.rewriting then (state, [])
  else if !state.rewrote then
    (if shares.minBaselineShare ≤ share then { state with baselineShare := some share } else state,
      [])
  else
    match state.baselineShare with
    | none => (state, [])
    | some baseline =>
        if share < baseline * shares.cacheShareFloor then
          let state := { state with degradedTurns := state.degradedTurns + 1 }
          if cacheRegressionTurns ≤ state.degradedTurns then
            ({ state with
                disabled := true
                regressions := state.regressions + 1
                seenRealized := []
                seenProjected := [] },
              [.disabled agentId state.savedMicros state.savedBytes state.unpricedBytes,
                .saving agentId session ⟨0, 0, none, 1, true⟩])
          else (state, [])
        else ({ state with degradedTurns := 0 }, [])

def observeUsage (sessions : Sessions S) (session agentId : String) (usage : AgentUsage)
    (measured : Bool) : Sessions S × List Report :=
  if !measured then (sessions, [])
  else
    match shares.cacheReadShare usage with
    | none => (sessions, [])
    | some share =>
        match entry sessions session with
        | none => (sessions, [])
        | some (sessions, state) =>
            let (state, reports) := judge shares state session agentId share
            (put sessions session state, reports)

end Usage

end Lazybox.Compaction
