import Lazybox.Library.Run
import Lazybox.Proxy.Compactor

/-!
# Compaction is guarded

Of the state of a session, whether it is disabled, whether a request of it was rewritten, and its
baseline decide what may be done to its requests.  Once a request was rewritten the baseline is
what it was then, and once the session is disabled it stays so, in whatever order requests begin
and responses arrive.
-/

namespace Lazybox.Compaction

variable {S V : Type}

/-- What the guards of compaction look at. -/
structure Guards (S : Type) where
  disabled : Bool
  rewrote : Bool
  baselineShare : Option S

def SessionState.guards (state : SessionState S) : Guards S :=
  ⟨state.disabled, state.rewrote, state.baselineShare⟩

variable {session : String}

/-- What is put back for a session changes the guards of that one only. -/
theorem guards_put {sessions sessions' : Sessions S} {state : SessionState S}
    (h : entry sessions session = some (sessions', state)) (state' : SessionState S)
    (other : String) :
  (stateOf (put sessions' session state') other).guards
    = if other = session then state'.guards else (stateOf sessions other).guards
  := by
  rw [stateOf_put h]
  split <;> rfl

/-- Committing a saving is nothing to the guards. -/
theorem guards_commit
    (sessions : Sessions S) (session agentId : String) (pending : Pending) (other : String) :
  (stateOf (commit sessions session agentId pending).1 other).guards
    = (stateOf sessions other).guards
  := by
  unfold commit record
  cases hentry : entry sessions session with
  | none => rfl
  | some tracked =>
    obtain ⟨sessions', state⟩ := tracked
    dsimp only
    rw [guards_put hentry]
    split
    · next hother =>
        rw [hother, ← entry_stateOf hentry]
        split <;> rfl
    · rfl

/-- An action on a request: it begins, its saving is committed, or its response is judged. -/
inductive CompactionAct (V : Type) where
  | rewrite (request : Request V)
  | commit (session agentId : String) (pending : Pending)
  | observeUsage (session agentId : String) (usage : AgentUsage) (measured : Bool)

/-! ### One step of a session -/

variable [LE S] (pass : Pass V) (shares : Shares S)

/-- What an action does to the guards of a session. -/
inductive GuardStep (session : String) (g : Guards S) : CompactionAct V → Guards S → Prop where
  | same (a : CompactionAct V) : GuardStep session g a g
  | begun (request : Request V) :
      GuardStep session g (.rewrite request)
        { g with rewrote := g.rewrote || request.mode.rewrites && g.baselineShare.isSome }
  | measured (agentId : String) (usage : AgentUsage) (share : S)
      (reported : shares.cacheReadShare usage = some share)
      (warm : shares.minBaselineShare ≤ share) (unrewritten : g.rewrote = false) :
      GuardStep session g (.observeUsage session agentId usage true)
        { g with baselineShare := some share }
  | tripped (agentId : String) (usage : AgentUsage) :
      GuardStep session g (.observeUsage session agentId usage true) { g with disabled := true }

variable {pass shares}

theorem guardStep_begin (sessions : Sessions S) (request : Request V) (session : String) :
  GuardStep shares session (stateOf sessions session).guards (.rewrite request)
    (stateOf (begin sessions request.session request.mode.rewrites).1 session).guards
  := by
  unfold begin
  cases hentry : entry sessions request.session with
  | none => apply GuardStep.same
  | some tracked =>
    obtain ⟨sessions', state⟩ := tracked
    have hstate := entry_stateOf hentry
    dsimp only
    split
    · rw [stateOf_entry hentry]
      apply GuardStep.same
    · rw [guards_put hentry]
      split
      · next hown =>
          rw [hown, ← hstate]
          apply GuardStep.begun
      · apply GuardStep.same

variable {a : CompactionAct V}

/-- Once a request was rewritten, the baseline stays what it is. -/
theorem GuardStep.kept
    {g g' : Guards S} (h : GuardStep shares session g a g') (rewrote : g.rewrote = true) :
  g'.rewrote = true ∧ g'.baselineShare = g.baselineShare
  := by
  cases h with
  | same => use rewrote
  | begun request =>
    constructor
    · rw [rewrote, Bool.true_or]
    · rfl
  | measured agentId usage share reported warm unrewritten =>
    rw [rewrote] at unrewritten
    cases unrewritten
  | tripped agentId usage => use rewrote

/-- A session that is disabled stays so. -/
theorem GuardStep.disabled
    {g g' : Guards S} (h : GuardStep shares session g a g') (disabled : g.disabled = true) :
  g'.disabled = true
  := by
  cases h with
  | same | begun _ | measured _ _ _ _ _ _ => apply disabled
  | tripped agentId usage => rfl

variable [LT S] [Mul S] [DecidableLE S] [DecidableLT S]

theorem guardStep_judge {state : SessionState S} (session agentId : String) {usage : AgentUsage}
    {share : S} (reported : shares.cacheReadShare usage = some share) :
  GuardStep (V := V) shares session state.guards (.observeUsage session agentId usage true)
    (judge shares state session agentId share).1.guards
  := by
  unfold judge
  split
  · apply GuardStep.same
  · split
    · apply GuardStep.same
    · split
      · next hunrewritten =>
          dsimp only
          split
          · next hwarm =>
              apply GuardStep.measured agentId usage share reported hwarm
              cases hrewrote : state.rewrote with
              | false => apply hrewrote
              | true => simp [hrewrote] at hunrewritten
          · apply GuardStep.same
      · split
        · apply GuardStep.same
        · split
          · dsimp only
            split
            · apply GuardStep.tripped
            · apply GuardStep.same
          · apply GuardStep.same

variable (pass shares)

def step (sessions : Sessions S) : CompactionAct V → Sessions S × List Report
  | .rewrite request => ((rewrite pass sessions request).1, [])
  | .commit session agentId pending => commit sessions session agentId pending
  | .observeUsage session agentId usage measured =>
      observeUsage shares sessions session agentId usage measured

/-- The compactor at work. -/
def machine : Machine (Sessions S) (CompactionAct V) Report := ⟨step pass shares⟩

variable {pass shares}

variable (pass shares) in
theorem guardStep_next (sessions : Sessions S) (a : CompactionAct V) (session : String) :
  GuardStep shares session (stateOf sessions session).guards a
    (stateOf ((machine pass shares).next sessions a) session).guards
  := by
  cases a with
  | rewrite request =>
    change GuardStep shares session _ _ (stateOf (rewrite pass sessions request).1 session).guards
    obtain hpassed | ⟨hbegun, -⟩ := rewrite_cases pass sessions request
    · rw [hpassed]
      apply GuardStep.same
    · rw [hbegun]
      apply guardStep_begin
  | commit committed agentId pending =>
    change GuardStep shares session _ _
      (stateOf (commit sessions committed agentId pending).1 session).guards
    rw [guards_commit]
    apply GuardStep.same
  | observeUsage observed agentId usage measured =>
    change GuardStep shares session _ _
      (stateOf (observeUsage shares sessions observed agentId usage measured).1 session).guards
    unfold observeUsage
    cases measured with
    | false => apply GuardStep.same
    | true =>
      simp only [Bool.not_true, Bool.false_eq_true, if_false]
      cases hreported : shares.cacheReadShare usage with
      | none => apply GuardStep.same
      | some share =>
        dsimp only
        cases hentry : entry sessions observed with
        | none => apply GuardStep.same
        | some tracked =>
          obtain ⟨sessions', state⟩ := tracked
          dsimp only
          rw [guards_put hentry]
          split
          · next hown =>
              subst hown
              rw [← entry_stateOf hentry]
              apply guardStep_judge _ _ hreported
          · apply GuardStep.same

/-! ### Every run -/

variable (pass shares)

/-- A request of a session is forwarded with another body than its own. -/
def RewrittenIn (session : String) (as : List (CompactionAct V)) : Prop :=
  ∃ before request after, as = before ++ .rewrite request :: after ∧ request.session = session
    ∧ (rewrite pass ((machine pass shares).final [] before) request).2.body ≠ request.body

/-- A baseline was recorded from a measured response, which the cache served enough of, before any
request of the session was rewritten. -/
def MeasuredIn (session : String) (baseline : S) (as : List (CompactionAct V)) : Prop :=
  ∃ before agentId usage after,
    as = before ++ .observeUsage session agentId usage true :: after
      ∧ shares.cacheReadShare usage = some baseline
      ∧ shares.minBaselineShare ≤ baseline
      ∧ (stateOf ((machine pass shares).final []
          (before ++ [.observeUsage session agentId usage true])) session).baselineShare
        = some baseline
      ∧ ¬ RewrittenIn pass shares session before

/-- What allows a request to be forwarded with another body, after a run of the compactor. -/
structure Guarded (before : List (CompactionAct V)) (request : Request V) : Prop where
  mode : request.mode = .on
  /-- The session was not disabled before. -/
  enabled : ∀ earlier later, before = earlier ++ later →
    (stateOf ((machine pass shares).final [] earlier) request.session).disabled = false
  /-- The session has a baseline that was measured, and keeps it. -/
  baseline : ∃ baseline,
    (stateOf ((machine pass shares).final [] before) request.session).baselineShare
        = some baseline
      ∧ MeasuredIn pass shares request.session baseline before
      ∧ ∀ later, (stateOf ((machine pass shares).final [] (before ++ .rewrite request :: later))
        request.session).baselineShare = some baseline

variable {pass shares}

theorem rewrittenIn_concat
    {as : List (CompactionAct V)} (h : RewrittenIn pass shares session (as ++ [a])) :
  RewrittenIn pass shares session as
    ∨ ∃ request, a = .rewrite request ∧ request.session = session
      ∧ (rewrite pass ((machine pass shares).final [] as) request).2.body ≠ request.body
  := by
  obtain ⟨before, request, after, has, hsession, hbody⟩ := h
  induction after using List.reverseRecOn with
  | nil =>
    right
    obtain ⟨rfl, hlast⟩ := List.append_inj' has rfl
    cases hlast
    use request
  | append_singleton after last _ =>
    left
    rw [← List.cons_append, ← List.append_assoc] at has
    obtain ⟨rfl, -⟩ := List.append_inj' has rfl
    use before, request, after

theorem MeasuredIn.append {baseline : S} {as : List (CompactionAct V)}
    (h : MeasuredIn pass shares session baseline as) (a : CompactionAct V) :
  MeasuredIn pass shares session baseline (as ++ [a])
  := by
  obtain ⟨before, agentId, usage, after, rfl, h⟩ := h
  use before, agentId, usage, after ++ [a]
  constructor
  · rw [List.append_assoc, List.cons_append]
  · apply h

/-- As long as a session is not marked, no request of it was rewritten, and its baseline was
measured before any was. -/
theorem guards_final (session : String) (as : List (CompactionAct V)) :
  ((stateOf ((machine pass shares).final [] as) session).rewrote = false →
      ¬ RewrittenIn pass shares session as)
    ∧ ∀ baseline,
      (stateOf ((machine pass shares).final [] as) session).baselineShare = some baseline →
      MeasuredIn pass shares session baseline as
  := by
  induction as using List.reverseRecOn with
  | nil =>
    constructor
    · rintro _ ⟨before, request, after, has, -⟩
      simp at has
    · rintro baseline ⟨⟩
  | append_singleton as a ih =>
    obtain ⟨ihrewrote, ihbaseline⟩ := ih
    rw [Machine.final_append]
    have hstep := guardStep_next pass shares
      ((machine pass shares).final [] as) a session
    constructor
    · intro hrewrote hrewritten
      obtain hearlier | ⟨request, rfl, rfl, hbody⟩ := rewrittenIn_concat hrewritten
      · apply ihrewrote _ hearlier
        apply Bool.eq_false_iff.mpr
        intro hbefore
        apply Bool.eq_false_iff.mp hrewrote (hstep.kept hbefore).1
      · obtain ⟨-, -, -, hmarked, -⟩ := rewrite_guards pass hbody
        apply Bool.eq_false_iff.mp hrewrote hmarked
    · intro baseline hbaseline
      change (stateOf ((machine pass shares).next _ a) session).guards.baselineShare
        = some baseline at hbaseline
      have hrecorded := hbaseline
      generalize (stateOf ((machine pass shares).next _ a) session).guards = g' at hstep hbaseline
      cases hstep with
      | same | begun _ | tripped _ _ => apply (ihbaseline baseline hbaseline).append
      | measured agentId usage share reported warm unrewritten =>
        cases hbaseline
        use as, agentId, usage, []
        use rfl, reported, warm
        constructor
        · rw [Machine.final_append]
          apply hrecorded
        · apply ihrewrote unrewritten

/-- In every run of requests and responses, a body other than the original is forwarded only for a
request whose own mode is `on`, of a session that was never disabled, which holds a baseline that
was measured before any of its requests was rewritten and which it keeps. -/
theorem rewritten_guarded
    {before : List (CompactionAct V)} {request : Request V}
    (rewritten : (rewrite pass ((machine pass shares).final [] before) request).2.body
      ≠ request.body) :
  Guarded pass shares before request
  := by
  obtain ⟨hmode, henabled, ⟨baseline, hbaseline⟩, hmarked, hkept⟩ := rewrite_guards pass rewritten
  constructor
  · apply hmode
  · rintro earlier later rfl
    apply Bool.eq_false_iff.mpr
    intro hdisabled
    apply Bool.eq_false_iff.mp henabled
    rw [Machine.final_append]
    apply (machine pass shares).final_preserved (I := fun sessions =>
      (stateOf sessions request.session).guards.disabled = true) _ hdisabled
    intro sessions a h
    apply (guardStep_next pass shares sessions a request.session).disabled h
  · use baseline, hbaseline, (guards_final request.session before).2 baseline hbaseline
    intro later
    rw [Machine.final_append]
    have hlater := (machine pass shares).final_preserved (I := fun sessions =>
      (stateOf sessions request.session).guards.rewrote = true
        ∧ (stateOf sessions request.session).guards.baselineShare = some baseline)
      (by
        rintro sessions a ⟨hrewrote, hsame⟩
        obtain ⟨hrewrote', hsame'⟩ :=
          (guardStep_next pass shares sessions a request.session).kept hrewrote
        use hrewrote', hsame'.trans hsame)
      ⟨hmarked, hkept.trans hbaseline⟩ later
    apply hlater.2

/-- A pass which condenses every body to a single byte. -/
def condensing : Pass Unit where
  tag := id
  plan := fun _ _ _ => some ⟨some [0], none, 1, ["block"], 9⟩
  estimateSavedMicros := fun _ _ => none

/-- Shares as fractions. -/
def fractions : Shares ℚ := ⟨fun part whole => part / whole, 1 / 10, 3 / 4⟩

/-- A request of a session whose mode is `on`. -/
def promoted : Request Unit := ⟨"session", true, [1, 2], some (), ⟨.shadow, 4, 350⟩, true⟩

/-- The first request is held, and the cache served nine tenths of its prompt. -/
theorem rewritten_guarded_second :
  Guarded condensing fractions
    [.rewrite promoted, .observeUsage "session" "claude" ⟨some 10, none, some 90⟩ true] promoted
  := rewritten_guarded (by decide +kernel)

end Lazybox.Compaction
