import Mathlib.Data.Finset.Card
import Lazybox.Proxy.CompactionGuarded

/-!
# Blocks are reported once

A session counts the blocks it condensed by their identities, apart for the requests that were
rewritten and for those that were not.  As long as no more identities are committed than it
remembers, what is reported for a stretch of commits is the number of the identities that are new.

When compaction is disabled for a session, it forgets the identities it has seen, while requests
may still be on their way.  A block that is committed both before and after is reported twice.
-/

namespace Lazybox.Compaction

variable {S V : Type}

/-! ### Identities -/

/-- A set of identities is what is remembered. -/
def SeenBlocks.Holds (seen : SeenBlocks) (ids : Finset String) : Prop :=
  seen.Nodup ∧ seen.toFinset = ids

theorem holds_nil :
  SeenBlocks.Holds [] ∅
  := by
  constructor
  · apply List.nodup_nil
  · rfl

variable {ids : Finset String}

theorem SeenBlocks.Holds.mem_iff {seen : SeenBlocks} (h : seen.Holds ids) {id : String} :
  id ∈ seen ↔ id ∈ ids
  := by
  rw [← h.2, List.mem_toFinset]

theorem SeenBlocks.Holds.length_eq {seen : SeenBlocks} (h : seen.Holds ids) :
  seen.length = ids.card
  := by
  rw [← h.2, List.toFinset_card_of_nodup h.1]

/-- An identity for which there is room is remembered, and is new if it was not before. -/
theorem holds_insert {seen : SeenBlocks} (h : seen.Holds ids) (id : String)
    (room : (insert id ids).card ≤ maxCondensedIds) :
  (seen.insert id).1.Holds (insert id ids) ∧ (seen.insert id).2 = decide (id ∉ ids)
  := by
  unfold SeenBlocks.insert
  split
  case isTrue hseen =>
      have hids := h.mem_iff.mp hseen
      have hperm : (seen.erase id ++ [id]).Perm seen :=
        (List.perm_append_singleton ..).trans (List.perm_cons_erase hseen).symm
      constructor
      · rw [Finset.insert_eq_of_mem hids]
        constructor
        · apply hperm.nodup_iff.mpr h.1
        · rw [List.toFinset_eq_of_perm _ _ hperm, h.2]
      · simp [hids]
  case isFalse hseen =>
      have hids : id ∉ ids := fun hid => hseen (h.mem_iff.mpr hid)
      have hnodup : (seen ++ [id]).Nodup := by
        rw [← List.concat_eq_append]
        apply h.1.concat hseen
      have hset : (seen ++ [id]).toFinset = insert id ids := by
        rw [List.toFinset_append, h.2, List.toFinset_cons, List.toFinset_nil, Finset.union_comm]
        rfl
      have hroom : ¬maxCondensedIds < (seen ++ [id]).length := by
        rw [not_lt, List.length_append, h.length_eq, List.length_singleton,
          ← Finset.card_insert_of_notMem hids]
        apply room
      constructor
      · simp only [hroom, if_false]
        exact ⟨hnodup, hset⟩
      · simp [hids]

/-- Of identities for which there is room, as many are new as were not remembered. -/
theorem holds_count {seen : SeenBlocks} {remembered : Finset String} (h : seen.Holds remembered)
    {ids : List String} (room : (remembered ∪ ids.toFinset).card ≤ maxCondensedIds) :
  (seen.count ids).1.Holds (remembered ∪ ids.toFinset)
    ∧ (seen.count ids).2 = (ids.toFinset \ remembered).card
  := by
  induction ids generalizing seen remembered with
  | nil =>
    constructor
    · rw [List.toFinset_nil, Finset.union_empty]
      apply h
    · simp [SeenBlocks.count]
  | cons id ids ih =>
    have hunion : insert id remembered ∪ ids.toFinset = remembered ∪ (id :: ids).toFinset := by
      rw [List.toFinset_cons, Finset.union_insert, Finset.insert_union]
    obtain ⟨hfirst, hnew⟩ := holds_insert h id (by
      apply le_trans (Finset.card_le_card _) room
      rw [← hunion]
      apply Finset.subset_union_left)
    obtain ⟨hrest, hblocks⟩ := ih hfirst (by rwa [hunion])
    constructor
    · rw [← hunion]
      apply hrest
    · rw [SeenBlocks.count]
      dsimp only
      rw [hblocks, hnew, List.toFinset_cons]
      by_cases hid : id ∈ remembered
      · rw [Finset.insert_eq_of_mem hid, Finset.insert_sdiff_of_mem _ hid]
        simp [hid]
      · rw [Finset.insert_sdiff_of_notMem _ hid, Finset.sdiff_insert,
          ← Finset.erase_insert_eq_erase]
        simp only [hid, not_false_eq_true, decide_true, if_true]
        apply Finset.card_erase_add_one (Finset.mem_insert_self ..)

/-! ### Tracked sessions -/

/-- There is room for a session, or it is tracked. -/
def Tracks (session : String) (sessions : Sessions S) : Prop := (entry sessions session).isSome

theorem tracks_nil {session : String} :
  Tracks session ([] : Sessions S)
  := rfl

variable {state : SessionState S} {sessions : Sessions S}

variable {sessions' : Sessions S}

theorem lookup_of_entry {session : String} (h : entry sessions session = some (sessions', state)) :
  ∃ key, Keyed.lookup Prod.fst session sessions' = some (key, state)
  := by
  unfold entry at h
  split at h
  case h_1 key state' htracked =>
      cases h
      use key
  case h_2 huntracked =>
      split at h
      case isTrue => cases h
      case isFalse =>
          cases h
          use session
          rw [Keyed.lookup_append, huntracked, Keyed.lookup_cons, if_pos rfl]
          rfl

theorem tracks_of_lookup {session : String} {tracked : String × SessionState S}
    (h : Keyed.lookup Prod.fst session sessions = some tracked) :
  Tracks session sessions
  := by
  rw [Tracks, entry, h]
  rfl

theorem tracks_of_entry {session : String} (h : entry sessions session = some (sessions', state)) :
  Tracks session sessions'
  := by
  obtain ⟨key, hlookup⟩ := lookup_of_entry h
  apply tracks_of_lookup hlookup

theorem tracks_put {session : String} (h : entry sessions session = some (sessions', state))
    (state' : SessionState S) :
  Tracks session (put sessions' session state')
  := by
  obtain ⟨key, hlookup⟩ := lookup_of_entry h
  have := lookup_put sessions' session state' session
  rw [if_pos rfl, hlookup] at this
  apply tracks_of_lookup this

/-! ### What a step counts -/

/-- The identities that are remembered for the requests that were rewritten, or for the others. -/
def SessionState.seen (state : SessionState S) (rewrote : Bool) : SeenBlocks :=
  if rewrote then state.seenRealized else state.seenProjected

theorem holds_new {session : String} (rewrote : Bool) :
  ((stateOf ([] : Sessions S) session).seen rewrote).Holds ∅
  := by
  cases rewrote
  all_goals exact holds_nil

/-- The blocks that are reported for the requests that were rewritten, or for the others. -/
def blocksReported (rewrote : Bool) (reports : List Report) : ℕ :=
  (reports.map fun
    | .saving _ _ saving => if saving.rewrote = rewrote then saving.blocks else 0
    | .disabled .. => 0).sum

namespace CompactionAct

def session : CompactionAct V → String
  | .rewrite request => request.session
  | .commit session .. | .observeUsage session .. => session

/-- The identities an action commits. -/
def committed (rewrote : Bool) : CompactionAct V → List String
  | .commit _ _ pending => if pending.rewrote = rewrote then pending.condensedIds else []
  | _ => []

end CompactionAct

/-- The identities committed along a run. -/
def committedIds (rewrote : Bool) (as : List (CompactionAct V)) : Finset String :=
  (as.flatMap (CompactionAct.committed rewrote)).toFinset

/-- A step which counts what it commits. -/
structure Counts (state : SessionState S) (a : CompactionAct V) (state' : SessionState S)
    (reports : List Report) : Prop where
  seen : ∀ rewrote, (state.seen rewrote).count (a.committed rewrote)
    = (state'.seen rewrote, blocksReported rewrote reports)
  total : state'.condensedTotal
    = state.condensedTotal + (blocksReported true reports + blocksReported false reports)
  disabled : state'.disabled = state.disabled

/-- A step at which compaction is disabled. -/
structure Trips (state : SessionState S) (a : CompactionAct V) (state' : SessionState S)
    (reports : List Report) : Prop where
  enabled : state.disabled = false
  disabled : state'.disabled = true
  committed : ∀ rewrote, a.committed rewrote = []
  seen : ∀ rewrote, state'.seen rewrote = []
  reported : ∀ rewrote, blocksReported rewrote reports = 0
  total : state'.condensedTotal = state.condensedTotal

/-- A step that changes nothing of what is counted. -/
theorem counts_same {state' : SessionState S} {a : CompactionAct V}
    (committed : ∀ rewrote, a.committed rewrote = [])
    (realized : state'.seenRealized = state.seenRealized)
    (projected : state'.seenProjected = state.seenProjected)
    (total : state'.condensedTotal = state.condensedTotal)
    (disabled : state'.disabled = state.disabled) :
  Counts state a state' []
  := by
  constructor
  · intro rewrote
    rw [committed, SessionState.seen, SessionState.seen, realized, projected]
    rfl
  · rw [total]
    rfl
  · apply disabled

theorem counts_begin {request : Request V} (h : Tracks request.session sessions) :
  Tracks request.session (begin sessions request.session request.mode.rewrites).1
    ∧ Counts (stateOf sessions request.session) (.rewrite request)
      (stateOf (begin sessions request.session request.mode.rewrites).1 request.session) []
  := by
  obtain ⟨⟨sessions', state⟩, hentry⟩ := Option.isSome_iff_exists.mp h
  have hstate := entry_stateOf hentry
  unfold begin
  rw [hentry]
  dsimp only
  split
  case isTrue =>
      rw [stateOf_entry hentry]
      constructor
      · apply tracks_of_entry hentry
      · exact counts_same (fun _ => rfl) rfl rfl rfl rfl
  case isFalse =>
      rw [stateOf_put hentry, if_pos rfl, ← hstate]
      constructor
      · apply tracks_put hentry
      · exact counts_same (fun _ => rfl) rfl rfl rfl rfl

/-- A saving that is not reported has no blocks. -/
theorem blocksReported_saving (rewrote : Bool) (agentId session : String) (saving : Saving) :
  blocksReported rewrote (if saving.isEmpty then [] else [.saving agentId session saving])
    = if saving.rewrote = rewrote then saving.blocks else 0
  := by
  split
  case isTrue hempty =>
      simp only [Saving.isEmpty, Bool.and_eq_true, decide_eq_true_eq] at hempty
      rw [hempty.1.1, ite_self]
      rfl
  case isFalse => simp [blocksReported]

theorem counts_commit
    {session : String} (h : Tracks session sessions) (agentId : String) (pending : Pending) :
  Tracks session (commit sessions session agentId pending).1
    ∧ Counts (stateOf sessions session) (V := V) (.commit session agentId pending)
      (stateOf (commit sessions session agentId pending).1 session)
      (commit sessions session agentId pending).2
  := by
  obtain ⟨⟨sessions', state⟩, hentry⟩ := Option.isSome_iff_exists.mp h
  have hstate := entry_stateOf hentry
  unfold commit record
  rw [hentry]
  dsimp only
  rw [stateOf_put hentry, if_pos rfl, ← hstate]
  constructor
  · apply tracks_put hentry
  · generalize hcounted : (if pending.rewrote then state.seenRealized
      else state.seenProjected).count pending.condensedIds = counted
    obtain ⟨seen, blocks⟩ := counted
    dsimp only
    cases hrewrote : pending.rewrote with
    | true =>
      rw [hrewrote, if_pos rfl] at hcounted
      constructor
      · intro rewrote
        rw [blocksReported_saving]
        cases rewrote with
        | true => simp [CompactionAct.committed, SessionState.seen, hrewrote, hcounted]
        | false => simp [CompactionAct.committed, SessionState.seen, hrewrote, SeenBlocks.count]
      · rw [blocksReported_saving, blocksReported_saving]
        simp
      · rfl
    | false =>
      rw [hrewrote, if_neg Bool.false_ne_true] at hcounted
      constructor
      · intro rewrote
        rw [blocksReported_saving]
        cases rewrote with
        | true => simp [CompactionAct.committed, SessionState.seen, hrewrote, SeenBlocks.count]
        | false => simp [CompactionAct.committed, SessionState.seen, hrewrote, hcounted]
      · rw [blocksReported_saving, blocksReported_saving]
        simp
      · rfl

section Usage

variable [LE S] [LT S] [Mul S] [DecidableLE S] [DecidableLT S] (pass : Pass V) (shares : Shares S)

variable {a : CompactionAct V}

theorem counts_judge {state : SessionState S} {session agentId : String} {share : S}
    (committed : ∀ rewrote, a.committed rewrote = []) :
  Counts state a (judge shares state session agentId share).1
      (judge shares state session agentId share).2
    ∨ Trips state a (judge shares state session agentId share).1
      (judge shares state session agentId share).2
  := by
  have same : Counts state a state [] := counts_same committed rfl rfl rfl rfl
  unfold judge
  split
  case isTrue =>
      left
      apply same
  case isFalse henabled =>
      split
      case isTrue =>
          left
          apply same
      case isFalse =>
          split
          case isTrue =>
              left
              dsimp only
              split
              case isTrue => exact counts_same committed rfl rfl rfl rfl
              case isFalse => apply same
          case isFalse =>
              split
              case h_1 =>
                  left
                  apply same
              case h_2 baseline =>
                  split
                  case isTrue =>
                      dsimp only
                      split
                      case isTrue =>
                          right
                          constructor
                          · simpa using henabled
                          · rfl
                          · apply committed
                          · intro rewrote
                            rw [SessionState.seen]
                            split
                            all_goals rfl
                          · intro rewrote
                            simp [blocksReported]
                          · rfl
                      case isFalse =>
                          left
                          exact counts_same committed rfl rfl rfl rfl
                  case isFalse =>
                      left
                      exact counts_same committed rfl rfl rfl rfl

theorem counts_observeUsage {sessions : Sessions S} {session agentId : String} {usage : AgentUsage}
    {measured : Bool} (h : Tracks session sessions) :
  Tracks session (observeUsage shares sessions session agentId usage measured).1
    ∧ (Counts (stateOf sessions session) (V := V) (.observeUsage session agentId usage measured)
        (stateOf (observeUsage shares sessions session agentId usage measured).1 session)
        (observeUsage shares sessions session agentId usage measured).2
      ∨ Trips (stateOf sessions session) (V := V) (.observeUsage session agentId usage measured)
        (stateOf (observeUsage shares sessions session agentId usage measured).1 session)
        (observeUsage shares sessions session agentId usage measured).2)
  := by
  obtain ⟨⟨sessions', state⟩, hentry⟩ := Option.isSome_iff_exists.mp h
  have hstate := entry_stateOf hentry
  have same : Counts (stateOf sessions session) (V := V)
      (.observeUsage session agentId usage measured) (stateOf sessions session) [] :=
    counts_same (fun _ => rfl) rfl rfl rfl rfl
  unfold observeUsage
  split
  case isTrue => exact ⟨h, Or.inl same⟩
  case isFalse =>
      split
      case h_1 => exact ⟨h, Or.inl same⟩
      case h_2 share _ =>
          rw [hentry]
          dsimp only
          rw [stateOf_put hentry, if_pos rfl, ← hstate]
          constructor
          · apply tracks_put hentry
          · exact counts_judge shares fun _ => rfl

/-- A step on a session which is tracked counts what it commits, or disables compaction. -/
theorem step_cases {sessions : Sessions S} (h : Tracks a.session sessions) :
  Tracks a.session ((machine pass shares).next sessions a)
    ∧ (Counts (stateOf sessions a.session) a
        (stateOf ((machine pass shares).next sessions a) a.session)
        ((machine pass shares).emit sessions a)
      ∨ Trips (stateOf sessions a.session) a
        (stateOf ((machine pass shares).next sessions a) a.session)
        ((machine pass shares).emit sessions a))
  := by
  cases a with
  | rewrite request =>
    change Tracks request.session (rewrite pass sessions request).1
      ∧ (Counts (stateOf sessions request.session) (.rewrite request)
          (stateOf (rewrite pass sessions request).1 request.session) []
        ∨ Trips (stateOf sessions request.session) (.rewrite request)
          (stateOf (rewrite pass sessions request).1 request.session) [])
    obtain hpassed | ⟨hbegun, -⟩ := rewrite_cases pass sessions request
    · rw [hpassed]
      exact ⟨h, Or.inl (counts_same (fun _ => rfl) rfl rfl rfl rfl)⟩
    · rw [hbegun]
      obtain ⟨htracks, hcounts⟩ := counts_begin h
      exact ⟨htracks, Or.inl hcounts⟩
  | commit session agentId pending =>
    obtain ⟨htracks, hcounts⟩ := counts_commit (V := V) h agentId pending
    exact ⟨htracks, Or.inl hcounts⟩
  | observeUsage session agentId usage measured => exact counts_observeUsage shares h

/-! ### Runs -/

theorem blocksReported_append (rewrote : Bool) (reports reports' : List Report) :
  blocksReported rewrote (reports ++ reports')
    = blocksReported rewrote reports + blocksReported rewrote reports'
  := by
  rw [blocksReported, List.map_append, List.sum_append]
  rfl

theorem committedIds_cons (rewrote : Bool) (a : CompactionAct V) (as : List (CompactionAct V)) :
  committedIds rewrote (a :: as) = (a.committed rewrote).toFinset ∪ committedIds rewrote as
  := by
  rw [committedIds, List.flatMap_cons, List.toFinset_append]
  rfl

theorem committedIds_append (rewrote : Bool) (as bs : List (CompactionAct V)) :
  committedIds rewrote (as ++ bs) = committedIds rewrote as ∪ committedIds rewrote bs
  := by
  rw [committedIds, List.flatMap_append, List.toFinset_append]
  rfl

/-- The step does not change whether compaction is disabled for the session. -/
def Steady (session : String) (sessions : Sessions S) (a : CompactionAct V) : Prop :=
  (stateOf ((machine pass shares).next sessions a) session).disabled
    = (stateOf sessions session).disabled

variable {session : String} {sessions : Sessions S} {as : List (CompactionAct V)}

/-- Along a run of one session, which starts with some identities remembered, as many blocks are
reported as there are other identities committed. -/
theorem blocksReported_trace
    (own : ∀ a ∈ as, a.session = session) (tracks : Tracks session sessions)
    (steady : (machine pass shares).Along (Steady pass shares session) sessions as)
    {rewrote : Bool} {remembered : Finset String}
    (holds : ((stateOf sessions session).seen rewrote).Holds remembered)
    (room : (remembered ∪ committedIds rewrote as).card ≤ maxCondensedIds) :
  blocksReported rewrote ((machine pass shares).trace sessions as)
    = (committedIds rewrote as \ remembered).card
  := by
  induction as generalizing sessions remembered with
  | nil => simp [blocksReported, committedIds, Machine.trace]
  | cons a as ih =>
    obtain ⟨ha, hrest⟩ := steady
    obtain rfl := own a List.mem_cons_self
    rw [committedIds_cons, ← Finset.union_assoc] at room
    obtain ⟨tracks', counts | trips⟩ := step_cases pass shares tracks
    · have hroom := le_trans (Finset.card_le_card Finset.subset_union_left) room
      obtain ⟨hholds, hblocks⟩ := holds_count holds hroom
      rw [counts.seen] at hholds hblocks
      dsimp only at hholds hblocks
      rw [Machine.trace, blocksReported_append, committedIds_cons, hblocks,
        ih (fun b hb => own b (List.mem_cons_of_mem a hb)) tracks' hrest hholds room]
      rw [← Finset.card_union_of_disjoint]
      · congr 1
        ext id
        simp only [Finset.mem_union, Finset.mem_sdiff]
        tauto
      · rw [Finset.disjoint_left]
        intro id
        simp only [Finset.mem_sdiff, Finset.mem_union]
        tauto
    · rw [Steady, trips.enabled, trips.disabled] at ha
      cases ha

/-- The tally of a session is what was reported for it. -/
theorem condensedTotal_final
    (own : ∀ a ∈ as, a.session = session) (tracks : Tracks session sessions) :
  Tracks session ((machine pass shares).final sessions as)
    ∧ (stateOf ((machine pass shares).final sessions as) session).condensedTotal
      = (stateOf sessions session).condensedTotal
        + (blocksReported true ((machine pass shares).trace sessions as)
          + blocksReported false ((machine pass shares).trace sessions as))
  := by
  induction as generalizing sessions with
  | nil => exact ⟨tracks, rfl⟩
  | cons a as ih =>
    obtain rfl := own a List.mem_cons_self
    obtain ⟨tracks', hstep⟩ := step_cases pass shares tracks
    obtain ⟨htracks, htotal⟩ := ih (fun b hb => own b (List.mem_cons_of_mem a hb)) tracks'
    use htracks
    rw [Machine.final, htotal, Machine.trace, blocksReported_append, blocksReported_append]
    obtain counts | trips := hstep
    · rw [counts.total]
      omega
    · rw [trips.total, trips.reported, trips.reported]
      omega

/-! ### The kill switch -/

theorem disabled_final
    (disabled : (stateOf sessions session).disabled = true) (as : List (CompactionAct V)) :
  (stateOf ((machine pass shares).final sessions as) session).disabled = true
  := by
  apply (machine pass shares).final_preserved
    (I := fun sessions => (stateOf sessions session).guards.disabled = true) _ disabled
  intro sessions a h
  apply (guardStep_next pass shares sessions a session).disabled h

/-- The only change there is, is that compaction is disabled. -/
theorem not_steady_iff :
  ¬Steady pass shares session sessions a
    ↔ (stateOf sessions session).disabled = false
      ∧ (stateOf ((machine pass shares).next sessions a) session).disabled = true
  := by
  have hkept : (stateOf sessions session).disabled = true →
      (stateOf ((machine pass shares).next sessions a) session).disabled = true :=
    (guardStep_next pass shares sessions a session).disabled
  rw [Steady]
  cases h : (stateOf sessions session).disabled with
  | true => simp [hkept h]
  | false => simp

theorem steady_of_disabled (disabled : (stateOf sessions session).disabled = true) :
  (machine pass shares).Along (Steady pass shares session) sessions as
  := by
  induction as generalizing sessions with
  | nil => trivial
  | cons a as ih =>
    have hnext := disabled_final pass shares disabled [a]
    constructor
    · rw [Steady, disabled]
      apply hnext
    · apply ih hnext

theorem steady_of_enabled
    (enabled : (stateOf ((machine pass shares).final sessions as) session).disabled = false) :
  (machine pass shares).Along (Steady pass shares session) sessions as
  := by
  obtain along | ⟨before, a, after, rfl, -, htrips⟩ :=
    (machine pass shares).along_or_exists_first (Steady pass shares session) sessions as
  · apply along
  · rw [not_steady_iff] at htrips
    have hfinal := disabled_final pass shares htrips.2 after
    rw [Machine.final_append] at enabled
    cases enabled.symm.trans hfinal

/-- Compaction is disabled for the session by an action of a run. -/
def TripsAt (session : String) (as before : List (CompactionAct V)) (a : CompactionAct V)
    (after : List (CompactionAct V)) : Prop :=
  as = before ++ a :: after
    ∧ (stateOf ((machine pass shares).final [] before) session).disabled = false
    ∧ (stateOf ((machine pass shares).final [] (before ++ [a])) session).disabled = true

/-- What is committed before compaction is disabled, and what is committed after, is counted
apart. -/
theorem blocksReported_of_tripsAt
    {before after : List (CompactionAct V)} (own : ∀ a ∈ as, a.session = session) {rewrote : Bool}
    (few : (committedIds rewrote as).card ≤ maxCondensedIds)
    (trips : TripsAt pass shares session as before a after) :
  committedIds rewrote as = committedIds rewrote before ∪ committedIds rewrote after
    ∧ blocksReported rewrote ((machine pass shares).trace [] as)
      = (committedIds rewrote before).card + (committedIds rewrote after).card
  := by
  obtain ⟨rfl, enabled, disabled⟩ := trips
  have hbefore (b) (hb : b ∈ before) : b.session = session :=
    own b (List.mem_append_left _ hb)
  have hafter (b) (hb : b ∈ after) : b.session = session :=
    own b (List.mem_append_right _ (List.mem_cons_of_mem a hb))
  obtain rfl : a.session = session := own a (by simp)
  obtain ⟨tracks, -⟩ := condensedTotal_final pass shares hbefore tracks_nil
  obtain ⟨tracks', counts | trips⟩ := step_cases pass shares tracks
  · rw [Machine.final_append] at disabled
    have hsame := counts.disabled
    rw [enabled] at hsame
    rw [Machine.final, Machine.final, hsame] at disabled
    cases disabled
  · have hids : committedIds rewrote (before ++ a :: after)
        = committedIds rewrote before ∪ committedIds rewrote after := by
      rw [committedIds_append, committedIds_cons, trips.committed, List.toFinset_nil,
        Finset.empty_union]
    rw [hids] at few
    use hids
    rw [Machine.trace_append, Machine.trace, blocksReported_append, blocksReported_append,
      trips.reported, zero_add]
    congr 1
    · rw [blocksReported_trace pass shares hbefore tracks_nil
        (steady_of_enabled pass shares enabled) (holds_new rewrote), Finset.sdiff_empty]
      rw [Finset.empty_union]
      apply le_trans (Finset.card_le_card Finset.subset_union_left) few
    · have hseen : ((stateOf ((machine pass shares).next
          ((machine pass shares).final [] before) a) a.session).seen rewrote).Holds ∅ := by
        rw [trips.seen]
        apply holds_nil
      rw [blocksReported_trace pass shares hafter tracks'
        (steady_of_disabled pass shares trips.disabled) hseen, Finset.sdiff_empty]
      rw [Finset.empty_union]
      apply le_trans (Finset.card_le_card Finset.subset_union_right) few

/-- The blocks a session condensed, the dollars it saved in millionths, and its regressions. -/
def stats (sessions : Sessions S) (session : String) : ℕ × ℕ × ℕ :=
  let state := stateOf sessions session
  (state.condensedTotal, state.savedMicros, state.regressions)

/-- Each block is reported once for the requests that were rewritten, and once for the others, and
the tally is the sum of both, exactly when no block is committed for the same kind of requests
both before and after compaction is disabled. -/
theorem reported_once_iff
    (own : ∀ a ∈ as, a.session = session)
    (few : ∀ rewrote, (committedIds rewrote as).card ≤ maxCondensedIds) :
  ((∀ rewrote, blocksReported rewrote ((machine pass shares).trace [] as)
        = (committedIds rewrote as).card)
      ∧ (stats ((machine pass shares).final [] as) session).1
        = blocksReported true ((machine pass shares).trace [] as)
          + blocksReported false ((machine pass shares).trace [] as))
    ↔ ∀ before a after, TripsAt pass shares session as before a after →
      ∀ rewrote, Disjoint (committedIds rewrote before) (committedIds rewrote after)
  := by
  obtain ⟨-, htotal⟩ := condensedTotal_final pass shares own tracks_nil
  have hstats : (stats ((machine pass shares).final [] as) session).1
      = blocksReported true ((machine pass shares).trace [] as)
        + blocksReported false ((machine pass shares).trace [] as) := by
    rw [stats, htotal]
    apply Nat.zero_add
  constructor
  · rintro ⟨honce, -⟩ before a after trips rewrote
    obtain ⟨hids, hblocks⟩ := blocksReported_of_tripsAt pass shares own (few rewrote) trips
    rw [← Finset.card_union_eq_card_add_card, ← hids, ← honce, hblocks]
  · intro hdisjoint
    constructor
    · intro rewrote
      obtain steady | ⟨before, a, after, hsplit, -, htrips⟩ :=
        (machine pass shares).along_or_exists_first (Steady pass shares session) [] as
      · rw [blocksReported_trace pass shares own tracks_nil steady (holds_new rewrote),
          Finset.sdiff_empty]
        rw [Finset.empty_union]
        apply few
      · rw [not_steady_iff] at htrips
        have trips : TripsAt pass shares session as before a after := by
          use hsplit, htrips.1
          rw [Machine.final_append]
          apply htrips.2
        obtain ⟨hids, hblocks⟩ := blocksReported_of_tripsAt pass shares own (few rewrote) trips
        rw [hblocks, hids, Finset.card_union_of_disjoint (hdisjoint before a after trips rewrote)]
    · apply hstats

end Usage

/-! ### A request that was on its way -/

/-- What a request of the session condensed. -/
def condensed (rewrote : Bool) (id : String) : CompactionAct Unit :=
  .commit "session" "claude" ⟨[id], 9, none, rewrote⟩

def answered (cacheRead : ℕ) : CompactionAct Unit :=
  .observeUsage "session" "claude" ⟨some (100 - cacheRead), none, some cacheRead⟩ true

/-- Four requests are rewritten, the first three of which read little from the cache; then the
fourth is answered, which condensed the given block. -/
def lateAnswer (id : String) : List (CompactionAct Unit) :=
  [.rewrite promoted, condensed false "block", answered 90, .rewrite promoted, .rewrite promoted,
    .rewrite promoted, .rewrite promoted, condensed true "block", answered 10,
    condensed true "block", answered 10, condensed true "block", answered 10, condensed true id]

/-- A block which is committed before and after compaction is disabled is reported twice. -/
theorem late_reported_twice :
  (∀ a ∈ lateAnswer "block", a.session = "session")
    ∧ (∀ rewrote, (committedIds rewrote (lateAnswer "block")).card ≤ maxCondensedIds)
    ∧ blocksReported true ((machine condensing fractions).trace [] (lateAnswer "block")) = 2
    ∧ (committedIds true (lateAnswer "block")).card = 1
  := by
  decide +kernel

/-- So it is one that was committed before compaction was disabled, and after. -/
theorem late_committed_twice :
  ∃ before a after, TripsAt condensing fractions "session" (lateAnswer "block") before a after
    ∧ ∃ rewrote, ¬Disjoint (committedIds rewrote before) (committedIds rewrote after)
  := by
  by_contra h
  push Not at h
  have own : ∀ a ∈ lateAnswer "block", a.session = "session" := by decide
  have honce := (reported_once_iff condensing fractions own (by decide +kernel)).mpr h
  have htwice : blocksReported true ((machine condensing fractions).trace []
      (lateAnswer "block")) ≠ (committedIds true (lateAnswer "block")).card := by
    decide +kernel
  apply htwice (honce.1 true)

end Lazybox.Compaction
