import Lazybox.Claims.Lease

/-!
# A lease moves forward

While a claim is held its expiry never goes back, and its session and its identity stay
(`WorkingClaimRecord.Continues`).  A heartbeat saves the expiry it is about to have written
upstream before it has it written: the record is marked as applied only when the write was
accepted.  After a check that found nothing due, or whose heartbeat went through, the claim is
active upstream for three more intervals of the heartbeat.

`Sound` is what is known of the record at any time, and `Stands` says that a record which is
marked as applied is one whose expiry is upstream.
-/

namespace Lazybox.Claims

open WorkingClaim (Text WorkingClaimNote)

namespace WorkingClaimRecord

/-! ### Records -/

/-- The same claim, with an expiry that is not earlier. -/
structure Continues (r p : WorkingClaimRecord) : Prop where
  expiresAt : r.expiresAt ≤ p.expiresAt
  claimSession : p.claimSession = r.claimSession
  ownerId : p.ownerId = r.ownerId

/-- A note upstream which says what the record says. -/
structure States (r : WorkingClaimRecord) (note : WorkingClaimNote Instant) : Prop where
  identity : r.identity = some (note.device, note.session)
  expiresAt : note.expiresAt = r.expiresAt
  held : note.releasedAt = none

/-- A record that a heartbeat may leave: it runs for more than what is left when one is due. -/
structure Renews (r : WorkingClaimRecord) (now : Instant) (p : WorkingClaimRecord) : Prop
    extends Continues r p where
  bounded : p.expiresAt ≤ now + workingClaimTtl
  ahead : now + (workingClaimTtl - workingClaimHeartbeat) < p.expiresAt

theorem Continues.refl (r : WorkingClaimRecord) :
  r.Continues r
  := by
  constructor
  · apply le_refl
  · rfl
  · rfl

variable {r p : WorkingClaimRecord}

theorem Continues.trans {q : WorkingClaimRecord} (h : r.Continues p) (h' : p.Continues q) :
  r.Continues q
  := by
  constructor
  · apply le_trans h.expiresAt h'.expiresAt
  · rw [h'.claimSession, h.claimSession]
  · rw [h'.ownerId, h.ownerId]

theorem Continues.identity (h : r.Continues p) :
  p.identity = r.identity
  := by
  rw [WorkingClaimRecord.identity, WorkingClaimRecord.identity, h.claimSession, h.ownerId]

variable {now : Instant}

theorem needsHeartbeat_eq_false (h : r.needsHeartbeat now = false) :
  r.applied = true ∧ now + (workingClaimTtl - workingClaimHeartbeat) < r.expiresAt
  := by
  simp only [needsHeartbeat, Bool.or_eq_false_iff, Bool.not_eq_false', decide_eq_false_iff_not,
    not_le] at h
  apply h.1

theorem prepareHeartbeat_eq_none (h : r.prepareHeartbeat now = none) :
  r.needsHeartbeat now = false
  := by
  unfold prepareHeartbeat at h
  split at h
  case isTrue hn => simpa using hn
  case isFalse =>
      split at h
      all_goals cases h

/-- A heartbeat that is due leaves a record which is not applied, and runs for longer. -/
theorem prepareHeartbeat_eq_some
    (hr : r.expiresAt ≤ now + workingClaimTtl) (h : r.prepareHeartbeat now = some p) :
  r.needsHeartbeat now = true ∧ r.Renews now p ∧ p.applied = false
  := by
  have interval : 0 < workingClaimHeartbeat := by decide
  unfold prepareHeartbeat at h
  split at h
  case isTrue => cases h
  case isFalse hdue =>
      rw [Bool.not_eq_true, Bool.not_eq_false'] at hdue
      use hdue
      split at h
      case isTrue hpending =>
          obtain ⟨happlied, hahead, -⟩ := hpending
          cases h
          constructor
          · exact ⟨.refl r, hr, hahead⟩
          · simpa using happlied
      case isFalse =>
          cases h
          constructor
          · constructor
            · exact ⟨hr, rfl, rfl⟩
            · apply le_refl
            · apply Int.add_lt_add_left
              apply Int.sub_lt_self _ interval
          · rfl

theorem Renews.observe (h : r.Renews now p) (observed : Option (Text × Option Text)) :
  r.Renews now (p.observe observed)
  := by
  cases observed with
  | none => apply h
  | some => exact ⟨⟨h.expiresAt, h.claimSession, h.ownerId⟩, h.bounded, h.ahead⟩

@[simp]
theorem applied_observe (p : WorkingClaimRecord) (observed : Option (Text × Option Text)) :
  (p.observe observed).applied = p.applied
  := by
  cases observed
  all_goals rfl

variable {note : WorkingClaimNote Instant}

theorem states_note (h : r.note now = some note) :
  r.States note
  := by
  unfold WorkingClaimRecord.note at h
  cases hidentity : r.identity with
  | none =>
    rw [hidentity] at h
    cases h
  | some identity =>
    rw [hidentity] at h
    cases h
    constructor
    · apply hidentity
    · rfl
    · rfl

theorem States.isActiveAt (h : r.States note) {t : Instant} (ht : t < r.expiresAt) :
  note.isActiveAt t = true
  := by
  rw [WorkingClaimNote.isActiveAt, h.held, h.expiresAt]
  simpa using ht

theorem note_eq_none (h : r.note now = none) :
  r.identity = none
  := by
  unfold WorkingClaimRecord.note at h
  cases hidentity : r.identity with
  | none => rfl
  | some identity =>
    rw [hidentity] at h
    cases h

/-- A claim is made with a name, and for the time a claim lasts. -/
theorem new_eq_some {ownerId : Text} {claim : FreshClaim} (h : new ownerId claim now = some r) :
  r.identity.isSome ∧ r.expiresAt = now + workingClaimTtl ∧ r.applied = false
  := by
  unfold new at h
  cases hidentity : workingClaimIdentity ownerId claim.claimSession with
  | none =>
    rw [hidentity] at h
    cases h
  | some identity =>
    rw [hidentity] at h
    cases h
    constructor
    · rw [WorkingClaimRecord.identity, hidentity]
      rfl
    · constructor
      · rfl
      · rfl

end WorkingClaimRecord

/-! ### Heartbeats -/

namespace HeartbeatAnswers

variable (answers : HeartbeatAnswers)

def Synced : Prop := ∃ commentId labelRemoved, answers.sync = .synced commentId labelRemoved

/-- The record was saved, and the claim was written upstream. -/
def Succeeds : Prop := answers.saved = true ∧ answers.Synced

end HeartbeatAnswers

namespace Lease

/-- A heartbeat of `r` that was made, with `p` the record it leaves. -/
structure Advances (r : WorkingClaimRecord) (now : Instant) (answers : HeartbeatAnswers)
    (s' : Lease) (p : WorkingClaimRecord) : Prop where
  due : r.needsHeartbeat now = true
  stored : s'.stored = some p
  renews : r.Renews now p
  synced : p.applied = true → answers.Synced
  stands : p.applied = true ∨ (r.identity.isSome ∧ answers.Succeeds) →
    ∃ note, s'.upstream = some note ∧ p.States note

variable {ownerId : Text} {s : Lease} {r : WorkingClaimRecord} {now : Instant}
  {answers : HeartbeatAnswers}

/-- A write of the claim either goes through, and the record knows of the comment, or does not, and
then the record had no name or the write was answered as failed. -/
theorem syncHold_cases (s : Lease) (p : WorkingClaimRecord) (now : Instant) (answer : SyncAnswer) :
  (∃ note commentId labelRemoved, answer = .synced commentId labelRemoved ∧ p.States note
      ∧ s.syncHold p now answer = ({ s with upstream := some note },
        some { p with
          claimCommentId := some commentId
          legacyLabel := if labelRemoved then none else p.legacyLabel }))
    ∨ ((p.identity.isSome → ∀ commentId labelRemoved, answer ≠ .synced commentId labelRemoved)
      ∧ ∃ upstream, s.syncHold p now answer = ({ s with upstream := upstream }, none))
  := by
  unfold syncHold
  cases hnote : p.note now with
  | none =>
    right
    constructor
    · rw [WorkingClaimRecord.note_eq_none hnote]
      rintro ⟨⟩
    · use s.upstream
  | some note =>
    cases answer with
    | synced commentId labelRemoved =>
      left
      use note, commentId, labelRemoved
      exact ⟨rfl, WorkingClaimRecord.states_note hnote, rfl⟩
    | failed landed =>
      right
      constructor
      · rintro - commentId labelRemoved ⟨⟩
      · cases landed with
        | false => use s.upstream; rfl
        | true => use some note; rfl

/-- A heartbeat either leaves everything as it was, and then none was due or it failed, or it was
made. -/
theorem heartbeatRecord_cases (ownerId : Text) (s : Lease) (answers : HeartbeatAnswers)
    (hr : r.expiresAt ≤ now + workingClaimTtl) :
  (s.heartbeatRecord ownerId r now answers = s
      ∧ (r.ownerId = ownerId → r.needsHeartbeat now = true → ¬answers.Succeeds))
    ∨ (r.ownerId = ownerId
      ∧ ∃ p, Advances r now answers (s.heartbeatRecord ownerId r now answers) p)
  := by
  unfold heartbeatRecord
  split
  case isTrue hforeign =>
      left
      constructor
      · rfl
      · intro howner
        cases hforeign howner
  case isFalse howner =>
      rw [not_not] at howner
      cases hprepared : r.prepareHeartbeat now with
      | none =>
        left
        constructor
        · rfl
        · intro _ hdue
          rw [WorkingClaimRecord.prepareHeartbeat_eq_none hprepared] at hdue
          cases hdue
      | some prepared =>
        obtain ⟨hdue, hrenews, hpending⟩ :=
          WorkingClaimRecord.prepareHeartbeat_eq_some hr hprepared
        have renews := hrenews.observe answers.observed
        have pending := WorkingClaimRecord.applied_observe prepared answers.observed
        rw [hpending] at pending
        dsimp only
        generalize prepared.observe answers.observed = p at renews pending
        cases hsaved : answers.saved with
        | false =>
          left
          constructor
          · rfl
          · rintro - - ⟨saved, -⟩
            rw [hsaved] at saved
            cases saved
        | true =>
          right
          constructor
          · apply howner
          · have name := renews.identity
            obtain ⟨note, commentId, labelRemoved, hanswer, hstates, hsync⟩ |
              ⟨hanswer, upstream, hsync⟩ :=
                syncHold_cases { s with stored := some p } p now answers.sync
            · cases hmarked : answers.marked with
              | false =>
                use p
                simp only [hsync, Bool.not_true, Bool.false_eq_true, if_false]
                constructor
                · apply hdue
                · rfl
                · apply renews
                · rw [pending]
                  rintro ⟨⟩
                · intro _
                  use note
              | true =>
                simp only [hsync, Bool.not_true, Bool.false_eq_true, if_false, if_true]
                refine ⟨_, hdue, rfl, ?_, ?_, ?_⟩
                · exact ⟨⟨renews.expiresAt, renews.claimSession, renews.ownerId⟩,
                    renews.bounded, renews.ahead⟩
                · intro _
                  use commentId, labelRemoved
                · intro _
                  use note
                  exact ⟨rfl, hstates.identity, hstates.expiresAt, hstates.held⟩
            · use p
              simp only [hsync, Bool.not_true, Bool.false_eq_true, if_false]
              constructor
              · apply hdue
              · rfl
              · apply renews
              · rw [pending]
                rintro ⟨⟩
              · rw [pending]
                rintro (⟨⟨⟩⟩ | ⟨named, -, commentId, labelRemoved, synced⟩)
                rw [← name] at named
                cases hanswer named commentId labelRemoved synced

/-! ### Steps -/

namespace Act

/-- The action has the claim let go upstream, whatever is answered. -/
def releases : Act → Bool
  | .release _ answers | .maintain (some false) _ _ _ answers =>
      match answers.sync with
      | .ok () => true
      | .error landed => landed
  | _ => false

def acquires : Act → Bool
  | .acquire .. => true
  | _ => false

/-- What is answered to the heartbeat of the action. -/
def heartbeatAnswers : Act → Option HeartbeatAnswers
  | .acquire _ _ _ answers | .heartbeat _ _ answers | .maintain _ _ _ answers _ => some answers
  | .release .. => none

def Synced (a : Act) : Prop := ∃ answers ∈ a.heartbeatAnswers, answers.Synced

/-- The record is read, and the heartbeat of the action goes through. -/
def Succeeds : Act → Prop
  | .acquire loading _ _ answers => loading.loaded = true ∧ answers.Succeeds
  | .heartbeat loaded _ answers => loaded = true ∧ answers.Succeeds
  | .maintain live _ loaded answers _ => live = some true ∧ loaded = true ∧ answers.Succeeds
  | .release .. => False

end Act

/-- The record an action is about: the one that is stored, or one that is made. -/
def recordOf (ownerId : Text) (s : Lease) (a : Act) : Option WorkingClaimRecord :=
  match s.stored, a with
  | some r, _ => some r
  | none, .acquire answers now _ _ =>
      if answers.loaded && answers.created then
        answers.claim.bind (WorkingClaimRecord.new ownerId · now)
      else none
  | none, _ => none

/-- Time does not go back. -/
def Clocked (s : Lease) (a : Act) : Prop := s.clock ≤ a.times.1 ∧ a.times.1 ≤ a.times.2

/-- The stored record has a name, and runs no longer than a claim that is taken now. -/
def Sound (s : Lease) : Prop :=
  ∀ r, s.stored = some r → r.identity.isSome ∧ r.expiresAt ≤ s.clock + workingClaimTtl

/-- What a step may do. -/
inductive Outcome (ownerId : Text) (s : Lease) (a : Act) (s' : Lease) : Prop where
  /-- Nothing upstream, and no heartbeat went through. -/
  | kept (stored : s'.stored = s.recordOf ownerId a) (upstream : s'.upstream = s.upstream)
      (failed : ∀ r, s.recordOf ownerId a = some r → r.ownerId = ownerId →
        r.needsHeartbeat a.times.2 = true → ¬a.Succeeds)
  /-- A heartbeat was made. -/
  | advanced (r p : WorkingClaimRecord) (record : s.recordOf ownerId a = some r)
      (owner : r.ownerId = ownerId) (answers : HeartbeatAnswers)
      (given : a.heartbeatAnswers = some answers) (succeeds : a.Succeeds → answers.Succeeds)
      (advances : Advances r a.times.2 answers s' p)
  /-- The claim was let go upstream. -/
  | released (releases : a.releases = true) (stored : s'.stored = s.stored ∨ s'.stored = none)
  /-- The record of another box was dropped. -/
  | pruned (r : WorkingClaimRecord) (stored : s.stored = some r) (foreign : r.ownerId ≠ ownerId)
      (gone : s'.stored = none)

variable {a : Act}

theorem Sound.recordOf (hs : s.Sound) (ha : Clocked s a) (h : s.recordOf ownerId a = some r) :
  r.identity.isSome ∧ r.expiresAt ≤ a.times.2 + workingClaimTtl
  := by
  obtain ⟨hfirst, hsecond⟩ := ha
  unfold Lease.recordOf at h
  split at h
  case h_1 r' _ hstored =>
      cases h
      obtain ⟨named, bounded⟩ := hs r hstored
      constructor
      · apply named
      · apply le_trans bounded
        apply Int.add_le_add_right (le_trans hfirst hsecond)
  case h_2 answers now later heartbeat hstored =>
      split at h
      case isFalse => cases h
      case isTrue =>
          obtain ⟨claim, -, hnew⟩ := Option.bind_eq_some_iff.mp h
          obtain ⟨named, bounded, -⟩ := WorkingClaimRecord.new_eq_some hnew
          constructor
          · apply named
          · rw [bounded]
            apply Int.add_le_add_right hsecond
  case h_3 => cases h

theorem Outcome.with_clock {s' : Lease} (h : Outcome ownerId s a s') (clock : Instant) :
  Outcome ownerId s a { s' with clock := clock }
  := by
  cases h with
  | kept stored upstream failed => exact .kept stored upstream failed
  | advanced r p record owner answers given succeeds advances =>
    apply Outcome.advanced r p record owner answers given succeeds
    exact ⟨advances.due, advances.stored, advances.renews, advances.synced, advances.stands⟩
  | released releases stored => exact .released releases stored
  | pruned r stored foreign gone => exact .pruned r stored foreign gone

/-- A heartbeat of the record an action is about is an outcome of the action. -/
theorem outcome_heartbeatRecord {t : Lease} (hr : r.expiresAt ≤ a.times.2 + workingClaimTtl)
    (record : s.recordOf ownerId a = some r) (given : a.heartbeatAnswers = some answers)
    (succeeds : a.Succeeds → answers.Succeeds) (stored : t.stored = some r)
    (upstream : t.upstream = s.upstream) :
  Outcome ownerId s a (t.heartbeatRecord ownerId r a.times.2 answers)
  := by
  obtain ⟨hsame, hfailed⟩ | ⟨howner, p, advances⟩ :=
    heartbeatRecord_cases ownerId t answers hr
  · rw [hsame]
    apply Outcome.kept
    · rw [record, stored]
    · apply upstream
    · intro r' hr' howner hdue hsucceeds
      rw [record] at hr'
      cases hr'
      apply hfailed howner hdue (succeeds hsucceeds)
  · exact .advanced r p record howner answers given succeeds advances

/-- An action that reads nothing, and makes nothing, leaves everything as it was. -/
theorem outcome_same (record : s.recordOf ownerId a = s.stored)
    (failed : ∀ r, s.stored = some r → r.ownerId = ownerId → ¬a.Succeeds) :
  Outcome ownerId s a s
  := by
  apply Outcome.kept
  · rw [record]
  · rfl
  · intro r hr howner _
    rw [record] at hr
    apply failed r hr howner

theorem recordOf_of_stored (h : s.stored = some r) :
  s.recordOf ownerId a = s.stored
  := by
  unfold recordOf
  rw [h]

theorem recordOf_of_not_acquire (h : a.acquires = false) :
  s.recordOf ownerId a = s.stored
  := by
  unfold recordOf
  cases a with
  | acquire => cases h
  | heartbeat | release | maintain =>
    cases s.stored
    all_goals rfl

theorem outcome_heartbeatHolder {loaded : Bool} (hs : s.Sound) (ha : Clocked s a)
    (record : s.recordOf ownerId a = s.stored) (given : a.heartbeatAnswers = some answers)
    (succeeds : a.Succeeds → loaded = true ∧ answers.Succeeds) :
  Outcome ownerId s a (s.heartbeatHolder ownerId loaded a.times.2 answers)
  := by
  unfold heartbeatHolder
  cases hstored : s.stored with
  | none =>
    apply outcome_same record
    rw [hstored]
    rintro _ ⟨⟩
  | some r =>
    cases loaded with
    | false =>
      apply outcome_same record
      rintro _ _ _ hsucceeds
      cases (succeeds hsucceeds).1
    | true =>
      have hrecord := record.trans hstored
      apply outcome_heartbeatRecord (hs.recordOf ha hrecord).2 hrecord given
      · intro hsucceeds
        apply (succeeds hsucceeds).2
      · apply hstored
      · rfl

/-- A release lets the claim go, unless it fails and did not land. -/
theorem outcome_release {answers : ReleaseAnswers} (record : s.recordOf ownerId a = s.stored)
    (releases : a.releases = match answers.sync with | .ok () => true | .error landed => landed)
    (failed : ¬a.Succeeds) :
  Outcome ownerId s a (s.release ownerId now answers)
  := by
  have same : Outcome ownerId s a s := outcome_same record fun _ _ _ => failed
  unfold release
  split
  case h_1 => apply same
  case h_2 r hstored =>
      split
      case isTrue => apply same
      case isFalse =>
          cases hsync : answers.sync with
          | error landed =>
            rw [hsync] at releases
            cases landed with
            | false => apply same
            | true =>
              apply Outcome.released releases
              left
              rfl
          | ok =>
            rw [hsync] at releases
            apply Outcome.released releases
            cases answers.deleted with
            | true =>
              right
              rfl
            | false =>
              left
              rfl

theorem outcome_acquire {loading : AcquireAnswers} {later : Instant} (hs : s.Sound)
    (ha : Clocked s (.acquire loading now later answers)) :
  Outcome ownerId s (.acquire loading now later answers)
    (s.acquire ownerId loading now later answers)
  := by
  have succeeds :
      Act.Succeeds (.acquire loading now later answers) → answers.Succeeds := And.right
  unfold acquire
  cases hloaded : loading.loaded with
  | false =>
    apply outcome_same
    · cases hstored : s.stored with
      | none => simp [recordOf, hstored, hloaded]
      | some r => rw [recordOf_of_stored hstored, hstored]
    · rintro _ _ _ ⟨loaded, -⟩
      rw [hloaded] at loaded
      cases loaded
  | true =>
    simp only [Bool.not_true, Bool.false_eq_true, if_false]
    cases hstored : s.stored with
    | some r =>
      have hkept : s.recordOf ownerId (.acquire loading now later answers) = s.stored :=
        recordOf_of_stored hstored
      have hrecord := hkept.trans hstored
      exact outcome_heartbeatRecord (hs.recordOf ha hrecord).2 hrecord rfl succeeds hstored rfl
    | none =>
      have hrecord :
          s.recordOf ownerId (.acquire loading now later answers)
            = if loading.created then loading.claim.bind (WorkingClaimRecord.new ownerId · now)
              else none := by
        simp [recordOf, hstored, hloaded]
      cases hclaim : loading.claim.bind (WorkingClaimRecord.new ownerId · now) with
      | none =>
        apply outcome_same
        · rw [hrecord, hclaim, ite_self, hstored]
        · rw [hstored]
          rintro _ ⟨⟩
      | some r =>
        rw [hclaim] at hrecord
        cases hcreated : loading.created with
        | false =>
          rw [hcreated] at hrecord
          apply outcome_same
          · rw [hrecord, hstored]
            rfl
          · rw [hstored]
            rintro _ ⟨⟩
        | true =>
          rw [hcreated] at hrecord
          exact outcome_heartbeatRecord (hs.recordOf ha hrecord).2 hrecord rfl succeeds rfl
            rfl

theorem outcome_maintainOnce {live : Option Bool} {loaded : Bool} {released : ReleaseAnswers}
    (hs : s.Sound) (ha : Clocked s (.maintain live now loaded answers released)) :
  Outcome ownerId s (.maintain live now loaded answers released)
    (s.maintainOnce ownerId live now loaded answers released)
  := by
  have record : s.recordOf ownerId (.maintain live now loaded answers released) = s.stored :=
    recordOf_of_not_acquire rfl
  unfold maintainOnce
  cases hstored : s.stored with
  | none =>
    apply outcome_same record
    rw [hstored]
    rintro _ ⟨⟩
  | some r =>
    dsimp only
    split
    case isTrue hforeign =>
        split
        case isTrue => exact .pruned r hstored hforeign rfl
        case isFalse =>
            apply outcome_same record
            intro r' hr' howner
            rw [hstored] at hr'
            cases hr'
            cases hforeign howner
    case isFalse =>
        cases live with
        | none =>
          apply outcome_same record
          rintro _ _ _ ⟨⟨⟩, -⟩
        | some live =>
          cases live with
          | true => exact outcome_heartbeatHolder hs ha record rfl And.right
          | false => exact outcome_release record rfl (by rintro ⟨⟨⟩, -⟩)

/-- What a step does is one of the outcomes. -/
theorem outcome_step (ownerId : Text) (hs : s.Sound) (ha : Clocked s a) :
  Outcome ownerId s a (s.step ownerId a)
  := by
  apply Outcome.with_clock
  cases a with
  | acquire loading now later answers => apply outcome_acquire hs ha
  | heartbeat loaded now answers =>
    exact outcome_heartbeatHolder hs ha (recordOf_of_not_acquire rfl) rfl id
  | release now answers => exact outcome_release (recordOf_of_not_acquire rfl) rfl id
  | maintain live now loaded answers released => apply outcome_maintainOnce hs ha

/-! ### What a step preserves -/

/-- The record an action is about is stored, or is made and not applied yet. -/
theorem recordOf_eq_some (h : s.recordOf ownerId a = some r) :
  s.stored = some r ∨ r.applied = false
  := by
  unfold Lease.recordOf at h
  split at h
  case h_1 r' _ hstored =>
      left
      rw [hstored, h]
  case h_2 =>
      right
      split at h
      case isFalse => cases h
      case isTrue =>
          obtain ⟨claim, -, hnew⟩ := Option.bind_eq_some_iff.mp h
          apply (WorkingClaimRecord.new_eq_some hnew).2.2
  case h_3 => cases h

theorem Sound.step (hs : s.Sound) (ha : Clocked s a) :
  (s.step ownerId a).Sound
  := by
  have later : s.clock + workingClaimTtl ≤ a.times.2 + workingClaimTtl :=
    Int.add_le_add_right (le_trans ha.1 ha.2) _
  intro p hp
  have clock : (s.step ownerId a).clock = a.times.2 := rfl
  rw [clock]
  cases outcome_step ownerId hs ha with
  | kept stored =>
    rw [stored] at hp
    apply hs.recordOf ha hp
  | advanced r q record owner answers given succeeds advances =>
    rw [advances.stored] at hp
    cases hp
    constructor
    · rw [advances.renews.identity]
      apply (hs.recordOf ha record).1
    · apply advances.renews.bounded
  | released releases stored =>
    obtain stored | stored := stored
    · rw [stored] at hp
      obtain ⟨named, bounded⟩ := hs p hp
      exact ⟨named, le_trans bounded later⟩
    · rw [stored] at hp
      cases hp
  | pruned r stored foreign gone =>
    rw [gone] at hp
    cases hp

variable {p : WorkingClaimRecord}

/-- A record that a step finds and leaves is one claim. -/
theorem continues_step (hs : s.Sound) (ha : Clocked s a) (hr : s.stored = some r)
    (hp : (s.step ownerId a).stored = some p) :
  r.Continues p
  := by
  have record : s.recordOf ownerId a = some r := (recordOf_of_stored hr).trans hr
  cases outcome_step ownerId hs ha with
  | kept stored =>
    rw [stored, record] at hp
    cases hp
    apply WorkingClaimRecord.Continues.refl
  | advanced r' q record' owner answers given succeeds advances =>
    rw [record] at record'
    cases record'
    rw [advances.stored] at hp
    cases hp
    apply advances.renews.toContinues
  | released releases stored =>
    obtain stored | stored := stored
    · rw [stored, hr] at hp
      cases hp
      apply WorkingClaimRecord.Continues.refl
    · rw [stored] at hp
      cases hp
  | pruned r' stored foreign gone =>
    rw [gone] at hp
    cases hp

/-- A record is marked as applied only by a step whose write upstream was accepted. -/
theorem applied_step (hs : s.Sound) (ha : Clocked s a) (hp : (s.step ownerId a).stored = some p)
    (happlied : p.applied = true) :
  s.stored = some p ∨ a.Synced
  := by
  cases outcome_step ownerId hs ha with
  | kept stored =>
    rw [stored] at hp
    left
    obtain h | h := recordOf_eq_some hp
    · apply h
    · rw [happlied] at h
      cases h
  | advanced r q record owner answers given succeeds advances =>
    rw [advances.stored] at hp
    cases hp
    right
    use answers, given
    apply advances.synced happlied
  | released releases stored =>
    obtain stored | stored := stored
    · left
      rw [← stored, hp]
    · rw [stored] at hp
      cases hp
  | pruned r stored foreign gone =>
    rw [gone] at hp
    cases hp

/-! ### Upstream -/

/-- A record of this box that is marked as applied is one whose expiry is upstream. -/
def Stands (ownerId : Text) (s : Lease) : Prop :=
  ∀ r, s.stored = some r → r.ownerId = ownerId → r.applied = true →
    ∃ note, s.upstream = some note ∧ r.States note

/-- The claim of the stored record is active upstream. -/
def ActiveAt (s : Lease) (t : Instant) : Prop :=
  ∃ r note, s.stored = some r ∧ s.upstream = some note
    ∧ r.identity = some (note.device, note.session) ∧ note.isActiveAt t = true

/-- A check of the claim of this box which finds that no heartbeat is due, or whose heartbeat
succeeds. -/
def Renewed (ownerId : Text) (s : Lease) (a : Act) : Prop :=
  ∃ r, s.recordOf ownerId a = some r ∧ r.ownerId = ownerId ∧ a.releases = false
    ∧ (r.needsHeartbeat a.times.2 = true → a.Succeeds)

theorem stands_of_stored_eq_none (h : s.stored = none) :
  s.Stands ownerId
  := by
  intro r hr
  rw [h] at hr
  cases hr

theorem Stands.step
    (hs : s.Sound) (ha : Clocked s a) (h : s.Stands ownerId) (held : a.releases = false) :
  (s.step ownerId a).Stands ownerId
  := by
  intro p hp howner happlied
  cases outcome_step ownerId hs ha with
  | kept stored upstream =>
    rw [stored] at hp
    rw [upstream]
    obtain hstored | hpending := recordOf_eq_some hp
    · apply h p hstored howner happlied
    · rw [happlied] at hpending
      cases hpending
  | advanced r q record owner answers given succeeds advances =>
    rw [advances.stored] at hp
    cases hp
    apply advances.stands
    left
    apply happlied
  | released releases =>
    rw [held] at releases
    cases releases
  | pruned r stored foreign gone =>
    rw [gone] at hp
    cases hp

/-- A check that found nothing due, or whose heartbeat succeeded, leaves a claim which is active
for longer than until the checks of three more intervals. -/
theorem activeAt_step
    (hs : s.Sound) (ha : Clocked s a) (stands : s.Stands ownerId) (h : s.Renewed ownerId a)
    {t : Instant} (ht : t ≤ a.times.2 + (workingClaimTtl - workingClaimHeartbeat)) :
  (s.step ownerId a).ActiveAt t
  := by
  obtain ⟨r, record, owner, held, renewed⟩ := h
  cases outcome_step ownerId hs ha with
  | kept stored upstream failed =>
    have hdue : r.needsHeartbeat a.times.2 = false := by
      rw [← Bool.not_eq_true]
      intro hdue
      apply failed r record owner hdue (renewed hdue)
    obtain ⟨happlied, ahead⟩ := WorkingClaimRecord.needsHeartbeat_eq_false hdue
    obtain hstored | hpending := recordOf_eq_some record
    · obtain ⟨note, hnote, states⟩ := stands r hstored owner happlied
      use r, note
      rw [stored, upstream]
      exact ⟨record, hnote, states.identity, states.isActiveAt (lt_of_le_of_lt ht ahead)⟩
    · rw [happlied] at hpending
      cases hpending
  | advanced r' p record' _ answers given succeeds advances =>
    rw [record] at record'
    cases record'
    have named := (hs.recordOf ha record).1
    obtain ⟨note, hnote, states⟩ :=
      advances.stands (Or.inr ⟨named, succeeds (renewed advances.due)⟩)
    use p, note
    exact ⟨advances.stored, hnote, states.identity,
      states.isActiveAt (lt_of_le_of_lt ht advances.renews.ahead)⟩
  | released releases =>
    rw [held] at releases
    cases releases
  | pruned r' stored foreign gone =>
    rw [recordOf_of_stored stored, stored] at record
    cases record
    cases foreign owner

/-! ### Runs -/

theorem sound_final
    {as : List Act} (hs : s.Sound) (clocked : (machine ownerId).Along Clocked s as) :
  ((machine ownerId).final s as).Sound
  := by
  induction as generalizing s with
  | nil => apply hs
  | cons a as ih =>
    obtain ⟨ha, has⟩ := clocked
    apply ih (hs.step ha) has

/-- A record that is there all along a run is one claim. -/
theorem continues_final
    {as : List Act} (hs : s.Sound) (clocked : (machine ownerId).Along Clocked s as)
    (kept : (machine ownerId).Along (fun s a => (s.step ownerId a).stored.isSome) s as)
    (hr : s.stored = some r) (hp : ((machine ownerId).final s as).stored = some p) :
  r.Continues p
  := by
  induction as generalizing s r with
  | nil =>
    rw [Machine.final, hr] at hp
    cases hp
    apply WorkingClaimRecord.Continues.refl
  | cons a as ih =>
    obtain ⟨ha, has⟩ := clocked
    obtain ⟨hkept, hrest⟩ := kept
    obtain ⟨q, hq⟩ := Option.isSome_iff_exists.mp hkept
    apply (continues_step hs ha hr hq).trans
    apply ih (hs.step ha) has hrest hq hp

/-- As long as the claim is not let go, every check that finds nothing due, or whose heartbeat
succeeds, leaves a claim that is active until after the next three checks. -/
theorem along_activeAt {as : List Act} (hs : s.Sound) (stands : s.Stands ownerId)
    (clocked : (machine ownerId).Along Clocked s as)
    (held : (machine ownerId).Along (fun _ a => a.releases = false) s as) :
  (machine ownerId).Along (fun s a => s.Renewed ownerId a →
      ∀ t ≤ a.times.2 + (workingClaimTtl - workingClaimHeartbeat),
        (s.step ownerId a).ActiveAt t) s as
  := by
  induction as generalizing s with
  | nil => trivial
  | cons a as ih =>
    obtain ⟨ha, has⟩ := clocked
    obtain ⟨hheld, hrest⟩ := held
    constructor
    · intro renewed t ht
      apply activeAt_step hs ha stands renewed ht
    · apply ih (hs.step ha) (stands.step hs ha hheld) has hrest

/-- A claim that is kept has one session and one identity, and its expiry does not go back.  It
is marked as applied only when a write upstream was accepted.  From when there is no record until
the claim is let go, it is active for three more intervals after each check that finds no
heartbeat due, or whose heartbeat succeeds. -/
theorem moves_forward
    {ownerId : Text} {s : Lease} {as : List Act} (sound : s.Sound) (stands : s.Stands ownerId)
    (clocked : (machine ownerId).Along Clocked s as) :
  (∀ before between after, as = before ++ between ++ after →
      (machine ownerId).Along (fun s a => (s.step ownerId a).stored.isSome)
        ((machine ownerId).final s before) between →
      ∀ r p, ((machine ownerId).final s before).stored = some r →
        ((machine ownerId).final s (before ++ between)).stored = some p →
        r.expiresAt ≤ p.expiresAt ∧ p.claimSession = r.claimSession ∧ p.identity = r.identity)
    ∧ (machine ownerId).Along (fun s a => ∀ p, (s.step ownerId a).stored = some p →
        p.applied = true → s.stored = some p ∨ a.Synced) s as
    ∧ (∀ before held after, as = before ++ held ++ after →
      (before = [] ∨ ((machine ownerId).final s before).stored = none) →
      (machine ownerId).Along (fun _ a => a.releases = false)
        ((machine ownerId).final s before) held →
      (machine ownerId).Along (fun s a => s.Renewed ownerId a →
          ∀ t ≤ a.times.2 + (workingClaimTtl - workingClaimHeartbeat),
            (s.step ownerId a).ActiveAt t)
        ((machine ownerId).final s before) held)
  := by
  constructor
  · rintro before between after rfl kept r p hr hp
    rw [Machine.along_append, Machine.along_append] at clocked
    rw [Machine.final_append] at hp
    have h := continues_final (sound_final sound clocked.1.1) clocked.1.2 kept hr hp
    exact ⟨h.expiresAt, h.claimSession, h.identity⟩
  · constructor
    · apply (machine ownerId).along_of_invariant (P := Clocked) (I := Sound) sound
      · intro s a ha hs
        apply hs.step ha
      · intro s a ha hs p hp happlied
        apply applied_step hs ha hp happlied
      · apply clocked
    · rintro before held after rfl start hheld
      rw [Machine.along_append, Machine.along_append] at clocked
      apply along_activeAt (sound_final sound clocked.1.1) _ clocked.1.2 hheld
      obtain rfl | none := start
      · apply stands
      · apply stands_of_stored_eq_none none

/-! ### A write that is refused -/

def boxId : Text := "0123456789abcdef0123".toList

def issueClaim : FreshClaim := {
  holder := .pty "lazybox-1"
  workspaceKey := "github-1".toList
  sessionId := none
  claimSession := "89abcdef0123456789abcdef01234567".toList
  target := ⟨⟨"github", "1"⟩, "acme/app"⟩ }

/-- A claim that is made, and written upstream. -/
def claimed : Act := .acquire ⟨true, issueClaim, true⟩ 0 0 ⟨none, true, .synced 7 false, true⟩

/-- The first heartbeat that is due. -/
def renewal (sync : SyncAnswer) : Act :=
  .heartbeat true workingClaimHeartbeat ⟨none, true, sync, true⟩

/-- The expiry of the stored record is taken on by a heartbeat whose write upstream fails. -/
theorem advances_unsynced :
  (machine boxId).Along Clocked ⟨none, none, 0⟩ [claimed, renewal (.failed false)]
    ∧ ¬(machine boxId).Along (fun s a => ∀ r p, s.stored = some r →
        (s.step boxId a).stored = some p → r.expiresAt < p.expiresAt → a.Synced)
      ⟨none, none, 0⟩ [claimed, renewal (.failed false)]
  := by
  constructor
  · simp [Machine.Along, Machine.next, machine, Clocked, step, claimed, renewal, Act.times,
      workingClaimHeartbeat, seconds]
  · rintro ⟨-, h, -⟩
    obtain ⟨answers, given, commentId, labelRemoved, synced⟩ := h _ _ rfl rfl (by decide)
    cases given
    cases synced

/-- A claim that was made, and was renewed when a heartbeat was due. -/
theorem moves_forward_renewed :
  ((machine boxId).next ((machine boxId).next ⟨none, none, 0⟩ claimed)
    (renewal (.synced 7 false))).ActiveAt (4 * workingClaimHeartbeat - 1)
  := by
  have h :=
    @moves_forward boxId ⟨none, none, 0⟩ [claimed, renewal (.synced 7 false)]
      (by rintro r ⟨⟩) (by rintro r ⟨⟩)
      (by simp [Machine.Along, Machine.next, machine, Clocked, step, claimed, renewal, Act.times,
        workingClaimHeartbeat, seconds])
  have active :=
    h.2.2 [] [claimed, renewal (.synced 7 false)] [] rfl (Or.inl rfl) ⟨rfl, rfl, trivial⟩
  apply active.2.1
  · refine ⟨_, rfl, rfl, rfl, ?_⟩
    intro _
    exact ⟨rfl, rfl, 7, false, rfl⟩
  · decide

end Lease

end Lazybox.Claims
