import Lazybox.EventForward.Run
import Mathlib.Data.List.Nodup

/-!
# Lossless events, and the books of the forwarder

Every event that is not output reaches the client once and in the order in which the events were
routed; no output of a terminal overtakes an event that mutates its stream; and the collections
the forwarder keeps in step agree: the counts with the queue they count, and the queue of
terminals that owe a replay with the set of them and with the debts.
-/

namespace Lazybox

/-- The terminals whose streams a lossless event mutates, one by one. -/
def Event.streamIds {π : Type} (evt : Event π) : List TerminalId :=
  match evt.streamScope with
  | .terminals ids => ids
  | .free | .global => []

/-- The event rebuilds the streams of all terminals. -/
def Event.isGlobal {π : Type} (evt : Event π) : Bool :=
  decide (evt.streamScope = .global)

/-- Output of `t` must not overtake the event. -/
def Event.Gates {π : Type} (evt : Event π) (t : TerminalId) : Prop :=
  evt.isGlobal = true ∨ t ∈ evt.streamIds

namespace ForwardState

variable {π : Type}

/-- The references of the queue are counted exactly. -/
structure ExactRefs (s : ForwardState π) : Prop where
  stream : RefCount.Counts s.pendingStreamRefs (s.pending.flatMap Event.streamIds)
  global : s.pendingGlobalRefs = s.pending.countP Event.isGlobal

/-- The terminals queued for a replay are those of the set, each once, and each has a debt. -/
structure ExactDebtors (s : ForwardState π) : Prop where
  nodup : s.resyncQueue.Nodup
  mem_iff : ∀ t, t ∈ s.resyncQueue ↔ t ∈ s.resyncSet
  owes : ∀ t ∈ s.resyncSet, (s.resyncDebt t).isSome

/-- Sending the head of the queue decrements no count that is zero. -/
def PopSafe (s : ForwardState π) : Prop :=
  ∀ evt ∈ s.pending.head?,
    RefCount.underflows s.pendingStreamRefs evt.streamIds = false
      ∧ (evt.isGlobal = true → 0 < s.pendingGlobalRefs)

/-- The books of the forwarder are exact. -/
structure Exact (s : ForwardState π) : Prop extends ExactRefs s, ExactDebtors s where
  popSafe : PopSafe s

/-! ### The counts of the queue -/

variable {s s' : ForwardState π}

theorem ExactRefs.of_sameQueue (h : ExactRefs s) (hsame : SameQueue s s') :
  ExactRefs s'
  where
  stream := by
    rw [hsame.streamRefs, hsame.pending]
    apply h.stream
  global := by
    rw [hsame.globalRefs, hsame.pending]
    apply h.global

theorem pushPending_pending (s : ForwardState π) (evt : Event π) :
  (s.pushPending evt).pending = s.pending ++ [evt]
  := by
  rw [pushPending]
  split <;> rfl

theorem pushPending_streamRefs (s : ForwardState π) (evt : Event π) :
  (s.pushPending evt).pendingStreamRefs
    = evt.streamIds.foldl RefCount.acquire s.pendingStreamRefs
  := by
  cases h : evt.streamScope <;> simp [pushPending, Event.streamIds, h]

theorem pushPending_globalRefs (s : ForwardState π) (evt : Event π) :
  (s.pushPending evt).pendingGlobalRefs
    = s.pendingGlobalRefs + if evt.isGlobal then 1 else 0
  := by
  cases h : evt.streamScope <;> simp [pushPending, Event.isGlobal, h]

theorem ExactRefs.pushPending (h : ExactRefs s) (evt : Event π) :
  ExactRefs (s.pushPending evt)
  where
  stream := by
    rw [pushPending_streamRefs, pushPending_pending, List.flatMap_append, List.flatMap_singleton]
    apply h.stream.foldl_acquire
  global := by
    rw [pushPending_globalRefs, pushPending_pending, List.countP_append, List.countP_singleton,
      h.global]

variable {evt : Event π}

theorem popPending_streamRefs (h : s.popPending = some (evt, s')) :
  s'.pendingStreamRefs = evt.streamIds.foldl RefCount.release s.pendingStreamRefs
  := by
  rw [popPending] at h
  split at h
  · cases h
  · dsimp only at h
    split at h <;> next hscope => cases h; simp [Event.streamIds, hscope]

theorem popPending_globalRefs (h : s.popPending = some (evt, s')) :
  s'.pendingGlobalRefs = s.pendingGlobalRefs - if evt.isGlobal then 1 else 0
  := by
  rw [popPending] at h
  split at h
  · cases h
  · dsimp only at h
    split at h <;> next hscope => cases h; simp [Event.isGlobal, hscope]

theorem ExactRefs.popPending (h : ExactRefs s) (hpop : s.popPending = some (evt, s')) :
  ExactRefs s'
  where
  stream := by
    have hstream := h.stream
    rw [popPending_eq_some hpop, List.flatMap_cons] at hstream
    rw [popPending_streamRefs hpop]
    apply hstream.foldl_release
  global := by
    rw [popPending_globalRefs hpop, h.global, popPending_eq_some hpop, List.countP_cons,
      Nat.add_sub_cancel]

theorem ExactRefs.popSafe (h : ExactRefs s) : PopSafe s := by
  intro evt hevt
  obtain ⟨rest, hpending⟩ := List.head?_eq_some_iff.mp hevt
  constructor
  · have hstream := h.stream
    rw [hpending, List.flatMap_cons] at hstream
    apply hstream.underflows_eq_false
  · intro hglobal
    rw [h.global, List.countP_pos_iff]
    exact ⟨evt, by simp [hpending], hglobal⟩

variable {t : TerminalId}

/-- A queue that does not block the output of `t` holds nothing the output must not overtake. -/
theorem ExactRefs.not_gates
    (h : ExactRefs s) (hblocks : s.pendingBlocksOutput t = false) (hevt : evt ∈ s.pending) :
  ¬ evt.Gates t
  := by
  rw [pendingBlocksOutput, Bool.or_eq_false_iff, decide_eq_false_iff_not] at hblocks
  obtain ⟨hglobal, hstream⟩ := hblocks
  rintro (hg | hg)
  · rw [h.global, List.countP_pos_iff] at hglobal
    exact hglobal ⟨evt, hevt, hg⟩
  · have hheld : t ∈ s.pending.flatMap Event.streamIds := List.mem_flatMap.mpr ⟨evt, hevt, hg⟩
    rw [← h.stream.isSome_iff, hstream] at hheld
    cases hheld

/-! ### The terminals that owe a replay -/

theorem ExactDebtors.of_sameDebts (h : ExactDebtors s) (hsame : SameDebts s s') :
  ExactDebtors s'
  where
  nodup := by
    rw [hsame.queue]
    apply h.nodup
  mem_iff := by
    rw [hsame.queue, hsame.set]
    apply h.mem_iff
  owes := by
    rw [hsame.set, hsame.debt]
    apply h.owes

theorem ExactDebtors.scheduleResync (h : ExactDebtors s) (t : TerminalId) (k : ℕ) :
  ExactDebtors (s.scheduleResync t k)
  := by
  have howes : ∀ t' ∈ insert t s.resyncSet, ((s.scheduleResync t k).resyncDebt t').isSome := by
    intro t' ht'
    rw [scheduleResync_resyncDebt]
    by_cases ht : t' = t
    · simp [ht]
    · rw [Function.update_of_ne ht]
      apply h.owes t' (Finset.mem_of_mem_insert_of_ne ht' ht)
  rw [ForwardState.scheduleResync] at howes ⊢
  by_cases ht : t ∈ s.resyncSet
  · simp only [ht, if_true, Finset.insert_eq_of_mem] at howes ⊢
    exact ⟨h.nodup, h.mem_iff, howes⟩
  · simp only [ht, if_false] at howes ⊢
    refine ⟨?_, ?_, howes⟩
    · rw [← List.concat_eq_append]
      apply h.nodup.concat
      rwa [h.mem_iff]
    · intro t'
      simp [h.mem_iff, or_comm]

theorem ExactDebtors.dropResync (h : ExactDebtors s) (t : TerminalId) :
  ExactDebtors (s.dropResync t)
  := by
  have howes : ∀ t' ∈ s.resyncSet.erase t, ((s.dropResync t).resyncDebt t').isSome := by
    intro t' ht'
    rw [dropResync_resyncDebt, Function.update_of_ne (Finset.ne_of_mem_erase ht')]
    apply h.owes t' (Finset.mem_of_mem_erase ht')
  rw [ForwardState.dropResync] at howes ⊢
  by_cases ht : t ∈ s.resyncSet
  · simp only [ht, if_true] at howes ⊢
    refine ⟨h.nodup.filter _, ?_, howes⟩
    intro t'
    simp [h.mem_iff, and_comm]
  · simp only [ht, if_false, Finset.erase_eq_of_notMem, not_false_eq_true] at howes ⊢
    exact ⟨h.nodup, h.mem_iff, howes⟩

theorem ExactDebtors.noteReplay (h : ExactDebtors s) (t : TerminalId) (k : ℕ) :
  ExactDebtors (s.noteReplay t k)
  := by
  apply ExactDebtors.dropResync
  exact ⟨h.nodup, h.mem_iff, h.owes⟩

theorem ExactDebtors.noteLossless (h : ExactDebtors s) (evt : Event π) :
  ExactDebtors (s.noteLossless evt)
  := by
  cases hexit : evt.exited? with
  | none =>
    rw [noteLossless_eq_noteReplays s hexit]
    generalize evt.replays = replays
    induction replays generalizing s with
    | nil => apply h
    | cons r replays ih => apply ih (h.noteReplay r.1 r.2)
  | some t =>
    cases evt with
    | terminalExited t payload =>
      have hdrop := h.dropResync t
      exact ⟨hdrop.nodup, hdrop.mem_iff, hdrop.owes⟩
    | _ => cases hexit

/-- What is found first is what is erased first. -/
theorem eraseP_of_find? {p : TerminalId → Bool} {queue : List TerminalId}
    (h : queue.find? p = some t) :
  queue.eraseP p = queue.erase t
  := by
  induction queue with
  | nil => rfl
  | cons a queue ih =>
    rw [List.find?_cons] at h
    split at h
    · next hready =>
        cases h
        rw [List.eraseP_cons_of_pos hready, List.erase_cons_head]
    · next hready =>
        have hne : a ≠ t := by
          rintro rfl
          simp [List.find?_some h] at hready
        rw [List.eraseP_cons_of_neg (by simp [hready]),
          List.erase_cons_tail (by simpa using hne), ih h]

/-- The first terminal that is ready leaves the queue and the set. -/
theorem takeReady_erases {now : ℕ} (h : s.takeReady now = some (t, s')) :
  s'.resyncQueue = s.resyncQueue.erase t ∧ s'.resyncSet = s.resyncSet.erase t
  := by
  rw [takeReady] at h
  split at h
  · cases h
  · next hfind =>
      cases h
      exact ⟨eraseP_of_find? hfind, rfl⟩

theorem ExactDebtors.takeReady
    {now : ℕ} (h : ExactDebtors s) (hready : s.takeReady now = some (t, s')) :
  ExactDebtors s'
  := by
  obtain ⟨hqueue, hset⟩ := takeReady_erases hready
  constructor
  · rw [hqueue]
    apply h.nodup.erase
  · intro t'
    rw [hqueue, hset, h.nodup.mem_erase_iff, Finset.mem_erase, h.mem_iff]
  · rw [hset, takeReady_resyncDebt hready]
    intro t' ht'
    apply h.owes t' (Finset.mem_of_mem_erase ht')

/-- A debt may be settled once its terminal is off the queue. -/
theorem ExactDebtors.settleDebt (h : ExactDebtors s) (ht : t ∉ s.resyncSet) (now seq : ℕ) :
  ExactDebtors (s.settleDebt t now seq)
  := by
  refine ⟨h.nodup, h.mem_iff, ?_⟩
  intro t' ht'
  have hne : t' ≠ t := by
    rintro rfl
    exact ht ht'
  change (Function.update s.resyncDebt t none t').isSome
  rw [Function.update_of_ne hne]
  apply h.owes t' ht'

/-! ### The books along a run -/

theorem Exact.of_parts (hrefs : ExactRefs s) (hdebtors : ExactDebtors s) :
  Exact s
  where
  toExactRefs := hrefs
  toExactDebtors := hdebtors
  popSafe := hrefs.popSafe

theorem Exact.new (metrics : EventMetrics) : Exact (ForwardState.new (π := π) metrics) := by
  apply Exact.of_parts
  · exact ⟨RefCount.Counts.nil, rfl⟩
  · exact ⟨List.nodup_nil, by simp [ForwardState.new], by simp [ForwardState.new]⟩

theorem Exact.routed {sent : Option (Event π)} {flow : ControlFlow} (h : Exact s)
    (hrouted : Routed s evt s' sent flow) :
  Exact s'
  := by
  have hrefs := h.toExactRefs.of_sameQueue (noteLossless_sameQueue s evt)
  have hdebtors := h.toExactDebtors.noteLossless evt
  cases hrouted with
  | superseded => exact h
  | dropped =>
    apply Exact.of_parts
    · apply h.toExactRefs.of_sameQueue (scheduleResync_sameQueue _ _ _)
    · apply h.toExactDebtors.scheduleResync
  | forwarded => exact h
  | closed => exact h
  | sent => apply Exact.of_parts hrefs hdebtors
  | queued =>
    apply Exact.of_parts
    · apply hrefs.pushPending
    · apply hdebtors.of_sameDebts (pushPending_sameDebts _ _)
  | lost => apply Exact.of_parts hrefs hdebtors

theorem Exact.delivered {sent : Option (Sent π)} (h : Exact s) (hdelivered : Delivered s s' sent) :
  Exact s'
  := by
  cases hdelivered with
  | relayed hpop =>
    apply Exact.of_parts
    · apply h.toExactRefs.popPending hpop
    · apply h.toExactDebtors.of_sameDebts (popPending_sameDebts hpop)
  | idle => exact h
  | replayed _ hready =>
    apply Exact.of_parts
    · apply (h.toExactRefs.of_sameQueue (takeReady_sameQueue hready)).of_sameQueue
      exact ⟨rfl, rfl, rfl⟩
    · apply (h.toExactDebtors.takeReady hready).settleDebt
      rw [(takeReady_erases hready).2]
      apply Finset.notMem_erase
  | unavailable _ hready =>
    apply Exact.of_parts
    · apply (h.toExactRefs.of_sameQueue (takeReady_sameQueue hready)).of_sameQueue
      apply announceUnavailable_sameQueue
    · apply (h.toExactDebtors.takeReady hready).of_sameDebts
      apply announceUnavailable_sameDebts

end ForwardState

namespace Forwarder

open ForwardState

variable {π : Type}

/-- The events of a list that are not output. -/
def lossless (evts : List (Event π)) : List (Event π) :=
  evts.filter fun evt => evt.output?.isNone

/-- The raw event among what is sent. -/
def relayedOf : Option (Sent π) → Option (Event π)
  | some (.relayed evt) => some evt
  | some (.recovery _) | none => none

/-- The raw event an action routes. -/
def Act.routed? : Act π → Option (Event π)
  | .route _ evt => some evt
  | .deliverOne _ _ => none

/-- The raw event a step routes. -/
def Obs.routed? (o : Obs π) : Option (Event π) := o.act.routed?

/-- The raw event a step sends to the client. -/
def Obs.relayed? (o : Obs π) : Option (Event π) := relayedOf o.sent

/-- The events that are not output, in the order in which they were routed. -/
def routedLossless (os : List (Obs π)) : List (Event π) := lossless (os.filterMap Obs.routed?)

/-- The events that are not output, in the order in which they were sent to the client. -/
def relayedLossless (os : List (Obs π)) : List (Event π) := lossless (os.filterMap Obs.relayed?)

/-- What was routed was sent, or is queued, or was lost with the connection. -/
def Balanced (f : Forwarder π) (os : List (Obs π)) : Prop :=
  ∃ lost, routedLossless os = relayedLossless os ++ f.state.pending ++ lost
    ∧ lost.length ≤ 1 ∧ (f.connected = true → lost = [])

/-- The step sends no output past an event that the output must not overtake. -/
def Obs.Ordered (o : Obs π) : Prop :=
  ∀ evt t k, o.relayed? = some evt → evt.output? = some (t, k) →
    ∀ queued ∈ o.before.pending, ¬ queued.Gates t

/-! ### One step of the forwarder -/

theorem relayedOf_map_relayed (sent : Option (Event π)) :
  relayedOf (sent.map .relayed) = sent
  := by
  cases sent <;> rfl

theorem relayedOf_announceUnavailable (s : ForwardState π) (t : TerminalId) :
  relayedOf (s.announceUnavailable t).2 = none
  := by
  rw [announceUnavailable]
  split <;> rfl

variable {s s' : ForwardState π}

variable {flow : ControlFlow} {evt : Event π}

/-- Routing an event queues it, sends it, or loses it with the connection. -/
theorem routed_balanced {sent : Option (Event π)} (h : Routed s evt s' sent flow) :
  ∃ lost, s.pending ++ lossless [evt] = lossless sent.toList ++ s'.pending ++ lost
    ∧ lost.length ≤ 1 ∧ (flow = .continue → lost = [])
  := by
  have hsame := (noteLossless_sameQueue s evt).pending
  cases h with
  | superseded houtput => exact ⟨[], by simp [lossless, houtput], by simp⟩
  | dropped houtput =>
    exact ⟨[], by simp [lossless, houtput, (scheduleResync_sameQueue s _ _).pending], by simp⟩
  | forwarded houtput => exact ⟨[], by simp [lossless, houtput], by simp⟩
  | closed houtput => exact ⟨[], by simp [lossless, houtput], by simp⟩
  | sent hlossless hempty => exact ⟨[], by simp [lossless, hlossless, hsame, hempty], by simp⟩
  | queued hlossless =>
    exact ⟨[], by simp [lossless, hlossless, pushPending_pending, hsame], by simp⟩
  | lost hlossless => exact ⟨[evt], by simp [lossless, hlossless, hsame], by simp⟩

/-- Delivering sends the head of the queue, or one of the forwarder's own events. -/
theorem delivered_balanced {sent : Option (Sent π)} (h : Delivered s s' sent) :
  s.pending = (relayedOf sent).toList ++ s'.pending
  := by
  cases h with
  | relayed hpop => apply popPending_eq_some hpop
  | idle hempty => rfl
  | replayed hempty hready => exact (takeReady_sameQueue hready).pending.symm
  | unavailable hempty hready =>
    rw [relayedOf_announceUnavailable, (announceUnavailable_sameQueue _ _).pending,
      (takeReady_sameQueue hready).pending]
    rfl

/-- An event that is routed and is output is sent only past events it may overtake. -/
theorem routed_not_gates
    {evt' : Event π} {t : TerminalId} {k : ℕ} (h : Routed s evt s' (some evt') flow)
    (houtput : evt'.output? = some (t, k)) (hrefs : ExactRefs s) :
  ∀ queued ∈ s.pending, ¬ queued.Gates t
  := by
  intro queued hqueued
  cases h with
  | forwarded houtput' _ hclear =>
    rw [houtput] at houtput'
    cases houtput'
    rw [quarantines, Bool.or_eq_false_iff, Bool.or_eq_false_iff] at hclear
    apply hrefs.not_gates hclear.1.1 hqueued
  | sent hlossless =>
    rw [houtput] at hlossless
    cases hlossless

/-- Only events that are not output are queued. -/
def QueuesLossless (s : ForwardState π) : Prop := ∀ evt ∈ s.pending, evt.output? = none

theorem QueuesLossless.routed
    {sent : Option (Event π)} (h : QueuesLossless s) (hrouted : Routed s evt s' sent flow) :
  QueuesLossless s'
  := by
  have hsame := (noteLossless_sameQueue s evt).pending
  rw [QueuesLossless] at h ⊢
  cases hrouted with
  | dropped => rwa [(scheduleResync_sameQueue s _ _).pending]
  | sent => rwa [hsame]
  | lost => rwa [hsame]
  | queued hlossless =>
    rw [pushPending_pending, hsame]
    intro queued hqueued
    obtain hqueued | rfl := List.mem_append.mp hqueued |>.imp_right List.mem_singleton.mp
    · apply h queued hqueued
    · apply hlossless
  | _ => exact h

/-! ### The whole run -/

/-- What holds of a forwarder and of what was observed so far. -/
structure Kept (f : Forwarder π) (os : List (Obs π)) : Prop where
  balanced : Balanced f os
  queues : QueuesLossless f.state
  exact : Exact f.state
  exact_before : ∀ o ∈ os, Exact o.before
  ordered : ∀ o ∈ os, o.Ordered

theorem balanced_connected (s : ForwardState π) (os : List (Obs π)) :
  Balanced ⟨s, true⟩ os ↔ routedLossless os = relayedLossless os ++ s.pending
  := by
  constructor
  · rintro ⟨lost, h, -, hlost⟩
    rw [h, hlost rfl, List.append_nil]
  · intro h
    exact ⟨[], by rw [h, List.append_nil], Nat.zero_le _, fun _ => rfl⟩

theorem lossless_filterMap_concat (p : Obs π → Option (Event π)) (os : List (Obs π)) (o : Obs π) :
  lossless ((os ++ [o]).filterMap p) = lossless (os.filterMap p) ++ lossless (p o).toList
  := by
  rw [List.filterMap_append, lossless, List.filter_append]
  cases h : p o <;> simp [lossless, h]

variable {os : List (Obs π)}

theorem Kept.route (h : Kept ⟨s, true⟩ os) (channel : TrySend) (evt : Event π) :
  let r := act s (.route channel evt)
  Kept ⟨r.1, decide (r.2.flow = .continue)⟩ (os ++ [r.2])
  := by
  intro r
  have hrouted := route_routed s channel evt
  have hrelayed : r.2.relayed? = (s.route channel evt).2.1 := relayedOf_map_relayed _
  constructor
  · obtain ⟨lost, hlost, hlength, hflow⟩ := routed_balanced hrouted
    refine ⟨lost, ?_, hlength, ?_⟩
    · have hbefore := (balanced_connected s os).mp h.balanced
      rw [routedLossless, relayedLossless, lossless_filterMap_concat, lossless_filterMap_concat,
        hrelayed]
      rw [routedLossless, relayedLossless] at hbefore
      rw [hbefore, List.append_assoc]
      change _ ++ (s.pending ++ lossless [evt]) = _
      rw [hlost]
      simp only [List.append_assoc]
      rfl
    · intro hconnected
      apply hflow (of_decide_eq_true hconnected)
  · apply h.queues.routed hrouted
  · apply h.exact.routed hrouted
  · intro o ho
    obtain ho | rfl := List.mem_append.mp ho |>.imp_right List.mem_singleton.mp
    · apply h.exact_before o ho
    · apply h.exact
  · intro o ho
    obtain ho | rfl := List.mem_append.mp ho |>.imp_right List.mem_singleton.mp
    · apply h.ordered o ho
    · intro evt' t k hevt houtput
      rw [hrelayed] at hevt
      rw [hevt] at hrouted
      apply routed_not_gates hrouted houtput h.exact.toExactRefs

theorem Kept.deliverOne (h : Kept ⟨s, true⟩ os) (now : ℕ) (reply : SnapshotReply) :
  let r := act s (.deliverOne now reply)
  Kept ⟨r.1, decide (r.2.flow = .continue)⟩ (os ++ [r.2])
  := by
  intro r
  have hdelivered := deliverOne_delivered s now reply
  have hbalanced : s.pending = r.2.relayed?.toList ++ r.1.pending :=
    delivered_balanced hdelivered
  have hrelayed : ∀ evt ∈ r.2.relayed?, evt.output? = none := by
    intro evt hevt
    apply h.queues
    change evt ∈ s.pending
    rw [hbalanced, List.mem_append, Option.mem_toList]
    left
    apply hevt
  constructor
  · change Balanced ⟨r.1, true⟩ _
    rw [balanced_connected, routedLossless, relayedLossless, lossless_filterMap_concat,
      lossless_filterMap_concat]
    change _ ++ [] = _
    have hbefore := (balanced_connected s os).mp h.balanced
    have hlossless : lossless r.2.relayed?.toList = r.2.relayed?.toList := by
      apply List.filter_eq_self.mpr
      intro evt hevt
      rw [hrelayed evt (Option.mem_toList.mp hevt)]
      rfl
    rw [routedLossless, relayedLossless] at hbefore
    rw [List.append_nil, hbefore, hlossless, hbalanced, List.append_assoc]
  · intro evt hevt
    apply h.queues
    change evt ∈ s.pending
    rw [hbalanced, List.mem_append]
    right
    apply hevt
  · apply h.exact.delivered hdelivered
  · intro o ho
    obtain ho | rfl := List.mem_append.mp ho |>.imp_right List.mem_singleton.mp
    · apply h.exact_before o ho
    · apply h.exact
  · intro o ho
    obtain ho | rfl := List.mem_append.mp ho |>.imp_right List.mem_singleton.mp
    · apply h.ordered o ho
    · intro evt t k hevt houtput
      rw [hrelayed evt hevt] at houtput
      cases houtput

theorem Kept.new (metrics : EventMetrics) :
  Kept (Forwarder.new (π := π) metrics) []
  where
  balanced := ⟨[], rfl, Nat.zero_le _, fun _ => rfl⟩
  queues := by simp [QueuesLossless, Forwarder.new, ForwardState.new]
  exact := Exact.new metrics
  exact_before := by simp
  ordered := by simp

theorem Kept.act (h : Kept ⟨s, true⟩ os) (a : Act π) :
  let r := Forwarder.act s a
  Kept ⟨r.1, decide (r.2.flow = .continue)⟩ (os ++ [r.2])
  := by
  cases a with
  | route channel evt => apply h.route
  | deliverOne now reply => apply h.deliverOne

theorem kept (metrics : EventMetrics) (acts : List (Act π)) :
  Kept (machine.final (new metrics) acts) (machine.trace (new metrics) acts)
  := by
  apply run_invariant (P := fun _ _ => True) (Kept.new metrics)
  · intro s os a _ h
    apply h.act a
  · apply machine.along_of_forall
    simp

/-- A free slot takes the head of the queue. -/
theorem deliverOne_pending (s : ForwardState π) (now : ℕ) (reply : SnapshotReply) :
  (s.deliverOne now reply).1.pending = s.pending.tail
  := by
  have hdelivered := deliverOne_delivered s now reply
  have hbalanced := delivered_balanced hdelivered
  revert hdelivered hbalanced
  generalize (s.deliverOne now reply).1 = s'
  generalize (s.deliverOne now reply).2 = sent
  intro hdelivered hbalanced
  cases hdelivered with
  | relayed hpop =>
    rw [hbalanced]
    rfl
  | idle hempty => rw [hempty, List.tail_nil]
  | replayed hempty =>
    rw [hempty] at hbalanced ⊢
    exact (List.append_eq_nil_iff.mp hbalanced.symm).2
  | unavailable hempty =>
    rw [hempty] at hbalanced ⊢
    exact (List.append_eq_nil_iff.mp hbalanced.symm).2

/-- Free slots empty the queue one event after the other. -/
theorem final_slots (s : ForwardState π) (slots : List (ℕ × SnapshotReply)) :
  let acts := slots.map fun slot => Act.deliverOne slot.1 slot.2
  (machine.final ⟨s, true⟩ acts).state.pending = s.pending.drop slots.length
    ∧ (machine.final ⟨s, true⟩ acts).connected = true
    ∧ routedLossless (machine.trace ⟨s, true⟩ acts) = []
  := by
  induction slots generalizing s with
  | nil => exact ⟨rfl, rfl, rfl⟩
  | cons slot slots ih =>
    obtain ⟨hpending, hconnected, hrouted⟩ := ih (s.deliverOne slot.1 slot.2).1
    refine ⟨?_, hconnected, hrouted⟩
    rw [deliverOne_pending] at hpending
    rw [List.length_cons, ← List.drop_tail]
    apply hpending

/-- In every run, the events that are not output reach the client once and in order: what was
routed was sent or is queued, but for one event that may go with the connection, and free slots
send what is queued.  No output is sent past an event that mutates its terminal's stream, and the
books are exact at every step. -/
theorem lossless_delivery (metrics : EventMetrics) (acts : List (Act π)) :
  let f := machine.final (new metrics) acts
  let os := machine.trace (new metrics) acts
  Balanced f os
    ∧ (f.connected = true → ∀ slots : List (ℕ × SnapshotReply),
        f.state.pending.length ≤ slots.length →
        relayedLossless (machine.trace (new metrics)
          (acts ++ slots.map fun slot => .deliverOne slot.1 slot.2)) = routedLossless os)
    ∧ (∀ o ∈ os, o.Ordered)
    ∧ (∀ o ∈ os, Exact o.before) ∧ Exact f.state
  := by
  intro f os
  have h := kept metrics acts
  refine ⟨h.balanced, ?_, h.ordered, h.exact_before, h.exact⟩
  intro hconnected slots hslots
  have hf : machine.final (new metrics) acts = ⟨f.state, true⟩ := by
    rw [← hconnected]
  obtain ⟨hpending, hstands, hrouted⟩ := final_slots f.state slots
  obtain ⟨lost, hbalanced, -, hlost⟩ :=
    (kept metrics (acts ++ slots.map fun slot => .deliverOne slot.1 slot.2)).balanced
  rw [machine.final_append, hf] at hbalanced hlost
  rw [hlost hstands, hpending, List.drop_of_length_le hslots, List.append_nil,
    List.append_nil] at hbalanced
  rw [← hbalanced, machine.trace_append, hf, routedLossless, List.filterMap_append, lossless,
    List.filter_append]
  rw [routedLossless, lossless] at hrouted
  rw [hrouted, List.append_nil]
  rfl

end Forwarder

end Lazybox
