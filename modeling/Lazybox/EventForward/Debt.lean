import Lazybox.EventForward.Lossless

/-!
# Debts and replays

A terminal whose output was dropped owes the client a replay, and its output is held back until
the debt is gone.  The forwarder asks of a replay it fetches itself that it reaches the highest
dropped sequence number.  Of a replay that is routed to it, in a snapshot, a resync or an
authentication replay, it asks nothing: the debt goes whether or not the replay reaches it.
-/

namespace Lazybox

namespace Forwarder

open ForwardState

variable {π : Type}

/-- The output an action routes. -/
def Act.output? (a : Act π) : Option (TerminalId × ℕ) := a.routed?.bind Event.output?

/-- The output a step routes. -/
def Obs.output? (o : Obs π) : Option (TerminalId × ℕ) := o.act.output?

/-- The output a step drops: it was in no replay, it is not sent, and the connection stands. -/
def Obs.dropped? (o : Obs π) : Option (TerminalId × ℕ) :=
  o.output?.filter fun out =>
    !o.before.isSuperseded out.1 out.2 && o.sent.isNone && decide (o.flow = .continue)

/-- The step sends output of `t`. -/
def Obs.forwards (o : Obs π) (t : TerminalId) : Bool :=
  o.sent.isSome && o.output?.any fun out => out.1 = t

/-- The step routes an output that a replay already carried. -/
def Obs.suppresses (o : Obs π) (t : TerminalId) (k : ℕ) : Bool :=
  decide (o.output? = some (t, k)) && o.before.isSuperseded t k

/-- The replays a step routes to the client, or makes for it. -/
def Obs.replays (o : Obs π) : List (TerminalId × ℕ) :=
  (o.routed?.elim [] Event.replays) ++
    match o.sent with
    | some (.recovery evt) => evt.replays
    | some (.relayed _) | none => []

/-- The step brings a replay of `t` through `k` or further. -/
def Obs.covers (o : Obs π) (t : TerminalId) (k : ℕ) : Bool :=
  o.replays.any fun r => r.1 = t && k ≤ r.2

/-- The step routes the exit of `t`. -/
def Obs.exits (o : Obs π) (t : TerminalId) : Bool :=
  decide (o.routed?.bind Event.exited? = some t)

/-- The output `k` of `t` was dropped, and since then no replay covered it and `t` did not
exit. -/
def Undischarged (os : List (Obs π)) (t : TerminalId) (k : ℕ) : Prop :=
  ∃ before o after, os = before ++ o :: after ∧ o.dropped? = some (t, k)
    ∧ ∀ o' ∈ after, o'.covers t k = false ∧ o'.exits t = false

/-- Output of a terminal is sent only when every output of it that was dropped has since been
covered by a replay, or the terminal has exited; and what is suppressed was covered before. -/
def DischargedByCoverage (os : List (Obs π)) : Prop :=
  AtEach (fun before o =>
    (∀ t, o.forwards t = true → ∀ k, ¬ Undischarged before t k)
      ∧ ∀ t k, o.suppresses t k = true → ∃ o' ∈ before, o'.covers t k = true) os

/-- If the action routes replays of a terminal with a debt, one of them reaches the debt. -/
def ReplaysReachDebt (s : ForwardState π) : Act π → Prop
  | .route _ evt =>
      ∀ r ∈ evt.replays, ∀ debt ∈ s.resyncDebt r.1,
        ∃ r' ∈ evt.replays, r'.1 = r.1 ∧ debt ≤ r'.2
  | .deliverOne _ _ => True

instance (s : ForwardState π) (a : Act π) : Decidable (ReplaysReachDebt s a) :=
  match a with
  | .route _ evt =>
      inferInstanceAs (Decidable (∀ r ∈ evt.replays, ∀ debt ∈ s.resyncDebt r.1,
        ∃ r' ∈ evt.replays, r'.1 = r.1 ∧ debt ≤ r'.2))
  | .deliverOne _ _ => isTrue trivial

/-- Output `5` of a terminal finds the channel full; then a replay through `3` and output `6` are
routed. -/
def staleReplay : List (Act Unit) :=
  [.route .full (.terminalOutput ⟨1⟩ 5 ()), .route .ok (.terminalResync ⟨1⟩ [] 3 []),
    .route .ok (.terminalOutput ⟨1⟩ 6 ())]

/-- A replay that does not reach the dropped output lets the output after it through. -/
theorem stale_replay_discharges :
  ¬ ∀ (metrics : EventMetrics) (acts : List (Act Unit)),
      DischargedByCoverage (machine.trace (new metrics) acts)
  := by
  intro h
  let dropped := act (ForwardState.new ⟨0, 0⟩) (.route .full (.terminalOutput ⟨1⟩ 5 ()))
  let replayed := act dropped.1 (.route .ok (.terminalResync ⟨1⟩ [] 3 []))
  let forwarded := act replayed.1 (.route .ok (.terminalOutput ⟨1⟩ 6 ()))
  have hpoint := h ⟨0, 0⟩ staleReplay [dropped.2, replayed.2] forwarded.2 [] rfl
  apply hpoint.1 ⟨1⟩ (by decide) 5
  refine ⟨[], dropped.2, [replayed.2], rfl, by decide, ?_⟩
  intro o ho
  rw [List.mem_singleton.mp ho]
  decide

/-! ### The debts of a run -/

theorem undischarged_nil (t : TerminalId) (k : ℕ) :
  ¬ Undischarged ([] : List (Obs π)) t k
  := by
  rintro ⟨before, o, after, h, -⟩
  simp at h

variable {t : TerminalId} {os : List (Obs π)}

variable {k : ℕ} {o : Obs π}

/-- After one more step an output is undischarged if the step dropped it, or if it was and the
step does not discharge it. -/
theorem undischarged_concat (h : Undischarged (os ++ [o]) t k) :
  o.dropped? = some (t, k)
    ∨ (Undischarged os t k ∧ o.covers t k = false ∧ o.exits t = false)
  := by
  obtain ⟨before, o', after, hos, hdropped, hafter⟩ := h
  induction after using List.reverseRecOn with
  | nil =>
    obtain ⟨-, hlast⟩ := List.append_inj' hos rfl
    cases hlast
    left
    apply hdropped
  | append_singleton after last _ =>
    rw [← List.cons_append, ← List.append_assoc] at hos
    obtain ⟨rfl, hlast⟩ := List.append_inj' hos rfl
    cases hlast
    right
    constructor
    · refine ⟨before, o', after, rfl, hdropped, ?_⟩
      intro o'' ho''
      apply hafter o'' (List.mem_append_left _ ho'')
    · apply hafter o (List.mem_append_right _ (List.mem_singleton_self o))

/-- What holds of the debts and the covered sequence numbers, given what was observed so far. -/
structure DebtsKept (s : ForwardState π) (os : List (Obs π)) : Prop where
  /-- The debt of a terminal reaches every output of it that is undischarged. -/
  owed : ∀ t k, Undischarged os t k → ∃ debt ∈ s.resyncDebt t, k ≤ debt
  /-- What counts as covered, a replay carried. -/
  covered : ∀ t k, s.isSuperseded t k = true → ∃ o ∈ os, o.covers t k = true

variable {s s' : ForwardState π}

/-- A step that drops nothing, and discharges what it takes off the debts, keeps them. -/
theorem DebtsKept.concat
    (h : DebtsKept s os)
    (howed : ∀ t k, o.dropped? = some (t, k) → ∃ debt ∈ s'.resyncDebt t, k ≤ debt)
    (hdebt : ∀ t, ∀ debt ∈ s.resyncDebt t,
      (∃ debt' ∈ s'.resyncDebt t, debt ≤ debt') ∨ o.covers t debt = true ∨ o.exits t = true)
    (hcovered : ∀ t k, s'.isSuperseded t k = true →
      s.isSuperseded t k = true ∨ o.covers t k = true) :
  DebtsKept s' (os ++ [o])
  := by
  constructor
  · intro t k hundischarged
    obtain hdropped | ⟨hbefore, hcovers, hexits⟩ := undischarged_concat hundischarged
    · apply howed t k hdropped
    · obtain ⟨debt, hdebt', hk⟩ := h.owed t k hbefore
      obtain ⟨debt', hdebt'', hle⟩ | hcovers' | hexits' := hdebt t debt hdebt'
      · exact ⟨debt', hdebt'', hk.trans hle⟩
      · -- a replay that reaches the debt reaches the dropped output
        have : o.covers t k = true := by
          rw [Obs.covers, List.any_eq_true] at hcovers' ⊢
          obtain ⟨r, hr, hreaches⟩ := hcovers'
          simp only [Bool.and_eq_true, decide_eq_true_eq] at hreaches
          exact ⟨r, hr, by simp [hreaches.1, hk.trans hreaches.2]⟩
        rw [this] at hcovers
        cases hcovers
      · rw [hexits'] at hexits
        cases hexits
  · intro t k hsuperseded
    obtain hbefore | hcovers := hcovered t k hsuperseded
    · obtain ⟨o', ho', hcovers⟩ := h.covered t k hbefore
      exact ⟨o', List.mem_append_left _ ho', hcovers⟩
    · exact ⟨o, List.mem_append_right _ (List.mem_singleton_self o), hcovers⟩

theorem dropped?_eq_some (h : o.dropped? = some (t, k)) :
  o.output? = some (t, k) ∧ o.before.isSuperseded t k = false ∧ o.sent = none
    ∧ o.flow = .continue
  := by
  rw [Obs.dropped?, Option.filter_eq_some_iff] at h
  obtain ⟨houtput, hdropped⟩ := h
  simp only [Bool.and_eq_true, Bool.not_eq_true', Option.isNone_iff_eq_none,
    decide_eq_true_eq] at hdropped
  exact ⟨houtput, hdropped.1.1, hdropped.1.2, hdropped.2⟩

theorem covers_of_mem {seq : ℕ} (h : (t, seq) ∈ o.replays) (hk : k ≤ seq) :
  o.covers t k = true
  := by
  rw [Obs.covers, List.any_eq_true]
  exact ⟨(t, seq), h, by simp [hk]⟩

theorem replays_route (s : ForwardState π) (channel : TrySend) (evt : Event π)
    (sent : Option (Event π)) (flow : ControlFlow) :
  (Obs.mk s (.route channel evt) (sent.map .relayed) flow).replays = evt.replays
  := by
  cases sent <;> exact List.append_nil _

/-- What a lossless event takes off the debts, it replays, or it is the exit of the terminal. -/
theorem noteLossless_resyncDebt (evt : Event π) {debt : ℕ} (h : debt ∈ s.resyncDebt t) :
  debt ∈ (s.noteLossless evt).resyncDebt t ∨ t ∈ evt.replays.map Prod.fst
    ∨ evt.exited? = some t
  := by
  cases hexit : evt.exited? with
  | none =>
    rw [noteLossless_eq_noteReplays s hexit, noteReplays_resyncDebt]
    by_cases ht : t ∈ evt.replays.map Prod.fst
    · right
      left
      apply ht
    · left
      rwa [if_neg ht]
  | some t' =>
    cases evt with
    | terminalExited t' payload =>
      cases hexit
      by_cases ht : t = t'
      · right
        right
        rw [ht]
      · left
        change debt ∈ (s.dropResync t').resyncDebt t
        rwa [dropResync_resyncDebt, Function.update_of_ne ht]
    | _ => cases hexit

variable {evt : Event π}

/-- What a lossless event newly covers, it replays. -/
theorem noteLossless_isSuperseded (h : (s.noteLossless evt).isSuperseded t k = true) :
  s.isSuperseded t k = true ∨ ∃ seq, (t, seq) ∈ evt.replays ∧ k ≤ seq
  := by
  cases hexit : evt.exited? with
  | none =>
    rw [noteLossless_eq_noteReplays s hexit] at h
    apply noteReplays_isSuperseded h
  | some t' =>
    cases evt with
    | terminalExited t' payload =>
      left
      rw [isSuperseded] at h ⊢
      change ((Function.update (s.dropResync t').coveredSeq t' none) t).any _ = true at h
      by_cases ht : t = t'
      · rw [ht, Function.update_self] at h
        cases h
      · rwa [Function.update_of_ne ht, dropResync_coveredSeq] at h
    | _ => cases hexit

/-- Routing a lossless event whose replays reach the debts keeps the debts. -/
theorem DebtsKept.lossless (h : DebtsKept s os) {channel : TrySend}
    (hreach : ReplaysReachDebt s (.route channel evt)) (hlossless : evt.output? = none)
    (hdebts : SameDebts (s.noteLossless evt) s') (sent : Option (Event π)) (flow : ControlFlow) :
  DebtsKept s' (os ++ [⟨s, .route channel evt, sent.map .relayed, flow⟩])
  := by
  apply h.concat
  · intro t k hdropped
    have houtput : evt.output? = some (t, k) := (dropped?_eq_some hdropped).1
    rw [hlossless] at houtput
    cases houtput
  · intro t debt hdebt
    rw [hdebts.debt]
    obtain hkept | hreplayed | hexited := noteLossless_resyncDebt evt hdebt
    · left
      exact ⟨debt, hkept, le_rfl⟩
    · right
      left
      obtain ⟨r, hr, rfl⟩ := List.mem_map.mp hreplayed
      obtain ⟨r', hr', heq, hle⟩ := hreach r hr debt hdebt
      have hmem : (r.1, r'.2) ∈ evt.replays := by
        rw [← heq]
        apply hr'
      rw [← replays_route s channel evt sent flow] at hmem
      apply covers_of_mem hmem hle
    · right
      right
      exact decide_eq_true hexited
  · intro t k hsuperseded
    rw [isSuperseded, hdebts.covered, ← isSuperseded] at hsuperseded
    obtain hbefore | ⟨seq, hseq, hk⟩ := noteLossless_isSuperseded hsuperseded
    · left
      apply hbefore
    · right
      rw [← replays_route s channel evt sent flow] at hseq
      apply covers_of_mem hseq hk

/-- Routing an output keeps the debts, if what it drops it owes. -/
theorem DebtsKept.output (h : DebtsKept s os) (hcovered : s'.coveredSeq = s.coveredSeq)
    (hdebt : ∀ t, ∀ debt ∈ s.resyncDebt t, ∃ debt' ∈ s'.resyncDebt t, debt ≤ debt')
    (howed : ∀ t k, o.dropped? = some (t, k) → ∃ debt ∈ s'.resyncDebt t, k ≤ debt) :
  DebtsKept s' (os ++ [o])
  := by
  apply h.concat howed
  · intro t debt hmem
    left
    apply hdebt t debt hmem
  · intro t k hsuperseded
    left
    rwa [isSuperseded, hcovered] at hsuperseded

theorem scheduleResync_owes (s : ForwardState π) (t : TerminalId) (k : ℕ) :
  ∃ debt ∈ (s.scheduleResync t k).resyncDebt t, k ≤ debt
  := by
  rw [scheduleResync_resyncDebt, Function.update_self]
  exact ⟨_, rfl, le_max_right _ _⟩

theorem scheduleResync_mono {debt : ℕ} (h : debt ∈ s.resyncDebt t) (t' : TerminalId) (k : ℕ) :
  ∃ debt' ∈ (s.scheduleResync t' k).resyncDebt t, debt ≤ debt'
  := by
  rw [scheduleResync_resyncDebt]
  by_cases ht : t = t'
  · subst ht
    rw [Function.update_self, Option.mem_def.mp h]
    exact ⟨_, rfl, le_max_left _ _⟩
  · rw [Function.update_of_ne ht]
    exact ⟨debt, h, le_rfl⟩

theorem DebtsKept.routed
    (h : DebtsKept s os) {channel : TrySend} (hreach : ReplaysReachDebt s (.route channel evt))
    {sent : Option (Event π)} {flow : ControlFlow} (hrouted : Routed s evt s' sent flow) :
  DebtsKept s' (os ++ [⟨s, .route channel evt, sent.map .relayed, flow⟩])
  := by
  have hsame : ∀ t, ∀ debt ∈ s.resyncDebt t, ∃ debt' ∈ s.resyncDebt t, debt ≤ debt' := by
    intro t debt hdebt
    exact ⟨debt, hdebt, le_rfl⟩
  cases hrouted with
  | superseded houtput hcovered =>
    apply h.output rfl hsame
    intro t k hdropped
    obtain ⟨houtput', hlive, -⟩ := dropped?_eq_some hdropped
    cases houtput.symm.trans houtput'
    rw [hcovered] at hlive
    cases hlive
  | dropped houtput hlive =>
    apply h.output (scheduleResync_coveredSeq _ _ _)
    · intro t debt hdebt
      apply scheduleResync_mono hdebt
    · intro t k hdropped
      cases houtput.symm.trans (dropped?_eq_some hdropped).1
      apply scheduleResync_owes
  | forwarded houtput hlive hclear =>
    apply h.output rfl hsame
    intro t k hdropped
    cases (dropped?_eq_some hdropped).2.2.1
  | closed houtput =>
    apply h.output rfl hsame
    intro t k hdropped
    cases (dropped?_eq_some hdropped).2.2.2
  | sent hlossless _ => apply h.lossless hreach hlossless ⟨rfl, rfl, rfl, rfl⟩
  | queued hlossless => apply h.lossless hreach hlossless (pushPending_sameDebts _ _)
  | lost hlossless => apply h.lossless hreach hlossless ⟨rfl, rfl, rfl, rfl⟩

theorem DebtsKept.delivered (h : DebtsKept s os) {now : ℕ} {reply : SnapshotReply}
    {sent : Option (Sent π)} (hdelivered : Delivered s s' sent) :
  DebtsKept s' (os ++ [⟨s, .deliverOne now reply, sent, .continue⟩])
  := by
  have hkept : ∀ {s'' : ForwardState π} {sent : Option (Sent π)}, s''.resyncDebt = s.resyncDebt →
      s''.coveredSeq = s.coveredSeq →
      DebtsKept s'' (os ++ [⟨s, .deliverOne now reply, sent, .continue⟩]) := by
    intro s'' sent hdebt hcovered
    apply h.output hcovered
    · intro t debt hmem
      rw [hdebt]
      exact ⟨debt, hmem, le_rfl⟩
    · intro t k hdropped
      cases (dropped?_eq_some hdropped).1
  cases hdelivered with
  | relayed hpop =>
    have hsame := popPending_sameDebts hpop
    apply hkept hsame.debt hsame.covered
  | idle => apply hkept rfl rfl
  | unavailable _ hready =>
    have hsame := announceUnavailable_sameDebts (π := π)
    apply hkept
    · rw [(hsame _ _).debt, takeReady_resyncDebt hready]
    · rw [(hsame _ _).covered, takeReady_coveredSeq hready]
  | @replayed t s' now' snapshot _ hready hreaches =>
    rw [takeReady_resyncDebt hready] at hreaches
    apply h.concat
    · intro t' k hdropped
      cases (dropped?_eq_some hdropped).1
    · intro t' debt hdebt
      change (∃ debt' ∈ Function.update s'.resyncDebt t none t', _) ∨ _
      rw [takeReady_resyncDebt hready]
      by_cases ht : t' = t
      · right
        left
        subst ht
        rw [Option.mem_def.mp hdebt] at hreaches
        exact covers_of_mem (List.mem_singleton_self _) hreaches
      · left
        rw [Function.update_of_ne ht]
        exact ⟨debt, hdebt, le_rfl⟩
    · intro t' k hsuperseded
      obtain hbefore | ⟨rfl, hk⟩ := markCovered_isSuperseded hsuperseded
      · left
        rwa [isSuperseded, takeReady_coveredSeq hready] at hbefore
      · right
        exact covers_of_mem (List.mem_singleton_self _) hk

/-- Output that is sent finds no debt. -/
theorem routed_no_debt {evt' : Event π} {flow : ControlFlow} (h : Routed s evt s' (some evt') flow)
    (houtput : evt.output? = some (t, k)) :
  s.resyncDebt t = none
  := by
  cases h with
  | forwarded houtput' _ hclear =>
    cases houtput.symm.trans houtput'
    rw [quarantines, Bool.or_eq_false_iff] at hclear
    exact Option.not_isSome_iff_eq_none.mp (by simp [hclear.2])
  | sent hlossless =>
    rw [houtput] at hlossless
    cases hlossless

/-- Where the debts were kept so far, an output that is sent finds none undischarged, and one
that is suppressed was covered. -/
theorem DebtsKept.discharged (h : DebtsKept s os) (a : Act π) :
  (∀ t, (act s a).2.forwards t = true → ∀ k, ¬ Undischarged os t k)
    ∧ ∀ t k, (act s a).2.suppresses t k = true → ∃ o ∈ os, o.covers t k = true
  := by
  constructor
  · intro t hforwards k hundischarged
    obtain ⟨debt, hdebt, -⟩ := h.owed t k hundischarged
    rw [Obs.forwards, Bool.and_eq_true] at hforwards
    obtain ⟨hsent, houtput⟩ := hforwards
    cases a with
    | deliverOne now reply => cases houtput
    | route channel evt =>
      have hrouted := route_routed s channel evt
      change ((s.route channel evt).2.1.map Sent.relayed).isSome = true at hsent
      rw [Option.isSome_map] at hsent
      obtain ⟨evt', hevt'⟩ := Option.isSome_iff_exists.mp hsent
      obtain ⟨⟨t', k'⟩, houtput', ht⟩ := (Option.any_eq_true _ _).mp houtput
      rw [decide_eq_true_eq] at ht
      subst ht
      rw [hevt'] at hrouted
      rw [routed_no_debt hrouted houtput'] at hdebt
      cases hdebt
  · intro t k hsuppresses
    rw [Obs.suppresses, Bool.and_eq_true] at hsuppresses
    apply h.covered t k
    cases a with
    | route channel evt => exact hsuppresses.2
    | deliverOne now reply => exact hsuppresses.2

/-- In every run in which the replays routed for a terminal with a debt reach the debt, output of
a terminal is sent only when every output of it that was dropped has since been covered by a
replay or the terminal has exited. -/
theorem debt_discharged_by_coverage
    (metrics : EventMetrics) (acts : List (Act π))
    (hacts : machine.Along (fun f a => ReplaysReachDebt f.state a) (new metrics) acts) :
  DischargedByCoverage (machine.trace (new metrics) acts)
  := by
  have h := run_invariant (P := fun f a => ReplaysReachDebt f.state a)
    (I := fun f os => DischargedByCoverage os ∧ DebtsKept f.state os) ?_ ?_ hacts
  · apply h.1
  · refine ⟨atEach_nil _, ?_, ?_⟩
    · intro t k hundischarged
      exact absurd hundischarged (undischarged_nil t k)
    · intro t k hsuperseded
      cases hsuperseded
  · rintro s os a ha ⟨hdischarged, hkept⟩
    constructor
    · exact atEach_concat.mpr ⟨hdischarged, hkept.discharged a⟩
    · cases a with
      | route channel evt => apply hkept.routed ha (route_routed s channel evt)
      | deliverOne now reply => apply hkept.delivered (deliverOne_delivered s now reply)

/-- Two outputs are dropped, a stale snapshot is refused, a replay that reaches both is routed, and
the next output is sent; one more is dropped, and the forwarder fetches its replay. -/
theorem debt_discharged_by_coverage_resynced :
  let acts : List (Act Unit) :=
    [.route .full (.terminalOutput ⟨1⟩ 5 ()), .deliverOne 0 (.snapshot ⟨[], 4, true, []⟩),
      .route .ok (.terminalOutput ⟨1⟩ 6 ()), .route .ok (.terminalResync ⟨1⟩ [] 6 []),
      .route .ok (.terminalOutput ⟨1⟩ 7 ()), .route .full (.terminalOutput ⟨1⟩ 8 ()),
      .deliverOne 1 (.snapshot ⟨[], 8, true, []⟩)]
  DischargedByCoverage (machine.trace (new ⟨0, 0⟩) acts)
    ∧ (machine.trace (new ⟨0, 0⟩) acts).filterMap Obs.sent
      = [.recovery (.terminalResyncUnavailable ⟨1⟩), .relayed (.terminalResync ⟨1⟩ [] 6 []),
        .relayed (.terminalOutput ⟨1⟩ 7 ()), .recovery (.terminalResync ⟨1⟩ [] 8 [])]
  := by
  intro acts
  exact ⟨debt_discharged_by_coverage ⟨0, 0⟩ acts (by decide), by decide⟩

end Forwarder

end Lazybox
