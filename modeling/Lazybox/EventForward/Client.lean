import Lazybox.EventForward.Debt
import Mathlib.Data.List.Range

/-!
# What a client applies

A client applies the output it is sent in order, and adopts the sequence number of each replay.
When the chunks of every terminal are routed with consecutive sequence numbers and no replay comes
from elsewhere, the forwarder sends the client each next chunk exactly when the client lacks no
chunk before it.  This holds of a terminal until its exit is routed: an exit forgets what the
terminal owes and what of it was covered.
-/

namespace Lazybox

/-- What a client has of each terminal: the sequence number it applied last, and the chunks in its
grid. -/
structure Client where
  applied : TerminalId → ℕ
  chunks : TerminalId → List ℕ

namespace Client

/-- A client that has the chunks of every terminal `t` through `base t`. -/
def start (base : TerminalId → ℕ) : Client where
  applied := base
  chunks t := List.range' 1 (base t)

/-- Feed chunk `k` of `t` on top of what is there. -/
def feed (c : Client) (t : TerminalId) (k : ℕ) : Client where
  applied := Function.update c.applied t k
  chunks := Function.update c.chunks t (c.chunks t ++ [k])

/-- Reset `t` to a replay, which contains every chunk through `seq`. -/
def adopt (c : Client) (t : TerminalId) (seq : ℕ) : Client where
  applied := Function.update c.applied t seq
  chunks := Function.update c.chunks t (List.range' 1 seq)

def receive {π : Type} (c : Client) (evt : Event π) : Client :=
  match evt.output? with
  | some (t, k) => c.feed t k
  | none => evt.replays.foldl (fun c r => c.adopt r.1 r.2) c

end Client

namespace Forwarder

open ForwardState

variable {π : Type}

/-- The event among what is sent. -/
def eventOf : Option (Sent π) → Option (Event π)
  | some (.relayed evt) | some (.recovery evt) => some evt
  | none => none

/-- The event a step sends to the client. -/
def Obs.event? (o : Obs π) : Option (Event π) := eventOf o.sent

/-- The client after the events it was sent. -/
def clientAfter (base : TerminalId → ℕ) (os : List (Obs π)) : Client :=
  (os.filterMap Obs.event?).foldl Client.receive (Client.start base)

/-- The sequence numbers of the outputs of `t`, in the order in which they are routed. -/
def outputsOf (acts : List (Act π)) (t : TerminalId) : List ℕ :=
  acts.filterMap fun a => (a.output?.filter fun out => out.1 = t).map Prod.snd

/-- The outputs of every terminal `t` are routed with consecutive sequence numbers, the first
after `base t`. -/
def Consecutive (base : TerminalId → ℕ) (acts : List (Act π)) : Prop :=
  ∀ t, outputsOf acts t = List.range' (base t + 1) (outputsOf acts t).length

/-- No replay comes from elsewhere. -/
def NoReplays (acts : List (Act π)) : Prop := ∀ a ∈ acts, ∀ evt ∈ a.routed?, evt.replays = []

/-- The exit of `t` was routed. -/
def Exited (os : List (Obs π)) (t : TerminalId) : Prop := ∃ o ∈ os, o.exits t = true

/-- An output of `t` that the client is sent is the chunk after the last one it applied. -/
def InSequence (base : TerminalId → ℕ) (before : List (Obs π)) (o : Obs π) (t : TerminalId) :
    Prop :=
  ∀ evt ∈ o.event?, ∀ k, evt.output? = some (t, k) →
    k = (clientAfter base before).applied t + 1

/-- An output is sent, the next finds the channel full, the terminal exits, and one more output of
it is sent. -/
def outputAfterExit : List (Act Unit) :=
  [.route .ok (.terminalOutput ⟨1⟩ 1 ()), .route .full (.terminalOutput ⟨1⟩ 2 ()),
    .route .ok (.terminalExited ⟨1⟩ ()), .route .ok (.terminalOutput ⟨1⟩ 3 ())]

variable {base : TerminalId → ℕ}

variable {acts : List (Act π)}

/-- If all outputs are of one terminal, only that terminal's sequence numbers are to be looked
at. -/
theorem consecutive_of_single (t : TerminalId) (hsingle : ∀ a ∈ acts, ∀ out ∈ a.output?, out.1 = t)
    (h : outputsOf acts t = List.range' (base t + 1) (outputsOf acts t).length) :
  Consecutive base acts
  := by
  intro t'
  by_cases ht : t' = t
  · subst ht
    apply h
  · have hnil : outputsOf acts t' = [] := by
      rw [outputsOf, List.filterMap_eq_nil_iff]
      intro a ha
      rw [Option.map_eq_none_iff, Option.filter_eq_none_iff]
      intro out hout
      rw [hsingle a ha out hout]
      simpa using Ne.symm ht
    rw [hnil]
    rfl

/-- The exit of a terminal lets output past the output that was dropped. -/
theorem exit_forgets_debt :
  ¬ ∀ (base : TerminalId → ℕ) (metrics : EventMetrics) (acts : List (Act Unit)),
      Consecutive base acts → NoReplays acts →
        AtEach (fun before o => ∀ t, InSequence base before o t)
          (machine.trace (new metrics) acts)
  := by
  intro h
  let sent := act (ForwardState.new ⟨0, 0⟩) (.route .ok (.terminalOutput ⟨1⟩ 1 ()))
  let dropped := act sent.1 (.route .full (.terminalOutput ⟨1⟩ 2 ()))
  let exited := act dropped.1 (.route .ok (.terminalExited ⟨1⟩ ()))
  let forwarded := act exited.1 (.route .ok (.terminalOutput ⟨1⟩ 3 ()))
  have hpoint := h (fun _ => 0) ⟨0, 0⟩ outputAfterExit
    (consecutive_of_single ⟨1⟩ (by decide) (by decide)) (by unfold NoReplays; decide)
    [sent.2, dropped.2, exited.2] forwarded.2 [] rfl ⟨1⟩
  have hthree : 3 = (clientAfter (fun _ => 0) [sent.2, dropped.2, exited.2]).applied ⟨1⟩ + 1 :=
    hpoint (.terminalOutput ⟨1⟩ 3 ()) rfl 3 rfl
  exact absurd hthree (by decide)

/-! ### What is sent and what the client applies -/

theorem clientAfter_concat (base : TerminalId → ℕ) (os : List (Obs π)) (o : Obs π) :
  clientAfter base (os ++ [o])
    = o.event?.elim (clientAfter base os) (clientAfter base os).receive
  := by
  rw [clientAfter, List.filterMap_append, List.foldl_append]
  cases h : o.event? <;> simp [clientAfter, h]

variable {evt : Event π}

theorem receive_of_plain (houtput : evt.output? = none) (hreplays : evt.replays = []) (c : Client) :
  c.receive evt = c
  := by
  rw [Client.receive, houtput, hreplays]
  rfl

variable {t : TerminalId}

theorem receive_of_output {k : ℕ} (houtput : evt.output? = some (t, k)) (c : Client) :
  c.receive evt = c.feed t k
  := by
  rw [Client.receive, houtput]

/-- The client has every chunk of `t` through the last one it applied, each once. -/
def Whole (c : Client) (t : TerminalId) : Prop := c.chunks t = List.range' 1 (c.applied t)

variable {c : Client}

theorem Whole.adopt (h : Whole c t) (t' : TerminalId) (seq : ℕ) :
  Whole (c.adopt t' seq) t
  := by
  by_cases ht : t = t'
  · subst ht
    simp [Whole, Client.adopt]
  · simpa [Whole, Client.adopt, Function.update_of_ne ht] using h

/-- A client that is sent the chunk it lacks next has every chunk. -/
theorem Whole.receive
    (h : Whole c t) (hnext : ∀ k, evt.output? = some (t, k) → k = c.applied t + 1) :
  Whole (c.receive evt) t
  := by
  rw [Client.receive]
  split
  · next t' k houtput =>
      by_cases ht : t = t'
      · subst ht
        rw [hnext k houtput, Whole, Client.feed]
        simp only [Function.update_self]
        rw [h, List.range'_1_concat, Nat.add_comm]
      · simpa [Whole, Client.feed, Function.update_of_ne ht] using h
  · clear hnext
    generalize evt.replays = replays
    induction replays generalizing c with
    | nil => apply h
    | cons r replays ih => apply ih (h.adopt r.1 r.2)

/-! ### One terminal, from the last sequence number that was routed -/

/-- How what the forwarder keeps of `t` and what the client applied of it stand to the last
sequence number `r` of `t` that was routed.  Without a debt the client has everything routed, and
more only from a replay; with a debt it lacks something, and the debt is all that was routed. -/
structure InStep (s : ForwardState π) (c : Client) (t : TerminalId) (r : ℕ) : Prop where
  covered : ∀ seq ∈ s.coveredSeq t, seq ≤ c.applied t
  whole : s.resyncDebt t = none →
    c.applied t = r ∨ (r < c.applied t ∧ s.coveredSeq t = some (c.applied t))
  lacking : ∀ debt ∈ s.resyncDebt t, debt = r ∧ c.applied t < r

variable {r : ℕ} {s s' : ForwardState π}

theorem InStep.congr
    {c' : Client} (h : InStep s c t r) (hcovered : s'.coveredSeq t = s.coveredSeq t)
    (hdebt : s'.resyncDebt t = s.resyncDebt t) (happlied : c'.applied t = c.applied t) :
  InStep s' c' t r
  := by
  constructor
  · rw [hcovered, happlied]
    apply h.covered
  · rw [hcovered, hdebt, happlied]
    apply h.whole
  · rw [hdebt, happlied]
    apply h.lacking

/-- A chunk that no replay carried is the next one for a client without a debt. -/
theorem InStep.applied_eq (h : InStep s c t r) (hlive : s.isSuperseded t (r + 1) = false)
    (hdebt : s.resyncDebt t = none) :
  c.applied t = r
  := by
  obtain happlied | ⟨hlt, hcovered⟩ := h.whole hdebt
  · apply happlied
  · rw [isSuperseded, hcovered] at hlive
    simp at hlive
    omega

theorem InStep.superseded (h : InStep s c t r) (hcovered : s.isSuperseded t (r + 1) = true) :
  InStep s c t (r + 1)
  := by
  rw [isSuperseded, Option.any_eq_true] at hcovered
  obtain ⟨seq, hseq, hr⟩ := hcovered
  rw [decide_eq_true_eq] at hr
  have happlied := h.covered seq hseq
  refine ⟨h.covered, ?_, ?_⟩
  · intro hdebt
    obtain heq | ⟨-, hcovered⟩ := h.whole hdebt
    · omega
    · rw [hcovered] at hseq ⊢
      cases hseq
      obtain heq | hlt := Nat.eq_or_lt_of_le hr
      · left
        apply heq.symm
      · right
        exact ⟨hlt, rfl⟩
  · intro debt hdebt
    have := (h.lacking debt hdebt).2
    omega

theorem InStep.dropped (h : InStep s c t r) (hlive : s.isSuperseded t (r + 1) = false) :
  InStep (s.scheduleResync t (r + 1)) c t (r + 1)
  := by
  constructor
  · rw [scheduleResync_coveredSeq]
    apply h.covered
  · rw [scheduleResync_resyncDebt, Function.update_self]
    intro hdebt
    cases hdebt
  · rw [scheduleResync_resyncDebt, Function.update_self]
    intro debt hdebt
    cases hdebt
    cases hbefore : s.resyncDebt t with
    | none =>
      have := h.applied_eq hlive hbefore
      simp
      omega
    | some debt =>
      obtain ⟨rfl, hlt⟩ := h.lacking debt hbefore
      simp
      omega

theorem InStep.forwarded (h : InStep s c t r) (hlive : s.isSuperseded t (r + 1) = false)
    (hdebt : s.resyncDebt t = none) :
  InStep s (c.feed t (r + 1)) t (r + 1)
  := by
  have happlied := h.applied_eq hlive hdebt
  constructor
  · intro seq hseq
    have := h.covered seq hseq
    simp only [Client.feed, Function.update_self]
    omega
  · intro _
    left
    simp [Client.feed]
  · intro debt hmem
    rw [hdebt] at hmem
    cases hmem

/-- A replay that reaches the debt brings the client up to what was routed. -/
theorem InStep.settled {debt : ℕ} (h : InStep s c t r) (hdebt : debt ∈ s.resyncDebt t) (now : ℕ)
    {seq : ℕ} (hreaches : debt ≤ seq) :
  InStep (s.settleDebt t now seq) (c.adopt t seq) t r
  := by
  obtain ⟨rfl, hlt⟩ := h.lacking debt hdebt
  have hcovered : (s.settleDebt t now seq).coveredSeq t = some seq := by
    simp only [settleDebt, markCovered, Function.update_self, Option.some.injEq]
    apply max_eq_right
    cases hbefore : s.coveredSeq t with
    | none => apply Nat.zero_le
    | some covered =>
      have := h.covered covered hbefore
      simp
      omega
  have happlied : (c.adopt t seq).applied t = seq := by simp [Client.adopt]
  constructor
  · intro seq' hseq'
    rw [hcovered] at hseq'
    cases hseq'
    rw [happlied]
  · intro _
    rw [hcovered, happlied]
    obtain heq | hlt := Nat.eq_or_lt_of_le hreaches
    · left
      apply heq.symm
    · right
      exact ⟨hlt, rfl⟩
  · intro debt' hdebt'
    simp [settleDebt] at hdebt'

/-! ### What was routed -/

/-- The last sequence number of `t` that was routed. -/
def lastRouted (base : TerminalId → ℕ) (acts : List (Act π)) (t : TerminalId) : ℕ :=
  base t + (outputsOf acts t).length

theorem outputsOf_append (acts acts' : List (Act π)) (t : TerminalId) :
  outputsOf (acts ++ acts') t = outputsOf acts t ++ outputsOf acts' t
  := List.filterMap_append

variable {a : Act π}

theorem outputsOf_singleton {k : ℕ} (h : a.output? = some (t, k)) :
  outputsOf [a] t = [k]
  := by
  simp [outputsOf, h]

theorem outputsOf_singleton_of_ne (h : ∀ k, a.output? ≠ some (t, k)) :
  outputsOf [a] t = []
  := by
  cases houtput : a.output? with
  | none => simp [outputsOf, houtput]
  | some out =>
    have hne : out.1 ≠ t := by
      rintro rfl
      exact h out.2 houtput
    simp [outputsOf, houtput, hne]

theorem lastRouted_concat
    {k : ℕ} (h : a.output? = some (t, k)) (base : TerminalId → ℕ) (acts : List (Act π)) :
  lastRouted base (acts ++ [a]) t = lastRouted base acts t + 1
  := by
  rw [lastRouted, outputsOf_append, outputsOf_singleton h, List.length_append,
    List.length_singleton]
  rfl

theorem lastRouted_concat_of_ne
    (h : ∀ k, a.output? ≠ some (t, k)) (base : TerminalId → ℕ) (acts : List (Act π)) :
  lastRouted base (acts ++ [a]) t = lastRouted base acts t
  := by
  rw [lastRouted, outputsOf_append, outputsOf_singleton_of_ne h, List.append_nil]
  rfl

/-- The first part of a consecutive run is consecutive. -/
theorem Consecutive.left {acts' : List (Act π)} (h : Consecutive base (acts ++ acts')) :
  Consecutive base acts
  := by
  intro t
  have ht := congrArg (List.take (outputsOf acts t).length) (h t)
  rwa [outputsOf_append, List.take_left, List.length_append, List.take_range'_of_length_ge
    (Nat.le_add_right _ _)] at ht

/-- The next output of a consecutive run comes after the last one that was routed. -/
theorem Consecutive.next
    {k : ℕ} (h : Consecutive base (acts ++ [a])) (houtput : a.output? = some (t, k)) :
  k = lastRouted base acts t + 1
  := by
  have ht := h t
  rw [outputsOf_append, outputsOf_singleton houtput, List.length_append, List.length_singleton,
    List.range'_1_concat] at ht
  have hk := (List.append_inj' ht rfl).2
  cases hk
  rw [lastRouted]
  omega

/-! ### One step, seen from one terminal -/

/-- A lossless event that replays nothing and is not the exit of `t` changes nothing of `t`. -/
theorem noteLossless_at
    (s : ForwardState π) (hreplays : evt.replays = []) (hexit : evt.exited? ≠ some t) :
  (s.noteLossless evt).coveredSeq t = s.coveredSeq t
    ∧ (s.noteLossless evt).resyncDebt t = s.resyncDebt t
  := by
  cases hexited : evt.exited? with
  | none =>
    rw [noteLossless_eq_noteReplays s hexited, hreplays]
    exact ⟨rfl, rfl⟩
  | some t' =>
    cases evt with
    | terminalExited t' payload =>
      have ht : t ≠ t' := by
        rintro rfl
        exact hexit rfl
      change Function.update (s.dropResync t').coveredSeq t' none t = _
        ∧ (s.dropResync t').resyncDebt t = _
      rw [dropResync_coveredSeq, dropResync_resyncDebt, Function.update_of_ne ht,
        Function.update_of_ne ht]
      exact ⟨rfl, rfl⟩
    | _ => cases hexited

section routed

variable {base : TerminalId → ℕ} {acts : List (Act π)} {s s' : ForwardState π} {c : Client}
  {t : TerminalId} {channel : TrySend} {evt : Event π} {sent : Option (Event π)}
  {flow : ControlFlow}

/-- An output that is sent is the chunk after the last one the client applied. -/
theorem InStep.in_sequence
    (h : InStep s c t (lastRouted base acts t)) (hrouted : Routed s evt s' sent flow)
    (hnext : ∀ k, evt.output? = some (t, k) → k = lastRouted base acts t + 1)
    {evt' : Event π} (hsent : sent = some evt') {k : ℕ} (houtput : evt'.output? = some (t, k)) :
  k = c.applied t + 1
  := by
  subst hsent
  have hevt : evt' = evt := by
    cases hrouted with
    | forwarded => rfl
    | sent => rfl
  subst hevt
  have hdebt := routed_no_debt hrouted houtput
  have hk := hnext k houtput
  cases hrouted with
  | forwarded houtput' hlive =>
    cases houtput.symm.trans houtput'
    rw [hk] at hlive
    rw [h.applied_eq hlive hdebt, hk]
  | sent hlossless =>
    rw [houtput] at hlossless
    cases hlossless

/-- Routing an event keeps the forwarder and the client in step. -/
theorem InStep.routed
    (h : InStep s c t (lastRouted base acts t)) (hrouted : Routed s evt s' sent .continue)
    (hnext : ∀ k, evt.output? = some (t, k) → k = lastRouted base acts t + 1)
    (hreplays : evt.replays = []) (hexit : evt.exited? ≠ some t) :
  InStep s' (sent.elim c c.receive) t (lastRouted base (acts ++ [.route channel evt]) t)
  := by
  obtain ⟨hcovered, hdebt⟩ := noteLossless_at s hreplays hexit
  have hlast : ∀ {t' k}, evt.output? = some (t', k) → t ≠ t' →
      lastRouted base (acts ++ [.route channel evt]) t = lastRouted base acts t := by
    intro t' k houtput ht
    apply lastRouted_concat_of_ne
    rintro k' houtput'
    cases houtput.symm.trans houtput'
    exact ht rfl
  have hlossless' : evt.output? = none →
      lastRouted base (acts ++ [.route channel evt]) t = lastRouted base acts t := by
    intro hlossless
    apply lastRouted_concat_of_ne
    rintro k' houtput'
    cases hlossless.symm.trans houtput'
  cases hrouted with
  | @superseded t' k houtput hsuperseded =>
    by_cases ht : t = t'
    · subst ht
      rw [lastRouted_concat (a := .route channel evt) houtput]
      rw [hnext k houtput] at hsuperseded
      apply h.superseded hsuperseded
    · rw [hlast houtput ht]
      apply h
  | @dropped t' k houtput hlive =>
    by_cases ht : t = t'
    · subst ht
      rw [lastRouted_concat (a := .route channel evt) houtput]
      rw [hnext k houtput] at hlive ⊢
      apply h.dropped hlive
    · rw [hlast houtput ht]
      apply h.congr
      · rw [scheduleResync_coveredSeq]
      · rw [scheduleResync_resyncDebt, Function.update_of_ne ht]
      · rfl
  | @forwarded t' k houtput hlive hclear =>
    change InStep s (c.receive evt) t _
    rw [receive_of_output houtput]
    by_cases ht : t = t'
    · subst ht
      have hdebt := routed_no_debt (.forwarded houtput hlive hclear) houtput
      rw [lastRouted_concat (a := .route channel evt) houtput]
      rw [hnext k houtput] at hlive ⊢
      apply h.forwarded hlive hdebt
    · rw [hlast houtput ht]
      apply h.congr rfl rfl
      simp [Client.feed, Function.update_of_ne ht]
  | sent hlossless hempty =>
    change InStep _ (c.receive evt) t _
    rw [hlossless' hlossless, receive_of_plain hlossless hreplays]
    apply h.congr hcovered hdebt rfl
  | queued hlossless =>
    rw [hlossless' hlossless]
    have hsame := pushPending_sameDebts (s.noteLossless evt) evt
    apply h.congr
    · rw [hsame.covered, hcovered]
    · rw [hsame.debt, hdebt]
    · rfl

end routed

/-- A terminal whose replay is fetched has a debt. -/
theorem takeReady_owes {now : ℕ} (hexact : Exact s) (h : s.takeReady now = some (t, s')) :
  ∃ debt, debt ∈ s.resyncDebt t
  := by
  have hmem : t ∈ s.resyncQueue := by
    rw [takeReady] at h
    split at h
    · cases h
    · next hfind =>
        cases h
        apply List.mem_of_find?_eq_some hfind
  rw [hexact.mem_iff] at hmem
  exact Option.isSome_iff_exists.mp (hexact.owes t hmem)

/-- Delivering an item keeps the forwarder and the client in step. -/
theorem InStep.delivered
    {sent : Option (Sent π)} (h : InStep s c t r) (hdelivered : Delivered s s' sent)
    (hexact : Exact s) (hplain : ∀ evt ∈ s.pending, evt.output? = none ∧ evt.replays = []) :
  InStep s' ((eventOf sent).elim c c.receive) t r
  := by
  cases hdelivered with
  | @relayed evt s' hpop =>
    have hsame := popPending_sameDebts hpop
    obtain ⟨houtput, hreplays⟩ := hplain evt (by
      rw [popPending_eq_some hpop]
      apply List.mem_cons_self)
    change InStep s' (c.receive evt) t r
    rw [receive_of_plain houtput hreplays]
    apply h.congr (by rw [hsame.covered]) (by rw [hsame.debt]) rfl
  | idle => exact h
  | @replayed t' s' now snapshot _ hready hreaches =>
    have hdebt := takeReady_resyncDebt hready
    have hcovered := takeReady_coveredSeq hready
    change InStep _ (c.adopt t' snapshot.lastSeq) t r
    have h' : InStep s' c t r := h.congr (by rw [hcovered]) (by rw [hdebt]) rfl
    by_cases ht : t = t'
    · subst ht
      obtain ⟨debt, hmem⟩ := takeReady_owes hexact hready
      rw [hdebt, Option.mem_def.mp hmem] at hreaches
      rw [← hdebt] at hmem
      apply h'.settled hmem now hreaches
    · apply h'.congr
      · simp [settleDebt, markCovered, Function.update_of_ne ht]
      · simp [settleDebt, markCovered, Function.update_of_ne ht]
      · simp [Client.adopt, Function.update_of_ne ht]
  | @unavailable t' s' now _ hready =>
    have hsame := announceUnavailable_sameDebts s' t'
    have hclient : (eventOf (s'.announceUnavailable t').2).elim c c.receive = c := by
      rw [announceUnavailable]
      split <;> rfl
    rw [hclient]
    apply h.congr
    · rw [hsame.covered, takeReady_coveredSeq hready]
    · rw [hsame.debt, takeReady_resyncDebt hready]
    · rfl

/-! ### The whole run -/

/-- What holds of a forwarder, its client and what was observed so far. -/
structure Applies (base : TerminalId → ℕ) (f : Forwarder π) (os : List (Obs π)) : Prop where
  sequence : AtEach (fun before o => ∀ t, ¬ Exited before t → InSequence base before o t) os
  whole : ∀ t, ¬ Exited os t → Whole (clientAfter base os) t
  inStep : f.connected = true → ∀ t, ¬ Exited os t →
    InStep f.state (clientAfter base os) t (lastRouted base (os.map Obs.act) t)

variable {os : List (Obs π)}

theorem not_exited_concat {o : Obs π} (h : ¬ Exited (os ++ [o]) t) :
  ¬ Exited os t ∧ o.exits t = false
  := by
  constructor
  · rintro ⟨o', ho', hexits⟩
    exact h ⟨o', List.mem_append_left _ ho', hexits⟩
  · apply Bool.eq_false_of_not_eq_true
    intro hexits
    exact h ⟨o, List.mem_append_right _ (List.mem_singleton_self o), hexits⟩

/-- A step that keeps each terminal in step and in sequence keeps what holds of the run. -/
theorem Applies.concat
    {f : Forwarder π} {o : Obs π}
    (h : Applies base ⟨s, true⟩ os)
    (hsequence : ∀ t, ¬ Exited os t → InSequence base os o t)
    (hstep : f.connected = true → ∀ t, ¬ Exited os t → o.exits t = false →
      InStep f.state (o.event?.elim (clientAfter base os) (clientAfter base os).receive) t
        (lastRouted base (os.map Obs.act ++ [o.act]) t)) :
  Applies base f (os ++ [o])
  where
  sequence := atEach_concat.mpr ⟨h.sequence, hsequence⟩
  whole := by
    intro t hexited
    have hbefore := (not_exited_concat hexited).1
    rw [clientAfter_concat]
    cases hevent : o.event? with
    | none => apply h.whole t hbefore
    | some evt =>
        apply (h.whole t hbefore).receive
        apply hsequence t hbefore evt hevent
  inStep := by
    intro hconnected t hexited
    obtain ⟨hbefore, hexits⟩ := not_exited_concat hexited
    rw [clientAfter_concat, List.map_append]
    apply hstep hconnected t hbefore hexits

/-- What is queued was routed, so it is no replay. -/
theorem Kept.plain {f : Forwarder π} (h : Kept f os) (hreplays : NoReplays (os.map Obs.act)) :
  ∀ evt ∈ f.state.pending, evt.output? = none ∧ evt.replays = []
  := by
  intro evt hevt
  refine ⟨h.queues evt hevt, ?_⟩
  obtain ⟨lost, hbalanced, -⟩ := h.balanced
  have hrouted : evt ∈ routedLossless os := by
    rw [hbalanced]
    exact List.mem_append_left _ (List.mem_append_right _ hevt)
  obtain ⟨o, ho, hevt⟩ := List.mem_filterMap.mp (List.mem_of_mem_filter hrouted)
  exact hreplays o.act (List.mem_map_of_mem ho) evt hevt

theorem eventOf_map_relayed (sent : Option (Event π)) :
  eventOf (sent.map .relayed) = sent
  := by
  cases sent <;> rfl

/-- No item delivered is output. -/
theorem delivered_not_output {sent : Option (Sent π)} (h : Delivered s s' sent)
    (hplain : ∀ evt ∈ s.pending, evt.output? = none ∧ evt.replays = []) :
  ∀ evt ∈ eventOf sent, evt.output? = none
  := by
  intro evt hevt
  cases h with
  | relayed hpop =>
    cases hevt
    apply (hplain evt _).1
    rw [popPending_eq_some hpop]
    apply List.mem_cons_self
  | idle => cases hevt
  | replayed =>
    cases hevt
    rfl
  | unavailable =>
    rw [announceUnavailable] at hevt
    split at hevt
    · cases hevt
    · cases hevt
      rfl

theorem Applies.act (h : Applies base ⟨s, true⟩ os) (hkept : Kept ⟨s, true⟩ os) (a : Act π)
    (hconsecutive : Consecutive base (os.map Obs.act ++ [a]))
    (hreplays : NoReplays (os.map Obs.act ++ [a])) :
  let r := Forwarder.act s a
  Applies base ⟨r.1, decide (r.2.flow = .continue)⟩ (os ++ [r.2])
  := by
  intro r
  cases a with
  | route channel evt =>
    have hrouted := route_routed s channel evt
    have hevent : r.2.event? = (s.route channel evt).2.1 := eventOf_map_relayed _
    have hnext : ∀ t k, evt.output? = some (t, k) →
        k = lastRouted base (os.map Obs.act) t + 1 := by
      intro t k houtput
      apply hconsecutive.next houtput
    apply h.concat
    · intro t hexited evt' hevt' k houtput
      rw [hevent] at hevt'
      apply (h.inStep rfl t hexited).in_sequence hrouted (hnext t) hevt' houtput
    · intro hconnected t hexited hexits
      have hflow : (s.route channel evt).2.2 = .continue := of_decide_eq_true hconnected
      rw [hflow] at hrouted
      rw [hevent]
      apply (h.inStep rfl t hexited).routed hrouted (hnext t)
      · apply hreplays (.route channel evt) (by simp) evt rfl
      · apply of_decide_eq_false hexits
  | deliverOne now reply =>
    have hdelivered := deliverOne_delivered s now reply
    have hplain := hkept.plain (f := ⟨s, true⟩) fun a ha => hreplays a (by simp [ha])
    apply h.concat
    · intro t hexited evt hevt k houtput
      rw [delivered_not_output hdelivered hplain evt hevt] at houtput
      cases houtput
    · intro _ t hexited _
      rw [lastRouted_concat_of_ne]
      · apply (h.inStep rfl t hexited).delivered hdelivered hkept.exact hplain
      · intro k houtput
        cases houtput

theorem Applies.new (base : TerminalId → ℕ) (metrics : EventMetrics) :
  Applies base (Forwarder.new (π := π) metrics) []
  where
  sequence := atEach_nil _
  whole _ _ := rfl
  inStep _ t _ := by
    refine ⟨?_, fun _ => .inl rfl, ?_⟩
    · intro seq hseq
      cases hseq
    · intro debt hdebt
      cases hdebt

theorem act_observed (s : ForwardState π) (a : Act π) :
  (Forwarder.act s a).2.act = a
  := by
  cases a <;> rfl

theorem trace_disconnected (s : ForwardState π) (acts : List (Act π)) :
  machine.trace ⟨s, false⟩ acts = []
  := by
  induction acts with
  | nil => rfl
  | cons a acts ih => apply ih

/-- Every action is observed until the connection breaks, and none after. -/
theorem acts_observed (f : Forwarder π) (acts : List (Act π)) :
  ∃ rest, acts = (machine.trace f acts).map Obs.act ++ rest
  := by
  induction acts generalizing f with
  | nil => exact ⟨[], rfl⟩
  | cons a acts ih =>
    obtain ⟨s, connected⟩ := f
    cases connected with
    | false =>
      rw [trace_disconnected]
      exact ⟨a :: acts, rfl⟩
    | true =>
      obtain ⟨rest, hrest⟩ := ih (machine.next ⟨s, true⟩ a)
      use rest
      change a :: acts = (Forwarder.act s a).2.act ::
        ((machine.trace (machine.next ⟨s, true⟩ a) acts).map Obs.act ++ rest)
      rw [act_observed, ← hrest]

/-- In every run with consecutive sequence numbers and no replay from elsewhere, each output of a
terminal that the client is sent before the terminal's exit is routed is the chunk after the last
one the client applied, and the client has every chunk through that one, each once. -/
theorem applies_exactly_once
    (base : TerminalId → ℕ) (metrics : EventMetrics) (acts : List (Act π))
    (hconsecutive : Consecutive base acts) (hreplays : NoReplays acts) :
  let os := machine.trace (new metrics) acts
  AtEach (fun before o => ∀ t, ¬ Exited before t → InSequence base before o t) os
    ∧ ∀ t, ¬ Exited os t → Whole (clientAfter base os) t
  := by
  intro os
  have h := run_invariant (f := new metrics) (P := fun _ _ => True)
    (I := fun f os => Kept f os ∧
      (Consecutive base (os.map Obs.act) → NoReplays (os.map Obs.act) → Applies base f os))
    ⟨Kept.new metrics, fun _ _ => Applies.new base metrics⟩ ?_
    (machine.along_of_forall (by simp) _ acts)
  · obtain ⟨rest, hrest⟩ := acts_observed (new metrics) acts
    rw [hrest] at hconsecutive hreplays
    have happlies := h.2 hconsecutive.left fun a ha => hreplays a (List.mem_append_left _ ha)
    exact ⟨happlies.sequence, happlies.whole⟩
  · rintro s os a - ⟨hkept, happlies⟩
    refine ⟨hkept.act a, ?_⟩
    intro hconsecutive hreplays
    rw [List.map_append, List.map_singleton, act_observed] at hconsecutive hreplays
    apply Applies.act _ hkept a hconsecutive hreplays
    apply happlies hconsecutive.left
    intro a' ha'
    apply hreplays a' (List.mem_append_left _ ha')

/-- An output is sent and the next two are dropped; a stale snapshot is refused, and one that is
ahead of what was routed is sent; the output it already carries is suppressed, and the next one is
sent. -/
theorem applies_exactly_once_resynced :
  let acts : List (Act Unit) :=
    [.route .ok (.terminalOutput ⟨1⟩ 1 ()), .route .full (.terminalOutput ⟨1⟩ 2 ()),
      .deliverOne 0 (.snapshot ⟨[], 1, true, []⟩), .route .ok (.terminalOutput ⟨1⟩ 3 ()),
      .deliverOne 1 (.snapshot ⟨[], 4, true, []⟩), .route .ok (.terminalOutput ⟨1⟩ 4 ()),
      .route .ok (.terminalOutput ⟨1⟩ 5 ())]
  let os := machine.trace (new ⟨0, 0⟩) acts
  (AtEach (fun before o => ∀ t, ¬ Exited before t → InSequence (fun _ => 0) before o t) os
      ∧ ∀ t, ¬ Exited os t → Whole (clientAfter (fun _ => 0) os) t)
    ∧ (clientAfter (fun _ => 0) os).chunks ⟨1⟩ = [1, 2, 3, 4, 5]
  := by
  intro acts os
  refine ⟨applies_exactly_once (fun _ => 0) ⟨0, 0⟩ acts ?_ ?_, by decide⟩
  · apply consecutive_of_single ⟨1⟩ (by decide) (by decide)
  · unfold NoReplays
    decide

end Forwarder

end Lazybox
