import Lazybox.Relay.Server

/-!
# The pairing of clients with data connections

The sender of a client is in one place at a time: in the table, with the data connection that
presented its session, in the hand-over, or used up by the splice.  So a client is spliced once,
with a connection that presented its own session, and once it has returned the table has nothing
of it.
-/

namespace Lazybox.Relay

namespace Client

/-- What a client that has a session waits for. -/
def parked : Client → Option Parked
  | .announcing own | .waiting own | .leaving own _ | .spliced own _ | .returned own _ => some own
  | _ => none

/-- What a client that has not returned and is not spliced waits for. -/
def awaits : Client → Option Parked
  | .announcing own | .waiting own | .leaving own _ => some own
  | _ => none

/-- What a client that announced itself, and did not give up, asked for. -/
def announced : Client → Option Parked
  | .waiting own | .spliced own _ | .returned own (some _) => some own
  | _ => none

/-- The data connection a client was spliced with. -/
def splicedWith : Client → Option ℕ
  | .spliced _ d => some d
  | .returned _ d => d
  | _ => none

/-- The box id a client asked for and the control channel it was given. -/
def asked : Client → Option (String × ℕ)
  | .found boxId target | .accepted boxId target => some (boxId, target.toBox)
  | .announcing own | .waiting own | .leaving own _ | .spliced own _ | .returned own _ =>
      some (own.boxId, own.toBox)
  | _ => none

variable {task : Client}

theorem parked_of_awaits {own : Parked} (h : task.awaits = some own) :
  task.parked = some own
  := by
  cases task with
  | announcing _ | waiting _ | leaving _ _ => apply h
  | _ => cases h

theorem splicedWith_of_awaits {own : Parked} (h : task.awaits = some own) :
  task.splicedWith = none
  := by
  cases task with
  | announcing _ | waiting _ | leaving _ _ => rfl
  | _ => cases h

theorem splicedWith_of_parked (h : task.parked = none) :
  task.splicedWith = none
  := by
  cases task with
  | announcing _ | waiting _ | leaving _ _ | spliced _ _ | returned _ _ => cases h
  | _ => rfl

theorem announced_of_parked (h : task.parked = none) :
  task.announced = none
  := by
  cases task with
  | announcing _ | waiting _ | leaving _ _ | spliced _ _ | returned _ _ => cases h
  | _ => rfl

theorem awaits_of_parked (h : task.parked = none) :
  task.awaits = none
  := by
  cases task with
  | announcing _ | waiting _ | leaving _ _ | spliced _ _ | returned _ _ => cases h
  | _ => rfl

theorem announced_of_splicedWith
    {own : Parked} {d : ℕ} (h : task.splicedWith = some d) (hown : task.parked = some own) :
  task.announced = some own
  := by
  cases task with
  | spliced own' d' => apply hown
  | returned own' d' =>
    cases d' with
    | none => cases h
    | some d' => apply hown
  | _ => cases h

end Client

/-- The data connections a client was spliced with, as they are observed. -/
def splices (c : ℕ) (os : List Obs) : List ℕ :=
  os.filterMap fun
    | .spliced c' d => if c' = c then some d else none
    | _ => none

theorem splices_append (c : ℕ) (os os' : List Obs) :
  splices c (os ++ os') = splices c os ++ splices c os'
  := List.filterMap_append ..

theorem splices_nil (c : ℕ) :
  splices c [] = []
  := rfl

theorem splices_announced (c c' r sessionId : ℕ) :
  splices c [.announced c' r sessionId] = []
  := rfl

theorem splices_presented (c d sessionId : ℕ) :
  splices c [.presented d sessionId] = []
  := rfl

theorem splices_spliced (c c' d : ℕ) :
  splices c [.spliced c' d] = if c' = c then [d] else []
  := by
  by_cases h : c' = c
  · simp [splices, h]
  · simp [splices, h]

theorem mem_splices {c d : ℕ} {os : List Obs} :
  d ∈ splices c os ↔ .spliced c d ∈ os
  := by
  rw [splices, List.mem_filterMap]
  constructor
  · rintro ⟨o, ho, hd⟩
    cases o with
    | spliced c' d' =>
      simp only [Option.ite_none_right_eq_some, Option.some.injEq] at hd
      obtain ⟨rfl, rfl⟩ := hd
      apply ho
    | _ => cases hd
  · intro h
    use .spliced c d, h
    simp

namespace Server

variable {verify : Verify} {s : Server verify}

/-! ### What a step does to the clients -/

/-- The steps of the clients and of the data connections; those of the boxes leave both as they
are. -/
inductive Moves (s : Server verify) : Server verify → List Obs → Prop where
  | stays {s' os} (clients : s'.clients = s.clients) (pending : s'.pending = s.pending)
      (boxData : s'.boxData = s.boxData) (handOver : s'.handOver = s.handOver)
      (sessions : s'.sessions = s.sessions)
      (told : ∀ o ∈ os, ∃ r sessionId own queue, o = .told r sessionId
        ∧ s.registrations r = .serving own (sessionId :: queue)) :
      Moves s s' os
  /-- A client without a session. -/
  | turns {c task} (before : (s.clients c).parked = none) (after : task.parked = none)
      (unspliced : task.splicedWith = none)
      (asked : ∀ box, task.asked = some box → (s.clients c).asked = some box
        ∨ ∃ handle, s.boxes box.1 = some handle ∧ handle.toBox = box.2) :
      Moves s (s.setClient c task) []
  | parks {c boxId target sessionId} (at_ : s.clients c = .accepted boxId target)
      (fresh : sessionId ∉ s.sessions) :
      Moves s { (s.setPending sessionId (some c)).setClient c
        (.announcing ⟨boxId, target.toBox, sessionId⟩) with sessions := sessionId :: s.sessions } []
  | announces {c own task} (at_ : s.clients c = .announcing own) :
      Moves s ((s.setRegistration own.toBox task).setClient c (.waiting own))
        [.announced c own.toBox own.sessionId]
  | gives_up {c own} (at_ : s.clients c = .announcing own) :
      Moves s (s.setClient c (.leaving own true)) []
  | receives {c own d} (at_ : s.clients c = .waiting own) (received : s.handOver c = some d) :
      Moves s ((s.setHandOver c none).setClient c (.spliced own d)) [.spliced c d]
  | times_out {c own} (at_ : s.clients c = .waiting own) :
      Moves s ((s.setHandOver c none).setClient c (.leaving own false)) []
  | leaves {c own listens} (at_ : s.clients c = .leaving own listens) :
      Moves s (((s.setPending own.sessionId none).setHandOver c none).setClient c
        (.returned own none)) []
  | ends {c own d} (at_ : s.clients c = .spliced own d) :
      Moves s (s.setClient c (.returned own (some d))) []
  | claims {d sessionId c} (at_ : s.boxData d = .unknown)
      (found : s.pending sessionId = some c) :
      Moves s ((s.setPending sessionId none).setBoxData d (.claimed sessionId c))
        [.presented d sessionId]
  | refuses {d sessionId} (at_ : s.boxData d = .unknown) (missing : s.pending sessionId = none) :
      Moves s (s.setBoxData d (.refused sessionId)) [.presented d sessionId]
  | hands {d sessionId c own} (at_ : s.boxData d = .claimed sessionId c)
      (listens : (s.clients c).awaits = some own) :
      Moves s ((s.setBoxData d (.handed sessionId c)).setHandOver c (some d)) []
  | drops {d sessionId c} (at_ : s.boxData d = .claimed sessionId c) :
      Moves s (s.setBoxData d (.handed sessionId c)) []

theorem moves_self : Moves s s []
  := .stays rfl rfl rfl rfl rfl (by simp)

theorem moves_setRegistration (r : ℕ) (task : Registration verify) :
  Moves s (s.setRegistration r task) []
  := .stays rfl rfl rfl rfl rfl (by simp)

theorem moves_stepBox (a : Act) :
  Moves s (s.stepBox a).1 (s.stepBox a).2
  := by
  cases a with
  | registerBox r boxId boxPublicKey nonce written =>
    rw [stepBox]
    cases s.registrations r with
    | unknown => apply moves_setRegistration
    | _ => apply moves_self
  | prove r signature =>
    cases hr : s.registrations r with
    | challenged boxId boxPublicKey nonce =>
      cases signature with
      | none =>
        simp only [stepBox, hr]
        apply moves_setRegistration
      | some signature =>
        simp only [stepBox, hr]
        split
        · apply moves_setRegistration
        · apply moves_setRegistration
    | _ =>
      simp only [stepBox, hr]
      apply moves_self
  | entitleBox r active written =>
    rw [stepBox]
    cases s.registrations r with
    | proven own => apply moves_setRegistration
    | _ => apply moves_self
  | insertBox r =>
    rw [stepBox]
    cases s.registrations r with
    | acknowledged own => exact .stays rfl rfl rfl rfl rfl (by simp)
    | _ => apply moves_self
  | forward r written =>
    rw [stepBox]
    cases hr : s.registrations r with
    | serving own queue =>
      cases queue with
      | nil => apply moves_self
      | cons sessionId queue =>
        dsimp only
        split
        · refine .stays rfl rfl rfl rfl rfl ?_
          intro o ho
          exact ⟨r, sessionId, own, queue, List.mem_singleton.mp ho, hr⟩
        · apply moves_setRegistration
    | _ => apply moves_self
  | closeControl r =>
    rw [stepBox]
    cases s.registrations r with
    | serving own queue => apply moves_setRegistration
    | _ => apply moves_self
  | tearDown r =>
    rw [stepBox]
    cases s.registrations r with
    | draining own queue =>
      dsimp only
      split
      · exact .stays rfl rfl rfl rfl rfl (by simp)
      · apply moves_setRegistration
    | _ => apply moves_self
  | _ => apply moves_self

theorem moves_stepClient (a : Act) :
  Moves s (s.stepClient a).1 (s.stepClient a).2
  := by
  cases a with
  | connectClient c boxId =>
    rw [stepClient]
    cases hc : s.clients c with
    | unknown =>
      dsimp only
      cases hbox : s.boxes boxId with
      | some handle =>
        apply Moves.turns (by rw [hc]; rfl) rfl rfl
        rintro box hasked
        cases hasked
        right
        exact ⟨handle, hbox, rfl⟩
      | none =>
        apply Moves.turns (by rw [hc]; rfl) rfl rfl
        rintro box hasked
        cases hasked
    | _ => apply moves_self
  | entitleClient c active written =>
    rw [stepClient]
    cases hc : s.clients c with
    | found boxId target =>
      dsimp only
      split
      · apply Moves.turns (by rw [hc]; rfl) rfl rfl
        rintro box hasked
        left
        rw [hc]
        apply hasked
      · apply Moves.turns (by rw [hc]; rfl) rfl rfl
        rintro box hasked
        cases hasked
    | _ => apply moves_self
  | park c sessionId =>
    rw [stepClient]
    cases hc : s.clients c with
    | accepted boxId target =>
      dsimp only
      split
      · apply moves_self
      · next hfresh => exact .parks hc hfresh
    | _ => apply moves_self
  | announce c =>
    rw [stepClient]
    cases hc : s.clients c with
    | announcing own =>
      dsimp only
      cases s.sendAnnouncement own.toBox own.sessionId with
      | taken task => exact .announces hc
      | closed => exact .gives_up hc
      | full => apply moves_self
    | _ => apply moves_self
  | announceTimeout c =>
    rw [stepClient]
    cases hc : s.clients c with
    | announcing own => exact .gives_up hc
    | _ => apply moves_self
  | receive c =>
    rw [stepClient]
    cases hc : s.clients c with
    | waiting own =>
      cases hd : s.handOver c with
      | some d => exact .receives hc hd
      | none => apply moves_self
    | _ => apply moves_self
  | dataTimeout c =>
    rw [stepClient]
    cases hc : s.clients c with
    | waiting own => exact .times_out hc
    | _ => apply moves_self
  | leave c =>
    rw [stepClient]
    cases hc : s.clients c with
    | leaving own listens => exact .leaves hc
    | _ => apply moves_self
  | endSplice c =>
    rw [stepClient]
    cases hc : s.clients c with
    | spliced own d => exact .ends hc
    | _ => apply moves_self
  | _ => apply moves_self

theorem moves_stepData (a : Act) :
  Moves s (s.stepData a).1 (s.stepData a).2
  := by
  cases a with
  | presentData d sessionId =>
    rw [stepData]
    cases hd : s.boxData d with
    | unknown =>
      dsimp only
      cases hfound : s.pending sessionId with
      | some c => exact .claims hd hfound
      | none => exact .refuses hd hfound
    | _ => apply moves_self
  | handOver d =>
    rw [stepData]
    cases hd : s.boxData d with
    | claimed sessionId c =>
      dsimp only
      rw [show (s.setBoxData d (.handed sessionId c)).listens c = s.listens c from rfl, listens]
      cases hc : s.clients c with
      | announcing own => exact .hands hd (by rw [hc]; rfl)
      | waiting own => exact .hands hd (by rw [hc]; rfl)
      | leaving own listens =>
        cases listens with
        | true => exact .hands hd (by rw [hc]; rfl)
        | false => exact .drops hd
      | _ => exact .drops hd
    | _ => apply moves_self
  | _ => apply moves_self

theorem moves (s : Server verify) (a : Act) :
  Moves s ((machine verify).next s a) ((machine verify).emit s a)
  := by
  cases a with
  | presentData _ _ | handOver _ => apply moves_stepData
  | connectClient _ _ | entitleClient _ _ _ | park _ _ | announce _ | announceTimeout _
  | receive _ | dataTimeout _ | leave _ | endSplice _ => apply moves_stepClient
  | _ => apply moves_stepBox

/-! ### The places of a sender -/

/-- The sender of every client is in one place. -/
structure Paired (s : Server verify) : Prop where
  drawn : ∀ c own, (s.clients c).parked = some own → own.sessionId ∈ s.sessions
  distinct : ∀ c c' own own', (s.clients c).parked = some own →
    (s.clients c').parked = some own' → own.sessionId = own'.sessionId → c = c'
  inTable : ∀ sessionId c, s.pending sessionId = some c →
    ∃ own, (s.clients c).awaits = some own ∧ own.sessionId = sessionId ∧ s.handOver c = none
      ∧ ∀ d sessionId', s.boxData d ≠ .claimed sessionId' c
  claimed : ∀ d sessionId c, s.boxData d = .claimed sessionId c →
    s.pending sessionId = none ∧ s.handOver c = none ∧ (s.clients c).splicedWith = none
      ∧ ∃ own, (s.clients c).parked = some own ∧ own.sessionId = sessionId
  claimedOnce : ∀ d d' sessionId sessionId' c, s.boxData d = .claimed sessionId c →
    s.boxData d' = .claimed sessionId' c → d = d'
  handedOver : ∀ c d, s.handOver c = some d →
    ∃ own, (s.clients c).awaits = some own ∧ s.boxData d = .handed own.sessionId c
      ∧ s.pending own.sessionId = none
  spliced : ∀ c d, (s.clients c).splicedWith = some d →
    ∃ own, (s.clients c).parked = some own ∧ s.boxData d = .handed own.sessionId c
      ∧ s.pending own.sessionId = none

theorem paired_new :
  Paired (new : Server verify)
  := by
  constructor <;> simp [new, Client.parked, Client.splicedWith]

attribute [local grind =] Function.update_apply
attribute [local grind] Client.parked Client.awaits Client.splicedWith Client.announced
attribute [local grind →] Client.parked_of_awaits Client.splicedWith_of_awaits
  Client.splicedWith_of_parked Client.announced_of_parked

variable {s' : Server verify}

/-- Where the senders are depends on what the clients wait for and were spliced with. -/
theorem Paired.of_eq (hs : Paired s) (parked : ∀ c, (s'.clients c).parked = (s.clients c).parked)
    (awaits : ∀ c, (s'.clients c).awaits = (s.clients c).awaits)
    (splicedWith : ∀ c, (s'.clients c).splicedWith = (s.clients c).splicedWith)
    (pending : s'.pending = s.pending) (boxData : s'.boxData = s.boxData)
    (handOver : s'.handOver = s.handOver) (sessions : s'.sessions = s.sessions) :
  Paired s'
  := by
  constructor <;> simp only [parked, awaits, splicedWith, pending, boxData, handOver, sessions]
  · apply hs.drawn
  · apply hs.distinct
  · apply hs.inTable
  · apply hs.claimed
  · apply hs.claimedOnce
  · apply hs.handedOver
  · apply hs.spliced

variable {c : ℕ}

theorem setClient_same
    {β : Type} {f : Client → β} {task : Client} (h : f task = f (s.clients c)) (c' : ℕ) :
  f ((s.setClient c task).clients c') = f (s.clients c')
  := by
  change f (Function.update s.clients c task c') = _
  rw [Function.update_apply]
  split
  · next hc => rw [h, hc]
  · rfl

/-- A client may go on as long as it waits for the same and was spliced with the same. -/
theorem Paired.goes_on (hs : Paired s) {task : Client} (parked : task.parked = (s.clients c).parked)
    (awaits : task.awaits = (s.clients c).awaits)
    (splicedWith : task.splicedWith = (s.clients c).splicedWith) :
  Paired (s.setClient c task)
  := by
  apply hs.of_eq
  · apply setClient_same parked
  · apply setClient_same awaits
  · apply setClient_same splicedWith
  all_goals rfl

variable {own : Parked} {sessionId : ℕ}

/-- A client that parks has its sender nowhere else. -/
theorem Paired.parks (hs : Paired s) (unparked : (s.clients c).parked = none)
    (fresh : sessionId ∉ s.sessions) (hown : own.sessionId = sessionId) :
  Paired { (s.setPending sessionId (some c)).setClient c (.announcing own) with
    sessions := sessionId :: s.sessions }
  := by
  obtain ⟨drawn, distinct, inTable, claimed, claimedOnce, handedOver, spliced⟩ := hs
  have unclaimed : ∀ d sessionId', s.boxData d ≠ .claimed sessionId' c := by
    intro d sessionId' hd
    obtain ⟨-, -, -, own, hown, -⟩ := claimed d sessionId' c hd
    rw [unparked] at hown
    cases hown
  have empty : s.handOver c = none := by
    cases hd : s.handOver c with
    | none => rfl
    | some d =>
      obtain ⟨own, hown, -⟩ := handedOver c d hd
      rw [Client.awaits_of_parked unparked] at hown
      cases hown
  constructor
  case inTable =>
    intro session c' hc'
    simp only [setClient, setPending] at hc' ⊢
    by_cases hsession : session = sessionId
    · rw [hsession, Function.update_self, Option.some.injEq] at hc'
      subst hc'
      rw [Function.update_self]
      exact ⟨own, rfl, hown.trans hsession.symm, empty, unclaimed⟩
    · grind
  all_goals simp only [setClient, setPending]
  all_goals grind

variable {d : ℕ}

theorem Paired.receives
    (hs : Paired s) (at_ : s.clients c = .waiting own) (received : s.handOver c = some d) :
  Paired ((s.setHandOver c none).setClient c (.spliced own d))
  := by
  obtain ⟨drawn, distinct, inTable, claimed, claimedOnce, handedOver, spliced⟩ := hs
  constructor <;> simp only [setClient, setHandOver] <;> grind

theorem Paired.times_out (hs : Paired s) (at_ : s.clients c = .waiting own) :
  Paired ((s.setHandOver c none).setClient c (.leaving own false))
  := by
  obtain ⟨drawn, distinct, inTable, claimed, claimedOnce, handedOver, spliced⟩ := hs
  constructor <;> simp only [setClient, setHandOver] <;> grind

theorem Paired.leaves (hs : Paired s) {listens : Bool} (at_ : s.clients c = .leaving own listens) :
  Paired (((s.setPending own.sessionId none).setHandOver c none).setClient c
    (.returned own none))
  := by
  obtain ⟨drawn, distinct, inTable, claimed, claimedOnce, handedOver, spliced⟩ := hs
  constructor <;> simp only [setClient, setHandOver, setPending] <;> grind

/-- A sender that is taken out of the table is with the connection that took it. -/
theorem Paired.claims
    (hs : Paired s) (at_ : s.boxData d = .unknown) (found : s.pending sessionId = some c) :
  Paired ((s.setPending sessionId none).setBoxData d (.claimed sessionId c))
  := by
  obtain ⟨drawn, distinct, inTable, claimed, claimedOnce, handedOver, spliced⟩ := hs
  constructor <;> simp only [setPending, setBoxData] <;> grind

theorem Paired.refuses (hs : Paired s) (at_ : s.boxData d = .unknown) :
  Paired (s.setBoxData d (.refused sessionId))
  := by
  obtain ⟨drawn, distinct, inTable, claimed, claimedOnce, handedOver, spliced⟩ := hs
  constructor <;> simp only [setBoxData] <;> grind

theorem Paired.hands (hs : Paired s) (at_ : s.boxData d = .claimed sessionId c)
    (listens : (s.clients c).awaits = some own) :
  Paired ((s.setBoxData d (.handed sessionId c)).setHandOver c (some d))
  := by
  obtain ⟨drawn, distinct, inTable, claimed, claimedOnce, handedOver, spliced⟩ := hs
  constructor <;> simp only [setBoxData, setHandOver] <;> grind

theorem Paired.drops (hs : Paired s) (at_ : s.boxData d = .claimed sessionId c) :
  Paired (s.setBoxData d (.handed sessionId c))
  := by
  obtain ⟨drawn, distinct, inTable, claimed, claimedOnce, handedOver, spliced⟩ := hs
  constructor <;> simp only [setBoxData] <;> grind

theorem Paired.moves {os : List Obs} (hs : Paired s) (h : Moves s s' os) :
  Paired s'
  := by
  cases h with
  | stays clients pending boxData handOver sessions =>
    apply hs.of_eq _ _ _ pending boxData handOver sessions
    all_goals
      intro c
      rw [clients]
  | turns before after unspliced =>
    apply hs.goes_on
    · rw [before, after]
    · rw [Client.awaits_of_parked before, Client.awaits_of_parked after]
    · rw [Client.splicedWith_of_parked before, unspliced]
  | parks at_ fresh => exact hs.parks (by rw [at_]; rfl) fresh rfl
  | @announces c own task at_ =>
    have h : Paired (s.setClient c (.waiting own)) :=
      hs.goes_on (by rw [at_]; rfl) (by rw [at_]; rfl) (by rw [at_]; rfl)
    exact h.of_eq (fun _ => rfl) (fun _ => rfl) (fun _ => rfl) rfl rfl rfl rfl
  | gives_up at_ => exact hs.goes_on (by rw [at_]; rfl) (by rw [at_]; rfl) (by rw [at_]; rfl)
  | receives at_ received => exact hs.receives at_ received
  | times_out at_ => exact hs.times_out at_
  | leaves at_ => exact hs.leaves at_
  | ends at_ => exact hs.goes_on (by rw [at_]; rfl) (by rw [at_]; rfl) (by rw [at_]; rfl)
  | claims at_ found => exact hs.claims at_ found
  | refuses at_ missing => exact hs.refuses at_
  | hands at_ listens => exact hs.hands at_ listens
  | drops at_ => exact hs.drops at_

/-! ### What is observed -/

/-- What was observed of the clients and of the data connections. -/
structure Observed (s : Server verify) (os : List Obs) : Prop where
  splices : ∀ c, splices c os = (s.clients c).splicedWith.toList
  presented : ∀ d sessionId c,
    s.boxData d = .claimed sessionId c ∨ s.boxData d = .handed sessionId c →
    .presented d sessionId ∈ os
  announced : ∀ c own, (s.clients c).announced = some own →
    .announced c own.toBox own.sessionId ∈ os
  own : ∀ c r sessionId, .announced c r sessionId ∈ os →
    ∃ own, (s.clients c).parked = some own ∧ own.sessionId = sessionId ∧ own.toBox = r

theorem observed_new :
  Observed (new : Server verify) []
  := by
  constructor <;> simp [new, Client.splicedWith, Client.announced, Relay.splices]

attribute [local grind =] splices_append splices_nil splices_announced splices_presented
  splices_spliced

theorem Observed.stays
    {os new : List Obs} (hs : Observed s os)
    (clients : s'.clients = s.clients) (boxData : s'.boxData = s.boxData)
    (told : ∀ o ∈ new, ∃ r sessionId own queue, o = .told r sessionId
      ∧ s.registrations r = .serving own (sessionId :: queue)) :
  Observed s' (os ++ new)
  := by
  have hnone : ∀ c, Relay.splices c new = [] := by
    intro c
    apply List.filterMap_eq_nil_iff.mpr
    intro o ho
    obtain ⟨r, sessionId, -, -, rfl, -⟩ := told o ho
    rfl
  constructor
  · intro c
    rw [splices_append, hnone, clients, List.append_nil, hs.splices]
  · intro d sessionId c hd
    rw [boxData] at hd
    apply List.mem_append_left _ (hs.presented d sessionId c hd)
  · intro c own hown
    rw [clients] at hown
    apply List.mem_append_left _ (hs.announced c own hown)
  · intro c r sessionId hc
    rw [clients]
    apply hs.own
    rcases List.mem_append.mp hc with hc | hc
    · apply hc
    · obtain ⟨r', sessionId', -, -, h, -⟩ := told _ hc
      cases h

theorem Observed.moves {os new : List Obs} (hs : Observed s os) (h : Moves s s' new) :
  Observed s' (os ++ new)
  := by
  obtain ⟨splices, presented, announced, own⟩ := id hs
  cases h with
  | stays clients pending boxData handOver sessions told => exact hs.stays clients boxData told
  | turns => constructor <;> simp only [setClient] <;> grind
  | parks => constructor <;> simp only [setClient, setPending] <;> grind
  | announces => constructor <;> simp only [setClient, setRegistration] <;> grind
  | gives_up => constructor <;> simp only [setClient] <;> grind
  | receives => constructor <;> simp only [setClient, setHandOver] <;> grind
  | times_out => constructor <;> simp only [setClient, setHandOver] <;> grind
  | leaves => constructor <;> simp only [setClient, setHandOver, setPending] <;> grind
  | ends => constructor <;> simp only [setClient] <;> grind
  | claims => constructor <;> simp only [setPending, setBoxData] <;> grind
  | refuses => constructor <;> simp only [setBoxData] <;> grind
  | hands => constructor <;> simp only [setBoxData, setHandOver] <;> grind
  | drops => constructor <;> simp only [setBoxData] <;> grind

/-- The tear-down of a control connection leaves the entries of the others. -/
theorem boxes_tearDown {r : ℕ} {boxId : String} {handle : BoxHandle}
    (h : s.boxes boxId = some handle) (hne : handle.toBox ≠ r) :
  ((machine verify).next s (.tearDown r)).boxes boxId = some handle
  := by
  change (s.stepBox (.tearDown r)).1.boxes boxId = some handle
  rw [stepBox]
  cases s.registrations r with
  | draining own queue =>
    dsimp only
    split
    · next hown =>
        rw [boxes_setBox_of_ne]
        · apply h
        · intro heq
          apply hne
          have hboxes : (s.setRegistration r .ended).boxes own.boxId = some handle := by
            rw [← heq]
            apply h
          rw [hboxes] at hown
          simpa using hown
    · apply h
  | _ => apply h

/-- A client is spliced at most once, with a data connection that presented the session announced
for it and for nobody else, and with none that another client is spliced with; nothing of a
client that has returned is in the table; and a control connection that is torn down takes
only its own entry away. -/
theorem clients_paired (verify : Verify) (as : List Act) :
  let s := (machine verify).final new as
  let os := (machine verify).trace new as
  (∀ c, (splices c os).length ≤ 1)
    ∧ (∀ c d, .spliced c d ∈ os → ∃ r sessionId, .announced c r sessionId ∈ os
      ∧ .presented d sessionId ∈ os ∧ ∀ c' r', .announced c' r' sessionId ∈ os → c' = c)
    ∧ (∀ c c' d, .spliced c d ∈ os → .spliced c' d ∈ os → c = c')
    ∧ (∀ c own d, s.clients c = .returned own d → s.pending own.sessionId = none)
    ∧ (∀ r boxId handle, s.boxes boxId = some handle → handle.toBox ≠ r →
      ((machine verify).next s (.tearDown r)).boxes boxId = some handle)
  := by
  intro s os
  have hinvariant : Paired s ∧ Observed s os := by
    apply (machine verify).invariant (P := fun _ _ => True)
      (I := fun s os => Paired s ∧ Observed s os)
    · exact ⟨paired_new, observed_new⟩
    · rintro s os a - ⟨paired, observed⟩
      exact ⟨paired.moves (moves s a), observed.moves (moves s a)⟩
    · apply Machine.along_of_forall
      intro _ _
      trivial
  obtain ⟨paired, observed⟩ := hinvariant
  have hsplice : ∀ c d, .spliced c d ∈ os → (s.clients c).splicedWith = some d := by
    intro c d h
    rw [← mem_splices, observed.splices] at h
    simpa using h
  refine ⟨?_, ?_, ?_, ?_, ?_⟩
  · intro c
    rw [observed.splices]
    cases (s.clients c).splicedWith with
    | none => apply Nat.zero_le
    | some d => apply Nat.le_refl
  · intro c d h
    obtain ⟨own, hown, hdata, -⟩ := paired.spliced c d (hsplice c d h)
    use own.toBox, own.sessionId
    refine ⟨?_, observed.presented d _ c (Or.inr hdata), ?_⟩
    · apply observed.announced
      apply Client.announced_of_splicedWith (hsplice c d h) hown
    · intro c' r' hc'
      obtain ⟨own', hown', hsession, -⟩ := observed.own c' r' _ hc'
      apply paired.distinct c' c own' own hown' hown hsession
  · intro c c' d h h'
    obtain ⟨own, -, hdata, -⟩ := paired.spliced c d (hsplice c d h)
    obtain ⟨own', -, hdata', -⟩ := paired.spliced c' d (hsplice c' d h')
    rw [hdata, BoxData.handed.injEq] at hdata'
    apply hdata'.2
  · intro c own d hc
    cases hpending : s.pending own.sessionId with
    | none => rfl
    | some c' =>
        obtain ⟨own', hown', hsession, -⟩ := paired.inTable _ _ hpending
        have hcc := paired.distinct c' c own' own (Client.parked_of_awaits hown')
          (by rw [hc]; rfl) hsession
        rw [hcc, hc] at hown'
        cases hown'
  · intro r boxId handle
    apply boxes_tearDown

end Server

end Lazybox.Relay
