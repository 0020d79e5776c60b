import Lazybox.Relay.Pairing

/-!
# Whose a box id is

A registration proves the possession of a key, for a box id.  The table of boxes is kept by box id
alone, and the last registration to enter it is the one clients are announced to.  A box id stays
with its key exactly as long as no registration enters under an id that another key holds.
-/

namespace Lazybox.Relay

/-! ### The payload of a registration -/

/-- The texts of a handshake are of fewer bytes than a length can count. -/
def Short (s : String) : Prop := (bytesOf s).length < 4294967296

/-! ### What a step does to the registrations -/

namespace Registration

variable {verify : Verify}

/-- The registration is that of a box id, as far as it still says. -/
def Of (boxId : String) : Registration verify → Prop
  | .serving own _ | .draining own _ => own.boxId = boxId
  | .ended => True
  | _ => False

def queue : Registration verify → List ℕ
  | .serving _ queue | .draining _ queue => queue
  | _ => []

/-- A registration in the loop that forwards announcements. -/
def live : Registration verify → Option (Proven verify)
  | .serving own _ => some own
  | _ => none

end Registration

theorem Client.asked_of_parked {task : Client} {own : Parked} (h : task.parked = some own) :
  task.asked = some (own.boxId, own.toBox)
  := by
  cases task <;> simp_all [Client.parked, Client.asked]

namespace Server

variable {verify : Verify} {s s' : Server verify}

open Registration

/-- The steps of the control connections, with what a client may put in the queue of one. -/
inductive Turns (s s' : Server verify) (a : Act) : Prop where
  | same (registrations : s'.registrations = s.registrations) (boxes : s'.boxes = s.boxes)
  | starts {r task} (before : ∀ boxId, ¬ (s.registrations r).Of boxId) (after : task.live = none)
      (queue : task.queue = [])
      (registrations : s'.registrations = Function.update s.registrations r task)
      (boxes : s'.boxes = s.boxes)
  | inserts {r own} (act : a = .insertBox r) (before : s.registrations r = .acknowledged own)
      (registrations : s'.registrations = Function.update s.registrations r (.serving own []))
      (boxes : s'.boxes
        = Function.update s.boxes own.boxId (some ⟨r, own.boxPublicKey⟩))
  | queues {r own queue queue'} (before : s.registrations r = .serving own queue)
      (registrations : s'.registrations
        = Function.update s.registrations r (.serving own queue'))
      (boxes : s'.boxes = s.boxes)
      (new : ∀ sessionId ∈ queue', sessionId ∈ queue
        ∨ ∃ c p, s.clients c = .announcing p ∧ p.toBox = r ∧ p.sessionId = sessionId)
  | drains {r own queue queue'}
      (before : s.registrations r = .serving own queue ∨ s.registrations r = .draining own queue)
      (registrations : s'.registrations
        = Function.update s.registrations r (.draining own queue'))
      (boxes : s'.boxes = s.boxes)
      (new : ∀ sessionId ∈ queue', sessionId ∈ queue
        ∨ ∃ c p, s.clients c = .announcing p ∧ p.toBox = r ∧ p.sessionId = sessionId)
  | tearsDown {r own queue} (before : s.registrations r = .draining own queue)
      (registrations : s'.registrations = Function.update s.registrations r .ended)
      (boxes : ∀ boxId handle, s'.boxes boxId = some handle →
        s.boxes boxId = some handle ∧ (boxId = own.boxId → handle.toBox ≠ r))

variable {r : ℕ}

theorem turns_setRegistration
    {a : Act} {task : Registration verify} (before : ∀ boxId, ¬ (s.registrations r).Of boxId)
    (after : task.live = none) (queue : task.queue = []) :
  Turns s (s.setRegistration r task) a
  := .starts before after queue rfl rfl

theorem turns_stepBox (a : Act) :
  Turns s (s.stepBox a).1 a
  := by
  have hself : ∀ a, Turns s s a := fun _ => .same rfl rfl
  cases a with
  | registerBox r boxId boxPublicKey nonce written =>
    rw [stepBox]
    cases hr : s.registrations r with
    | unknown =>
      apply turns_setRegistration
      · intro boxId'
        rw [hr]
        apply not_false
      · split
        · rfl
        · rfl
      · split
        · rfl
        · rfl
    | _ => apply hself
  | prove r signature =>
    cases hr : s.registrations r with
    | challenged boxId boxPublicKey nonce =>
      have hnot : ∀ boxId, ¬ (s.registrations r).Of boxId := by
        intro boxId'
        rw [hr]
        apply not_false
      cases signature with
      | none =>
        simp only [stepBox, hr]
        apply turns_setRegistration hnot rfl rfl
      | some signature =>
        simp only [stepBox, hr]
        split
        · apply turns_setRegistration hnot rfl rfl
        · apply turns_setRegistration hnot rfl rfl
    | _ =>
      simp only [stepBox, hr]
      apply hself
  | entitleBox r active written =>
    rw [stepBox]
    cases hr : s.registrations r with
    | proven own =>
      apply turns_setRegistration
      · intro boxId'
        rw [hr]
        apply not_false
      · split
        · rfl
        · rfl
      · split
        · rfl
        · rfl
    | _ => apply hself
  | insertBox r =>
    rw [stepBox]
    cases hr : s.registrations r with
    | acknowledged own => exact .inserts rfl hr rfl rfl
    | _ => apply hself
  | forward r written =>
    rw [stepBox]
    cases hr : s.registrations r with
    | serving own queue =>
      cases queue with
      | nil => apply hself
      | cons sessionId queue =>
        dsimp only
        split
        · exact .queues hr rfl rfl fun _ h => Or.inl (List.mem_cons_of_mem _ h)
        · exact .drains (Or.inl hr) rfl rfl fun _ h => Or.inl (List.mem_cons_of_mem _ h)
    | _ => apply hself
  | closeControl r =>
    rw [stepBox]
    cases hr : s.registrations r with
    | serving own queue => exact .drains (Or.inl hr) rfl rfl fun _ h => Or.inl h
    | _ => apply hself
  | tearDown r =>
    rw [stepBox]
    cases hr : s.registrations r with
    | draining own queue =>
      dsimp only
      split
      · next hown =>
          apply Turns.tearsDown hr rfl
          intro boxId handle hboxes
          by_cases hid : boxId = own.boxId
          · rw [hid] at hboxes
            have hnone : ((s.setRegistration r .ended).setBox own.boxId none).boxes own.boxId
                = none := Function.update_self ..
            rw [hnone] at hboxes
            cases hboxes
          · rw [boxes_setBox_of_ne _ _ hid] at hboxes
            exact ⟨hboxes, fun h => absurd h hid⟩
      · next hother =>
          apply Turns.tearsDown hr rfl
          intro boxId handle hboxes
          use hboxes
          rintro rfl hr'
          apply hother
          rw [hboxes]
          simpa using hr'
    | _ => apply hself
  | _ => apply hself

theorem turns_stepClient (a : Act) :
  Turns s (s.stepClient a).1 a
  := by
  cases a with
  | announce c =>
    rw [stepClient]
    cases hc : s.clients c with
    | announcing own =>
      dsimp only
      have hnew : ∀ queue, ∀ sessionId ∈ queue ++ [own.sessionId], sessionId ∈ queue
          ∨ ∃ c p, s.clients c = .announcing p ∧ p.toBox = own.toBox
            ∧ p.sessionId = sessionId := by
        intro queue sessionId h
        rcases List.mem_append.mp h with h | h
        · left
          apply h
        · right
          exact ⟨c, own, hc, rfl, (List.mem_singleton.mp h).symm⟩
      rw [sendAnnouncement]
      cases hr : s.registrations own.toBox with
      | serving box queue =>
        dsimp only
        split
        · next task htask =>
            split at htask
            · cases htask
              exact .queues hr rfl rfl (hnew queue)
            · cases htask
        · exact .same rfl rfl
        · exact .same rfl rfl
      | draining box queue =>
        dsimp only
        split
        · next task htask =>
            split at htask
            · cases htask
              exact .drains (Or.inr hr) rfl rfl (hnew queue)
            · cases htask
        · exact .same rfl rfl
        · exact .same rfl rfl
      | _ => exact .same rfl rfl
    | _ => exact .same rfl rfl
  | connectClient c boxId =>
    rw [stepClient]
    cases s.clients c with
    | unknown =>
      dsimp only
      cases s.boxes boxId with
      | some handle => exact .same rfl rfl
      | none => exact .same rfl rfl
    | _ => exact .same rfl rfl
  | park c sessionId =>
    rw [stepClient]
    cases s.clients c with
    | accepted boxId target =>
      dsimp only
      split
      · exact .same rfl rfl
      · exact .same rfl rfl
    | _ => exact .same rfl rfl
  | receive c =>
    rw [stepClient]
    cases s.clients c with
    | waiting own =>
      cases s.handOver c with
      | some d => exact .same rfl rfl
      | none => exact .same rfl rfl
    | _ => exact .same rfl rfl
  | entitleClient c _ _ | announceTimeout c | dataTimeout c | leave c | endSplice c =>
    rw [stepClient]
    cases s.clients c <;> exact .same rfl rfl
  | _ => exact .same rfl rfl

theorem turns_stepData (a : Act) :
  Turns s (s.stepData a).1 a
  := by
  cases a with
  | presentData d sessionId =>
    rw [stepData]
    cases s.boxData d with
    | unknown =>
      dsimp only
      cases s.pending sessionId with
      | some c => exact .same rfl rfl
      | none => exact .same rfl rfl
    | _ => exact .same rfl rfl
  | handOver d =>
    rw [stepData]
    cases s.boxData d with
    | claimed sessionId c =>
      dsimp only
      split
      · exact .same rfl rfl
      · exact .same rfl rfl
    | _ => exact .same rfl rfl
  | _ => exact .same rfl rfl

theorem turns (s : Server verify) (a : Act) :
  Turns s ((machine verify).next s a) a
  := by
  cases a with
  | presentData _ _ | handOver _ => apply turns_stepData
  | connectClient _ _ | entitleClient _ _ _ | park _ _ | announce _ | announceTimeout _
  | receive _ | dataTimeout _ | leave _ | endSplice _ => apply turns_stepClient
  | _ => apply turns_stepBox

/-! ### Who is announced to whom -/

variable {os : List Obs}

/-- What a client asked for it was given when a registration of the box id was in the table. -/
theorem Moves.asked
    (h : Moves s s' os) {c : ℕ} {box : String × ℕ} (hc : (s'.clients c).asked = some box) :
  (s.clients c).asked = some box
    ∨ ∃ handle, s.boxes box.1 = some handle ∧ handle.toBox = box.2
  := by
  have hsame : ∀ {c' : ℕ} {task : Client},
      (∀ box, task.asked = some box → (s.clients c').asked = some box) →
      (Function.update s.clients c' task c).asked = some box → (s.clients c).asked = some box := by
    intro c' task htask hupdate
    by_cases hcc : c = c'
    · rw [hcc, Function.update_self] at hupdate
      rw [hcc]
      apply htask box hupdate
    · rwa [Function.update_of_ne hcc] at hupdate
  cases h with
  | stays clients =>
    left
    rwa [← clients]
  | @turns c' task before after unspliced asked =>
    change (Function.update s.clients c' task c).asked = some box at hc
    by_cases hcc : c = c'
    · subst hcc
      apply asked
      rwa [Function.update_self] at hc
    · left
      rwa [Function.update_of_ne hcc] at hc
  | claims | refuses | hands | drops =>
    left
    apply hc
  | parks at_ | announces at_ | gives_up at_ | receives at_ | times_out at_ | leaves at_
  | ends at_ =>
    left
    apply hsame _ hc
    intro box htask
    rw [at_]
    apply htask

/-- A client keeps what it waits for. -/
theorem Moves.parked
    (h : Moves s s' os) {c : ℕ} {own : Parked} (hc : (s.clients c).parked = some own) :
  (s'.clients c).parked = some own
  := by
  have hsame : ∀ {c' : ℕ} {task : Client}, ((s.clients c').parked = some own →
      task.parked = some own) → (Function.update s.clients c' task c).parked = some own := by
    intro c' task htask
    by_cases hcc : c = c'
    · subst hcc
      rw [Function.update_self]
      apply htask hc
    · rwa [Function.update_of_ne hcc]
  cases h with
  | stays clients => rwa [clients]
  | turns before =>
    apply hsame
    intro htask
    rw [before] at htask
    cases htask
  | claims | refuses | hands | drops => apply hc
  | parks at_ | announces at_ | gives_up at_ | receives at_ | times_out at_ | leaves at_
  | ends at_ =>
    apply hsame
    intro htask
    rw [at_] at htask
    first | apply htask | cases htask

namespace Turns

variable {a : Act} (h : Turns s s' a) {r : ℕ}
include h

theorem of {boxId : String} (hr : (s.registrations r).Of boxId) :
  (s'.registrations r).Of boxId
  := by
  have hupdate : ∀ {r' : ℕ} {task : Registration verify},
      ((s.registrations r').Of boxId → task.Of boxId) →
      (Function.update s.registrations r' task r).Of boxId := by
    intro r' task htask
    by_cases hrr : r = r'
    · subst hrr
      rw [Function.update_self]
      apply htask hr
    · rwa [Function.update_of_ne hrr]
  cases h with
  | same registrations => rwa [registrations]
  | starts before after queue registrations =>
    rw [registrations]
    exact hupdate fun h => absurd h (before boxId)
  | inserts act before registrations =>
    rw [registrations]
    apply hupdate
    rw [before]
    intro h
    cases h
  | queues before registrations =>
    rw [registrations]
    apply hupdate
    rw [before]
    apply id
  | drains before registrations =>
    rw [registrations]
    apply hupdate
    rcases before with before | before
    · rw [before]
      apply id
    · rw [before]
      apply id
  | tearsDown before registrations =>
    rw [registrations]
    exact hupdate fun _ => trivial

/-- What is queued was queued, or a client puts it there. -/
theorem queue {sessionId : ℕ} (hr : sessionId ∈ (s'.registrations r).queue) :
  sessionId ∈ (s.registrations r).queue
    ∨ ∃ c p, s.clients c = .announcing p ∧ p.toBox = r ∧ p.sessionId = sessionId
  := by
  have hupdate : ∀ {r' : ℕ} {task : Registration verify},
      sessionId ∈ (Function.update s.registrations r' task r).queue →
      r = r' ∧ sessionId ∈ task.queue ∨ sessionId ∈ (s.registrations r).queue := by
    intro r' task h
    by_cases hrr : r = r'
    · subst hrr
      rw [Function.update_self] at h
      left
      exact ⟨rfl, h⟩
    · right
      rwa [Function.update_of_ne hrr] at h
  cases h with
  | same registrations =>
    left
    rwa [← registrations]
  | starts before after empty registrations =>
    rw [registrations] at hr
    rcases hupdate hr with ⟨-, h⟩ | h
    · rw [empty] at h
      cases h
    · left
      apply h
  | inserts act before registrations =>
    rw [registrations] at hr
    rcases hupdate hr with ⟨-, h⟩ | h
    · cases h
    · left
      apply h
  | queues before registrations boxes new =>
    rw [registrations] at hr
    rcases hupdate hr with ⟨rfl, h⟩ | h
    · rw [before]
      apply new sessionId h
    · left
      apply h
  | drains before registrations boxes new =>
    rw [registrations] at hr
    rcases hupdate hr with ⟨rfl, h⟩ | h
    · rcases before with before | before
      · rw [before]
        apply new sessionId h
      · rw [before]
        apply new sessionId h
    · left
      apply h
  | tearsDown before registrations =>
    rw [registrations] at hr
    rcases hupdate hr with ⟨-, h⟩ | h
    · cases h
    · left
      apply h

/-- What is live was live, or enters the table. -/
theorem live {own : Proven verify} (hr : (s'.registrations r).live = some own) :
  (s.registrations r).live = some own
    ∨ a = .insertBox r ∧ s.registrations r = .acknowledged own
      ∧ s'.boxes = Function.update s.boxes own.boxId (some ⟨r, own.boxPublicKey⟩)
  := by
  have hupdate : ∀ {r' : ℕ} {task : Registration verify},
      (Function.update s.registrations r' task r).live = some own →
      r = r' ∧ task.live = some own ∨ (s.registrations r).live = some own := by
    intro r' task h
    by_cases hrr : r = r'
    · subst hrr
      rw [Function.update_self] at h
      left
      exact ⟨rfl, h⟩
    · right
      rwa [Function.update_of_ne hrr] at h
  cases h with
  | same registrations =>
    left
    rwa [← registrations]
  | starts before after empty registrations =>
    rw [registrations] at hr
    rcases hupdate hr with ⟨-, h⟩ | h
    · rw [after] at h
      cases h
    · left
      apply h
  | inserts act before registrations boxes =>
    rw [registrations] at hr
    rcases hupdate hr with ⟨rfl, h⟩ | h
    · cases h
      right
      exact ⟨act, before, boxes⟩
    · left
      apply h
  | queues before registrations boxes new =>
    rw [registrations] at hr
    left
    rcases hupdate hr with ⟨rfl, h⟩ | h
    · rw [before]
      apply h
    · apply h
  | drains before registrations boxes new =>
    rw [registrations] at hr
    left
    rcases hupdate hr with ⟨-, h⟩ | h
    · cases h
    · apply h
  | tearsDown before registrations =>
    rw [registrations] at hr
    left
    rcases hupdate hr with ⟨-, h⟩ | h
    · cases h
    · apply h

/-- An entry of the table was there, or a registration enters it. -/
theorem entry {boxId : String} {handle : BoxHandle} (hbox : s'.boxes boxId = some handle) :
  s.boxes boxId = some handle
    ∨ ∃ r own, a = .insertBox r ∧ s.registrations r = .acknowledged own ∧ own.boxId = boxId
      ∧ handle = ⟨r, own.boxPublicKey⟩ ∧ s'.registrations r = .serving own []
  := by
  cases h with
  | same registrations boxes =>
    left
    rwa [← boxes]
  | starts _ _ _ _ boxes =>
    left
    rwa [← boxes]
  | queues _ _ boxes =>
    left
    rwa [← boxes]
  | drains _ _ boxes =>
    left
    rwa [← boxes]
  | tearsDown _ _ boxes =>
    left
    apply (boxes boxId handle hbox).1
  | @inserts r own act before registrations boxes =>
    rw [boxes] at hbox
    by_cases hid : boxId = own.boxId
    · rw [hid, Function.update_self, Option.some.injEq] at hbox
      right
      refine ⟨r, own, act, before, hid.symm, hbox.symm, ?_⟩
      rw [registrations, Function.update_self]
    · left
      rwa [Function.update_of_ne hid] at hbox

end Turns

/-- A registration of a box id with a key, as long as it is not torn down. -/
def Holds (s : Server verify) (r : ℕ) (own : Proven verify) : Prop :=
  ∃ queue, s.registrations r = .serving own queue ∨ s.registrations r = .draining own queue

variable {own : Proven verify}

theorem Holds.of (h : s.Holds r own) :
  (s.registrations r).Of own.boxId
  := by
  obtain ⟨queue, h | h⟩ := h
  · rw [h]
    rfl
  · rw [h]
    rfl

theorem Holds.eq {own' : Proven verify} (h : s.Holds r own) (h' : s.Holds r own') :
  own = own'
  := by
  obtain ⟨queue, h⟩ := h
  obtain ⟨queue', h'⟩ := h'
  grind

/-- What a registration holds it holds until it is torn down. -/
theorem Turns.holds {a : Act} (h : Turns s s' a) (hr : s.Holds r own) :
  s'.Holds r own
    ∨ ∀ boxId handle, s'.boxes boxId = some handle →
      s.boxes boxId = some handle ∧ (boxId = own.boxId → handle.toBox ≠ r)
  := by
  have hupdate : ∀ {r' : ℕ} {task : Registration verify},
      s'.registrations = Function.update s.registrations r' task →
      (∀ own, s.Holds r' own → ∃ queue, task = .serving own queue ∨ task = .draining own queue) →
      s'.Holds r own := by
    intro r' task hregistrations htask
    by_cases hrr : r = r'
    · subst hrr
      obtain ⟨queue, h⟩ := htask own hr
      use queue
      rwa [hregistrations, Function.update_self]
    · obtain ⟨queue, h⟩ := hr
      use queue
      rwa [hregistrations, Function.update_of_ne hrr]
  cases h with
  | same registrations =>
    left
    obtain ⟨queue, h⟩ := hr
    use queue
    rwa [registrations]
  | starts before _ _ registrations =>
    left
    apply hupdate registrations
    intro own' hown'
    exact absurd hown'.of (before _)
  | inserts act before registrations =>
    left
    apply hupdate registrations
    intro own' hown'
    have hof := hown'.of
    rw [before] at hof
    cases hof
  | @queues r' box queue queue' before registrations =>
    left
    apply hupdate registrations
    intro own' hown'
    use queue'
    left
    rw [hown'.eq ⟨queue, Or.inl before⟩]
  | @drains r' box queue queue' before registrations =>
    left
    apply hupdate registrations
    intro own' hown'
    use queue'
    right
    rw [hown'.eq ⟨queue, before⟩]
  | @tearsDown r' box queue before registrations boxes =>
    by_cases hrr : r = r'
    · right
      subst hrr
      rwa [hr.eq ⟨queue, Or.inr before⟩]
    · left
      obtain ⟨queue, h⟩ := hr
      use queue
      rwa [registrations, Function.update_of_ne hrr]

/-! ### The table and the clients know the registrations -/

structure Known (s : Server verify) : Prop where
  entered : ∀ boxId handle, s.boxes boxId = some handle →
    ∃ own, s.Holds handle.toBox own ∧ own.boxId = boxId ∧ own.boxPublicKey = handle.account
  asked : ∀ c box, (s.clients c).asked = some box → (s.registrations box.2).Of box.1
  queued : ∀ r sessionId, sessionId ∈ (s.registrations r).queue →
    ∃ c p, (s.clients c).parked = some p ∧ p.toBox = r ∧ p.sessionId = sessionId

theorem known_new :
  Known (new : Server verify)
  := by
  constructor <;> simp [new, Client.asked, Registration.queue]

theorem Known.next {a : Act} (hs : Known s) (hmoves : Moves s s' os) (hturns : Turns s s' a) :
  Known s'
  := by
  constructor
  · intro boxId handle hbox
    rcases hturns.entry hbox with hbefore | ⟨r, own, -, -, hid, rfl, hr⟩
    · obtain ⟨own, hown, hid, hkey⟩ := hs.entered boxId handle hbefore
      rcases hturns.holds hown with hown' | hother
      · exact ⟨own, hown', hid, hkey⟩
      · exact absurd rfl ((hother boxId handle hbox).2 hid.symm)
    · exact ⟨own, ⟨[], Or.inl hr⟩, hid, rfl⟩
  · intro c box hc
    apply hturns.of
    rcases hmoves.asked hc with hbefore | ⟨handle, hbox, htoBox⟩
    · apply hs.asked c box hbefore
    · obtain ⟨own, hown, hid, -⟩ := hs.entered _ _ hbox
      rw [← htoBox, ← hid]
      apply hown.of
  · intro r sessionId hr
    rcases hturns.queue hr with hbefore | ⟨c, p, hc, htoBox, hsession⟩
    · obtain ⟨c, p, hp, htoBox, hsession⟩ := hs.queued r sessionId hbefore
      exact ⟨c, p, hmoves.parked hp, htoBox, hsession⟩
    · exact ⟨c, p, hmoves.parked (by rw [hc]; rfl), htoBox, hsession⟩

/-! ### One key for each box id -/

/-- No registration enters under a box id for which another key has a live one. -/
def Uncontested (s : Server verify) (a : Act) : Prop :=
  ∀ r own, a = .insertBox r → s.registrations r = .acknowledged own →
    ∀ r' own', (s.registrations r').live = some own' → own'.boxId = own.boxId →
      own'.boxPublicKey = own.boxPublicKey

/-- A client is announced only on a live connection that was proven for the box id it asked for,
with the key of all the live ones; and the entry of a box id is that of the key of its live
registrations, if it has any. -/
def KeepsKey (s : Server verify) (a : Act) : Prop :=
  (∀ r sessionId, .told r sessionId ∈ (machine verify).emit s a →
      ∃ own, (s.registrations r).live = some own
        ∧ ∀ c p, (s.clients c).parked = some p → p.sessionId = sessionId →
          p.boxId = own.boxId
            ∧ ∀ r' own', (s.registrations r').live = some own' → own'.boxId = p.boxId →
              own'.boxPublicKey = own.boxPublicKey)
    ∧ ∀ r own handle, (((machine verify).next s a).registrations r).live = some own →
      ((machine verify).next s a).boxes own.boxId = some handle →
      handle.account = own.boxPublicKey

/-- The live registrations of a box id, and its entry, have one key. -/
structure OneKey (s : Server verify) : Prop where
  live : ∀ r r' own own', (s.registrations r).live = some own →
    (s.registrations r').live = some own' → own.boxId = own'.boxId →
    own.boxPublicKey = own'.boxPublicKey
  entry : ∀ r own handle, (s.registrations r).live = some own →
    s.boxes own.boxId = some handle → handle.account = own.boxPublicKey

theorem oneKey_new :
  OneKey (new : Server verify)
  := by
  constructor <;> simp [new, Registration.live]

theorem OneKey.next
    {a : Act} (hs : OneKey s) (hturns : Turns s s' a) (uncontested : Uncontested s a) :
  OneKey s'
  := by
  constructor
  · intro r r' own own' hr hr' hid
    rcases hturns.live hr with hbefore | ⟨hact, hack, -⟩
    · rcases hturns.live hr' with hbefore' | ⟨hact', hack', -⟩
      · apply hs.live r r' own own' hbefore hbefore' hid
      · apply uncontested r' own' hact' hack' r own hbefore hid
    · rcases hturns.live hr' with hbefore' | ⟨hact', hack', -⟩
      · apply Eq.symm
        apply uncontested r own hact hack r' own' hbefore' hid.symm
      · rw [hact, Act.insertBox.injEq] at hact'
        rw [hact', hack'] at hack
        cases hack
        rfl
  · intro r own handle hr hbox
    rcases hturns.live hr with hbefore | ⟨-, -, hboxes⟩
    · rcases hturns.entry hbox with hbox' | ⟨r', own', hact, hack, hid, rfl, -⟩
      · apply hs.entry r own handle hbefore hbox'
      · apply Eq.symm
        apply uncontested r' own' hact hack r own hbefore hid.symm
    · rw [hboxes, Function.update_self, Option.some.injEq] at hbox
      rw [← hbox]

/-- Only a live connection is told of a client, and only of one in its queue. -/
theorem Moves.of_told (h : Moves s s' os) {sessionId : ℕ} (htold : .told r sessionId ∈ os) :
  ∃ own, (s.registrations r).live = some own ∧ sessionId ∈ (s.registrations r).queue
  := by
  cases h with
  | stays _ _ _ _ _ told =>
    obtain ⟨r', sessionId', own, queue, ho, hr⟩ := told _ htold
    cases ho
    use own
    rw [hr]
    exact ⟨rfl, List.mem_cons_self⟩
  | announces | receives | claims | refuses =>
    have h := List.mem_singleton.mp htold
    cases h
  | _ => cases htold

/-- A step keeps the key of the box ids exactly if it is uncontested. -/
theorem keepsKey_iff_uncontested
    (known : Known s) (paired : Paired s) (oneKey : OneKey s) (a : Act) :
  KeepsKey s a ↔ Uncontested s a
  := by
  have hturns := turns s a
  constructor
  · rintro ⟨-, table⟩ r own rfl hack r' own' hr' hid
    have hrr : r' ≠ r := by
      rintro rfl
      rw [hack] at hr'
      cases hr'
    have hnext : (machine verify).next s (.insertBox r)
        = (s.setBox own.boxId (some ⟨r, own.boxPublicKey⟩)).setRegistration r
            (.serving own []) := by
      change (s.stepBox (.insertBox r)).1 = _
      rw [stepBox, hack]
    apply Eq.symm
    apply table r' own' ⟨r, own.boxPublicKey⟩
    · rw [hnext, registrations_setRegistration_of_ne _ _ hrr]
      apply hr'
    · rw [hnext, hid]
      apply Function.update_self
  · intro uncontested
    constructor
    · intro r sessionId htold
      obtain ⟨own, hlive, hqueue⟩ := (moves s a).of_told htold
      use own, hlive
      intro c p hp hsession
      obtain ⟨c', p', hp', htoBox, hsession'⟩ := known.queued r sessionId hqueue
      have hcc : c = c' := paired.distinct c c' p p' hp hp' (hsession.trans hsession'.symm)
      rw [hcc, hp', Option.some.injEq] at hp
      subst hp
      have hof := known.asked c' _ (Client.asked_of_parked hp')
      dsimp only at hof
      rw [htoBox] at hof
      have hid : own.boxId = p'.boxId := by
        cases hr : s.registrations r with
        | serving box queue =>
          rw [hr] at hlive hof
          cases hlive
          apply hof
        | _ =>
          rw [hr] at hlive
          cases hlive
      use hid.symm
      intro r' own' hr' hid'
      apply oneKey.live r' r own' own hr' hlive (hid'.trans hid.symm)
    · apply (oneKey.next hturns uncontested).entry

/-- Along a run the box ids stay with their keys exactly if no registration enters under an id
that is held with another key. -/
theorem keepsKey_iff (verify : Verify) (as : List Act) :
  (machine verify).Along KeepsKey new as ↔ (machine verify).Along Uncontested new as
  := by
  apply (machine verify).along_iff_along (I := fun s => Known s ∧ Paired s ∧ OneKey s)
  · exact ⟨known_new, paired_new, oneKey_new⟩
  · rintro s a uncontested ⟨known, paired, oneKey⟩
    exact ⟨known.next (moves s a) (turns s a), paired.moves (moves s a),
      oneKey.next (turns s a) uncontested⟩
  · rintro s a ⟨known, paired, oneKey⟩
    apply keepsKey_iff_uncontested known paired oneKey

/-! ### A box id that is taken over -/

/-- Signatures which are the key followed by the message. -/
def plainVerify : Verify := fun key payload signature => signature = bytesOf key ++ payload

def zeroUuid : Uuid := ⟨List.replicate 16 0, rfl⟩

/-- A box proves its key for the box id "box" and enters the table. -/
def registers (r : ℕ) (key : String) : List Act :=
  [.registerBox r "box" key zeroUuid true,
    .prove r (some (bytesOf key ++ registrationPayload zeroUuid "box" key)),
    .entitleBox r true true, .insertBox r]

/-- A second box does so under the same id with its own key, while the first is connected; then a
client asks for the id and announces itself. -/
def takeover : List Act :=
  registers 1 "K1" ++ registers 2 "K2"
    ++ [.connectClient 3 "box", .entitleClient 3 true true, .park 3 0, .announce 3]

/-- The client is announced to the second box, while the first is still there. -/
theorem takeover_announced :
  let s := (machine plainVerify).final new takeover
  .told 2 0 ∈ (machine plainVerify).emit s (.forward 2 true)
    ∧ (s.registrations 1).live.map (fun own => (own.boxId, own.boxPublicKey)) = some ("box", "K1")
    ∧ ¬ (machine plainVerify).Along KeepsKey new (takeover ++ [.forward 2 true])
  := by
  intro s
  have hfirst : (((machine plainVerify).next s (.forward 2 true)).registrations 1).live.map
      (fun own => (own.boxId, own.boxPublicKey)) = some ("box", "K1") := by
    decide +kernel
  have hentry : ((machine plainVerify).next s (.forward 2 true)).boxes "box"
      = some ⟨2, "K2"⟩ := by
    decide +kernel
  refine ⟨by decide +kernel, by decide +kernel, ?_⟩
  intro along
  rw [Machine.along_append] at along
  obtain ⟨-, ⟨-, table⟩, -⟩ := along
  obtain ⟨own, hlive, hown⟩ := Option.map_eq_some_iff.mp hfirst
  rw [Prod.mk.injEq] at hown
  have hkey := table 1 own ⟨2, "K2"⟩ hlive (by rw [hown.1]; exact hentry)
  rw [hown.2] at hkey
  revert hkey
  decide

end Server

end Lazybox.Relay
