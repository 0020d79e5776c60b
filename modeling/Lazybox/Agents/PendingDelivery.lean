import Lazybox.Library.OneShot
import Lazybox.Library.Run

/-!
# A delivery in flight

A delivery reports through two one-shot channels: that the text landed, and a receipt.  A handle on
the delivery is read by waiting for the first of the two, or for the receipt, within a limit, and at
the end by waiting for the receipt for as long as it takes.  Reads are made one at a time, and what
the senders do falls anywhere between two polls.

What is reported once is reported by every later read.  A read of the landing and one of the receipt
agree, except that a text which landed may be refused after all, as when it is pasted but not
submitted.
-/

namespace Lazybox.PromptDelivery

open OneShot

inductive DeliveryReceipt where
  | delivered (confirmed : Bool)
  | refused (reason : String)
deriving DecidableEq, Repr

/-- The first thing that happens to a delivery. -/
inductive EarlyOutcome where
  | landed
  | refused (reason : String)
deriving DecidableEq, Repr

/-- What a settled receipt says about the landing. -/
def EarlyOutcome.of : DeliveryReceipt → EarlyOutcome
  | .delivered _ => .landed
  | .refused reason => .refused reason

/-- The delivery ended without reporting. -/
def DeliveryReceipt.unreported : DeliveryReceipt :=
  .refused "the delivery ended without reporting an outcome"

def DeliveryReceipt.orUnreported (reported : Option DeliveryReceipt) : DeliveryReceipt :=
  reported.getD .unreported

/-- The handle: each receiver until it has reported, and what was reported. -/
structure PendingDelivery where
  receipt : Option Receiver
  landed : Option Receiver
  outcome : Option DeliveryReceipt
  early : Option EarlyOutcome
deriving DecidableEq, Repr

def PendingDelivery.new (receipt landed : Receiver) : PendingDelivery :=
  ⟨some receipt, some landed, none, none⟩

/-- How far a read has come. -/
inductive Reading where
  /-- `landed_within` is at the head of its loop. -/
  | early
  /-- The select has found that nothing landed yet, and polls the receipt next. -/
  | earlyReceipt
  /-- Neither has reported. -/
  | earlyWaiting
  /-- `receipt_within` has not polled yet. -/
  | receipt
  | receiptWaiting
  /-- `receipt`, which has the handle to itself. -/
  | last
deriving DecidableEq, Repr

/-- The two channels, the handle until it is consumed, and the read in flight. -/
structure Delivery where
  landed : Channel Unit
  receipt : Channel DeliveryReceipt
  handle : Option PendingDelivery
  reading : Option Reading
deriving DecidableEq, Repr

/-- What is seen of a delivery. -/
inductive Seen where
  /-- The text landed. -/
  | landed
  /-- A receipt was sent. -/
  | sent (receipt : DeliveryReceipt)
  /-- The sender of the receipt was dropped before it sent one. -/
  | dropped
  /-- A read began. -/
  | asked
  /-- A read ended within its limit or not: it was told the early outcome, the receipt, or that the
  text is still queued. -/
  | early (outcome : EarlyOutcome)
  | receipt (receipt : DeliveryReceipt)
  | queued
  | panicked
deriving DecidableEq, Repr

inductive Act where
  /-- The landing is signalled, by the one who took the signal, or never will be. -/
  | land
  | dropLanded
  /-- The slot reports. -/
  | resolve (receipt : DeliveryReceipt)
  | refuse (reason : String)
  | dropReceipt
  /-- A read begins. -/
  | landedWithin
  | receiptWithin
  | receipt
  /-- The read in flight goes on to its next poll. -/
  | poll
  /-- The limit of the read in flight is over. -/
  | elapse
deriving DecidableEq, Repr

namespace Delivery

def new : Delivery := ⟨.waiting, .waiting, some (.new .new .new), none⟩

/-! ### The senders -/

def land (d : Delivery) : Delivery × List Seen :=
  ({ d with landed := d.landed.send () }, if d.landed = .waiting then [.landed] else [])

def resolve (d : Delivery) (receipt : DeliveryReceipt) : Delivery × List Seen :=
  ({ d with receipt := d.receipt.send receipt },
    if d.receipt = .waiting then [.sent receipt] else [])

def dropReceipt (d : Delivery) : Delivery × List Seen :=
  ({ d with receipt := d.receipt.drop }, if d.receipt = .waiting then [.dropped] else [])

/-! ### The reads -/

/-- A read begins, if the handle is there and no other read is in flight. -/
def start (d : Delivery) (reading : Reading) : Delivery × List Seen :=
  if d.handle.isSome ∧ d.reading = none then ({ d with reading := some reading }, [.asked])
  else (d, [])

/-- The read is over. -/
def told (d : Delivery) (p : Option PendingDelivery) (seen : Seen) : Delivery × List Seen :=
  ({ d with handle := p, reading := none }, [seen])

/-- The read goes on. -/
def goesOn (d : Delivery) (p : PendingDelivery) (reading : Reading) : Delivery × List Seen :=
  ({ d with handle := some p, reading := some reading }, [])

/-- The receipt is polled for the early outcome.  With no receipt left and no outcome kept there is
nothing to wait for. -/
def earlyReceipt (d : Delivery) (p : PendingDelivery) : Delivery × List Seen :=
  match p.receipt with
  | none => d.told (some p) (.early (.of .unreported))
  | some receipt =>
      let (polled, receipt) := receipt.poll d.receipt
      let p := { p with receipt := some receipt }
      match polled with
      | .panicked => d.told (some p) .panicked
      | .pending => d.goesOn p .earlyWaiting
      | .ready reported =>
          d.goesOn { p with receipt := none, outcome := some (.orUnreported reported) } .early

/-- The loop of `early_outcome`, from its head to the next poll.  The landing is polled first. -/
def early (d : Delivery) (p : PendingDelivery) : Delivery × List Seen :=
  match p.early with
  | some early => d.told (some p) (.early early)
  | none =>
      match p.outcome with
      | some outcome => d.told (some { p with early := some (.of outcome) }) (.early (.of outcome))
      | none =>
          match p.landed, p.receipt with
          | some landed, some _ =>
              let (polled, landed) := landed.poll d.landed
              let p := { p with landed := some landed }
              match polled with
              | .panicked => d.told (some p) .panicked
              | .pending => d.goesOn p .earlyReceipt
              | .ready (some _) =>
                  d.told (some { p with landed := none, early := some .landed }) (.early .landed)
              -- It never landed, which is no outcome: the receipt says why.
              | .ready none => d.goesOn { p with landed := none } .early
          | _, _ => d.earlyReceipt p

def receiptWithin (d : Delivery) (p : PendingDelivery) : Delivery × List Seen :=
  match p.outcome with
  | some outcome => d.told (some p) (.receipt outcome)
  | none =>
      match p.receipt with
      | none => d.told (some p) (.receipt .unreported)
      | some receipt =>
          let (polled, receipt) := receipt.poll d.receipt
          let p := { p with receipt := some receipt }
          match polled with
          | .panicked => d.told (some p) .panicked
          | .pending => d.goesOn p .receiptWaiting
          | .ready reported =>
              let outcome := DeliveryReceipt.orUnreported reported
              d.told (some { p with receipt := none, outcome := some outcome }) (.receipt outcome)

/-- The handle is consumed with the answer. -/
def last (d : Delivery) (p : PendingDelivery) : Delivery × List Seen :=
  match p.outcome with
  | some outcome => d.told none (.receipt outcome)
  | none =>
      match p.receipt with
      | none => d.told none (.receipt .unreported)
      | some receipt =>
          let (polled, receipt) := receipt.poll d.receipt
          match polled with
          | .panicked => d.told none .panicked
          | .pending => d.goesOn { p with receipt := some receipt } .last
          | .ready reported => d.told none (.receipt (.orUnreported reported))

/-- A read that waits polls again what it waits for. -/
def poll (d : Delivery) : Delivery × List Seen :=
  match d.handle, d.reading with
  | some p, some .early | some p, some .earlyWaiting => d.early p
  | some p, some .earlyReceipt => d.earlyReceipt p
  | some p, some .receipt | some p, some .receiptWaiting => d.receiptWithin p
  | some p, some .last => d.last p
  | _, _ => (d, [])

/-- A read that waits is told that the text is still queued. -/
def elapse (d : Delivery) : Delivery × List Seen :=
  match d.reading with
  | some .earlyWaiting | some .receiptWaiting => ({ d with reading := none }, [.queued])
  | _ => (d, [])

def step (d : Delivery) : Act → Delivery × List Seen
  | .land => d.land
  | .dropLanded => ({ d with landed := d.landed.drop }, [])
  | .resolve receipt => d.resolve receipt
  | .refuse reason => d.resolve (.refused reason)
  | .dropReceipt => d.dropReceipt
  | .landedWithin => d.start .early
  | .receiptWithin => d.start .receipt
  | .receipt => d.start .last
  | .poll => d.poll
  | .elapse => d.elapse

end Delivery

/-- A delivery as its senders and its reader take their steps. -/
def delivery : Machine Delivery Act Seen := ⟨Delivery.step⟩

/-! ### What reads agree on -/

/-- The receipt is settled: it was sent, or will never be. -/
def Settled (os : List Seen) (receipt : DeliveryReceipt) : Prop :=
  .sent receipt ∈ os ∨ .dropped ∈ os ∧ receipt = .unreported

/-- An early outcome and a receipt agree, or the text had landed. -/
def AgreeOrLanded (os : List Seen) (outcome : EarlyOutcome) (receipt : DeliveryReceipt) : Prop :=
  outcome = .of receipt ∨ outcome = .landed ∧ .landed ∈ os

/-- What a read is told agrees with all that was seen before it. -/
def Agrees (before : List Seen) : Seen → Prop
  | .receipt receipt =>
      (∀ r, Settled before r ↔ r = receipt)
        ∧ (∀ r, .receipt r ∈ before → r = receipt)
        ∧ ∀ outcome, .early outcome ∈ before → AgreeOrLanded before outcome receipt
  | .early outcome =>
      (∀ e, .early e ∈ before → e = outcome)
        ∧ ((∀ e, .early e ∉ before) → ∀ r, .receipt r ∈ before → outcome = .of r)
        ∧ (outcome = .landed ∧ .landed ∈ before ∨ ∃ r, Settled before r ∧ outcome = .of r)
  -- The read began before the receipt was settled.
  | .queued =>
      ∃ old since, before = old ++ .asked :: since ∧ .asked ∉ since ∧ ∀ r, ¬ Settled old r
  | .panicked => False
  | .landed | .sent _ | .dropped | .asked => True

/-! ### The invariant -/

/-- The receipt as it is settled. -/
def Delivery.outcome (d : Delivery) : Option DeliveryReceipt :=
  d.receipt.answer.map DeliveryReceipt.orUnreported

/-- The handle has the receivers that did not complete, and keeps what was reported. -/
structure Holds (settled : Option DeliveryReceipt) (os : List Seen) (p : PendingDelivery) :
    Prop where
  receipt : ∀ receiver, p.receipt = some receiver → receiver.completed = false
  landed : ∀ receiver, p.landed = some receiver → receiver.completed = false
  kept : p.receipt = none → p.outcome ≠ none
  outcome : ∀ r, p.outcome = some r → settled = some r
  reported : ∀ r, .receipt r ∈ os → p.outcome = some r
  early : ∀ e, p.early = some e ↔ .early e ∈ os

structure Sound (d : Delivery) (os : List Seen) : Prop where
  settled : ∀ r, Settled os r ↔ d.outcome = some r
  landed : .landed ∈ os ↔ d.landed = .sent ()
  receipts : ∀ r, .receipt r ∈ os → d.outcome = some r
  earlies : ∀ e, .early e ∈ os →
    e = .landed ∧ .landed ∈ os ∨ ∃ r, d.outcome = some r ∧ e = .of r
  handle : ∀ p, d.handle = some p → Holds d.outcome os p
  attached : d.reading ≠ none → d.handle.isSome
  selecting : ∀ p, d.handle = some p → d.reading = some .earlyReceipt →
    p.early = none ∧ p.outcome = none
  asked : d.reading ≠ none → ∃ old since, os = old ++ .asked :: since ∧ .asked ∉ since
    ∧ (d.reading = some .earlyWaiting ∨ d.reading = some .receiptWaiting → ∀ r, ¬ Settled old r)
  agrees : AtEach Agrees os

section Steps

variable {d : Delivery} {os : List Seen} {p : PendingDelivery}

theorem Settled.mono {os' : List Seen} {r : DeliveryReceipt} (h : Settled os r) (sub : os ⊆ os') :
  Settled os' r
  := by
  obtain h | ⟨h, rfl⟩ := h
  · left
    apply sub h
  · right
    exact ⟨sub h, rfl⟩

/-- What a read brings about, and not a sender. -/
def Seen.ByReader : Seen → Prop
  | landed | sent _ | dropped => False
  | asked | early _ | receipt _ | queued | panicked => True

variable {seen : Seen}

/-- Nothing that a reader does settles the receipt. -/
theorem settled_concat (byReader : seen.ByReader) (r : DeliveryReceipt) :
  Settled (os ++ [seen]) r ↔ Settled os r
  := by
  cases seen with
  | landed | sent _ | dropped => cases byReader
  | asked | early _ | receipt _ | queued | panicked => simp [Settled]

theorem Sound.sends (h : Sound d os) {landed : Channel Unit} {receipt : Channel DeliveryReceipt}
    {news : List Seen} (senders : ∀ o ∈ news, ¬ o.ByReader)
    (settled : ∀ r, Settled (os ++ news) r
      ↔ { d with landed := landed, receipt := receipt }.outcome = some r)
    (hlanded : .landed ∈ os ++ news ↔ landed = .sent ())
    (mono : ∀ r, d.outcome = some r →
      { d with landed := landed, receipt := receipt }.outcome = some r) :
  Sound { d with landed := landed, receipt := receipt } (os ++ news)
  := by
  have hreceipt (r : DeliveryReceipt) : .receipt r ∈ os ++ news ↔ .receipt r ∈ os := by
    rw [List.mem_append, or_iff_left]
    intro hr
    apply senders _ hr trivial
  have hearly (e : EarlyOutcome) : .early e ∈ os ++ news ↔ .early e ∈ os := by
    rw [List.mem_append, or_iff_left]
    intro he
    apply senders _ he trivial
  constructor
  · apply settled
  · apply hlanded
  · intro r hr
    apply mono
    apply h.receipts r ((hreceipt r).mp hr)
  · intro e he
    obtain ⟨rfl, hland⟩ | ⟨r, hr, rfl⟩ := h.earlies e ((hearly e).mp he)
    · left
      exact ⟨rfl, List.mem_append_left _ hland⟩
    · right
      exact ⟨r, mono r hr, rfl⟩
  · intro p hp
    obtain ⟨hrx, hlx, hkept, houtcome, hreported, hkeep⟩ := h.handle p hp
    constructor
    · apply hrx
    · apply hlx
    · apply hkept
    · intro r hr
      apply mono r (houtcome r hr)
    · intro r hr
      apply hreported r ((hreceipt r).mp hr)
    · intro e
      rw [hearly, hkeep]
  · apply h.attached
  · apply h.selecting
  · intro hreading
    obtain ⟨old, since, rfl, hnone, hwaits⟩ := h.asked hreading
    use old, since ++ news
    constructor
    · simp
    · constructor
      · rw [List.mem_append, not_or]
        constructor
        · apply hnone
        · intro hasked
          apply senders _ hasked trivial
      · apply hwaits
  · apply atEach_append h.agrees
    intro o ho before
    cases o with
    | landed | sent _ | dropped => trivial
    | asked | early _ | receipt _ | queued | panicked => exact absurd trivial (senders _ ho)

theorem Sound.land (h : Sound d os) :
  Sound d.land.1 (os ++ d.land.2)
  := by
  rw [Delivery.land]
  split_ifs with hwaiting
  · apply h.sends
    · simp [Seen.ByReader]
    · intro r
      have hsettled : Settled (os ++ [.landed]) r ↔ Settled os r := by simp [Settled]
      rw [hsettled]
      apply h.settled
    · simp [hwaiting, Channel.send]
    · intro r hr
      apply hr
  · rw [Channel.send_of_ne_waiting hwaiting, List.append_nil]
    apply h

theorem Sound.dropLanded (h : Sound d os) :
  Sound { d with landed := d.landed.drop } os
  := by
  by_cases hwaiting : d.landed = .waiting
  · have hsends := @Sound.sends d os h d.landed.drop d.receipt []
    rw [List.append_nil] at hsends
    apply hsends
    · simp
    · apply h.settled
    · simp [h.landed, hwaiting, Channel.drop]
    · intro r hr
      apply hr
  · rw [Channel.drop_of_ne_waiting hwaiting]
    apply h

/-- The sender of the receipt reports for the first time, by a receipt or by none. -/
theorem Sound.reports (h : Sound d os) (hwaiting : d.receipt = .waiting)
    {receipt : Channel DeliveryReceipt}
    (hseen : (∃ r, seen = .sent r) ∨ seen = .dropped)
    (hreport : ∀ r, seen = .sent r ∨ seen = .dropped ∧ r = .unreported
      ↔ receipt.answer.map DeliveryReceipt.orUnreported = some r) :
  Sound { d with receipt := receipt } (os ++ [seen])
  := by
  have hnone (r : DeliveryReceipt) : ¬ Settled os r := by
    rw [h.settled, Delivery.outcome, hwaiting]
    simp [Channel.answer]
  apply h.sends
  · rw [List.forall_mem_singleton]
    obtain ⟨_, rfl⟩ | rfl := hseen <;> exact id
  · intro r
    have hold := hnone r
    rw [Settled, not_or, not_and] at hold
    rw [Delivery.outcome, ← hreport, Settled, List.mem_append, List.mem_append,
      List.mem_singleton, List.mem_singleton]
    have hdropped : .dropped ∈ os → False := fun h => hnone .unreported (.inr ⟨h, rfl⟩)
    tauto
  · rw [← h.landed, List.mem_append, or_iff_left]
    rw [List.mem_singleton]
    rintro rfl
    obtain ⟨r, hr⟩ | hr := hseen <;> cases hr
  · intro r hr
    rw [← h.settled] at hr
    exact absurd hr (hnone r)

theorem Sound.resolve (h : Sound d os) (receipt : DeliveryReceipt) :
  Sound (d.resolve receipt).1 (os ++ (d.resolve receipt).2)
  := by
  rw [Delivery.resolve]
  split_ifs with hwaiting
  · apply h.reports hwaiting
    · left
      use receipt
    · simp [hwaiting, Channel.send, Channel.answer, DeliveryReceipt.orUnreported]
  · rw [Channel.send_of_ne_waiting hwaiting, List.append_nil]
    apply h

theorem Sound.dropReceipt (h : Sound d os) :
  Sound d.dropReceipt.1 (os ++ d.dropReceipt.2)
  := by
  rw [Delivery.dropReceipt]
  split_ifs with hwaiting
  · apply h.reports hwaiting
    · right
      rfl
    · simp [hwaiting, Channel.drop, Channel.answer, DeliveryReceipt.orUnreported, eq_comm]
  · rw [Channel.drop_of_ne_waiting hwaiting, List.append_nil]
    apply h

/-! ### What the reads keep -/

variable {handle : Option PendingDelivery}

/-- What is seen of the reader agrees with what was seen before, and no read waits after it. -/
theorem Sound.sees (h : Sound d os) {reading : Option Reading}
    (byReader : seen.ByReader) (agrees : Agrees os seen)
    (holds : ∀ p, handle = some p → Holds d.outcome (os ++ [seen]) p)
    (begun : reading = none ∨ seen = .asked ∧ handle.isSome
      ∧ (reading = some .early ∨ reading = some .receipt ∨ reading = some .last)) :
  Sound { d with handle := handle, reading := reading } (os ++ [seen])
  := by
  have hland : .landed ∈ os ++ [seen] ↔ .landed ∈ os := by
    rw [List.mem_append, List.mem_singleton, or_iff_left]
    rintro rfl
    cases byReader
  constructor
  · intro r
    rw [settled_concat byReader]
    apply h.settled
  · rw [hland]
    apply h.landed
  · intro r hr
    obtain hr | hr := List.mem_append.mp hr
    · apply h.receipts r hr
    · rw [List.mem_singleton] at hr
      rw [← hr] at agrees
      apply (h.settled r).mp ((agrees.1 r).mpr rfl)
  · intro e he
    rw [hland]
    obtain he | he := List.mem_append.mp he
    · apply h.earlies e he
    · rw [List.mem_singleton] at he
      rw [← he] at agrees
      obtain hlanded | ⟨r, hr, hof⟩ := agrees.2.2
      · left
        apply hlanded
      · right
        exact ⟨r, (h.settled r).mp hr, hof⟩
  · apply holds
  · intro hreading
    obtain rfl | ⟨-, hsome, -⟩ := begun
    · exact absurd rfl hreading
    · apply hsome
  · rintro p - hselecting
    obtain rfl | ⟨-, -, rfl | rfl | rfl⟩ := begun <;> cases hselecting
  · intro hreading
    obtain rfl | ⟨rfl, -, hreading⟩ := begun
    · exact absurd rfl hreading
    · use os, []
      constructor
      · rfl
      · constructor
        · apply List.not_mem_nil
        · obtain rfl | rfl | rfl := hreading <;> simp
  · rw [atEach_concat]
    exact ⟨h.agrees, agrees⟩

theorem Sound.told (h : Sound d os) (byReader : seen.ByReader) (agrees : Agrees os seen)
    (holds : ∀ p, handle = some p → Holds d.outcome (os ++ [seen]) p) :
  Sound (d.told handle seen).1 (os ++ (d.told handle seen).2)
  := by
  apply h.sees byReader agrees holds
  left
  rfl

theorem Holds.sees (h : Holds d.outcome os p) (notReceipt : ∀ r, seen ≠ .receipt r)
    (notEarly : ∀ e, seen ≠ .early e) :
  Holds d.outcome (os ++ [seen]) p
  := by
  obtain ⟨hrx, hlx, hkept, houtcome, hreported, hkeep⟩ := h
  constructor
  · apply hrx
  · apply hlx
  · apply hkept
  · apply houtcome
  · intro r hr
    apply hreported
    simpa [(notReceipt r).symm] using hr
  · intro e
    rw [hkeep]
    simp [(notEarly e).symm]

variable {reading : Reading}

theorem Sound.start (h : Sound d os)
    (begins : reading = .early ∨ reading = .receipt ∨ reading = .last) :
  Sound (d.start reading).1 (os ++ (d.start reading).2)
  := by
  rw [Delivery.start]
  split_ifs with hidle
  · apply h.sees
    · trivial
    · trivial
    · intro p hp
      apply (h.handle p hp).sees <;> simp
    · right
      exact ⟨rfl, hidle.1, by simpa using begins⟩
  · rw [List.append_nil]
    apply h

theorem Sound.elapse (h : Sound d os) :
  Sound d.elapse.1 (os ++ d.elapse.2)
  := by
  have hqueued (hreading : d.reading = some .earlyWaiting ∨ d.reading = some .receiptWaiting) :
      Sound { d with reading := none } (os ++ [.queued]) := by
    have hinFlight : d.reading ≠ none := by
      obtain hreading | hreading := hreading <;> simp [hreading]
    obtain ⟨old, since, hos, hnone, hwaits⟩ := h.asked hinFlight
    apply h.sees
    · trivial
    · exact ⟨old, since, hos, hnone, hwaits hreading⟩
    · intro p hp
      apply (h.handle p hp).sees <;> simp
    · left
      rfl
  rw [Delivery.elapse]
  split
  · next hreading => apply hqueued (.inl hreading)
  · next hreading => apply hqueued (.inr hreading)
  · rw [List.append_nil]
    apply h

theorem Sound.goesOn (h : Sound d os) (inFlight : d.reading ≠ none) (holds : Holds d.outcome os p)
    (selecting : reading = .earlyReceipt → p.early = none ∧ p.outcome = none)
    (waits : reading = .earlyWaiting ∨ reading = .receiptWaiting → d.outcome = none) :
  Sound (d.goesOn p reading).1 (os ++ (d.goesOn p reading).2)
  := by
  rw [Delivery.goesOn, List.append_nil]
  constructor
  · apply h.settled
  · apply h.landed
  · apply h.receipts
  · apply h.earlies
  · rintro _ ⟨⟩
    apply holds
  · intro _
    rfl
  · rintro _ ⟨⟩ ⟨⟩
    apply selecting rfl
  · intro _
    obtain ⟨old, since, rfl, hnone, -⟩ := h.asked inFlight
    use old, since, rfl, hnone
    intro hwaits r hr
    have hsettled := (h.settled r).mp (hr.mono (List.subset_append_left _ _))
    rw [waits] at hsettled
    · cases hsettled
    · simpa using hwaits
  · apply h.agrees

theorem outcome_of_answer {reported : Option DeliveryReceipt}
    (h : d.receipt.answer = some reported) :
  d.outcome = some (.orUnreported reported)
  := by
  rw [Delivery.outcome, h]
  rfl

theorem outcome_of_waiting (h : d.receipt.answer = none) :
  d.outcome = none
  := by
  rw [Delivery.outcome, h]
  rfl

variable {receipt : DeliveryReceipt}

/-- The receipt is what it is settled to be. -/
theorem Sound.agrees_receipt (h : Sound d os) (settled : d.outcome = some receipt) :
  Agrees os (.receipt receipt)
  := by
  constructor
  · intro r
    rw [h.settled, settled, Option.some_inj, eq_comm]
  · constructor
    · intro r hr
      have hsettled := h.receipts r hr
      rw [settled] at hsettled
      cases hsettled
      rfl
    · intro outcome houtcome
      obtain hlanded | ⟨r, hr, rfl⟩ := h.earlies outcome houtcome
      · right
        apply hlanded
      · left
        rw [settled] at hr
        cases hr
        rfl

variable {settled : Option DeliveryReceipt}

/-- The receiver is there until an outcome is kept. -/
theorem Holds.exists_receiver (h : Holds settled os p) (open' : p.outcome = none) :
  ∃ receiver, p.receipt = some receiver ∧ receiver.completed = false
  := by
  cases hreceipt : p.receipt with
  | none => exact absurd open' (h.kept hreceipt)
  | some receiver => exact ⟨receiver, rfl, h.receipt receiver hreceipt⟩

/-- The handle once the receipt was read. -/
theorem Holds.reads (h : Holds settled os p) (hsettled : settled = some receipt) :
  Holds settled os { p with receipt := none, outcome := some receipt }
  := by
  constructor
  · rintro _ ⟨⟩
  · apply h.landed
  · rintro - ⟨⟩
  · rintro _ ⟨⟩
    apply hsettled
  · intro r hr
    have houtcome := h.outcome r (h.reported r hr)
    rw [hsettled] at houtcome
    apply houtcome
  · apply h.early

/-- The handle once the landing has answered. -/
theorem Holds.drops_landed (h : Holds settled os p) :
  Holds settled os { p with landed := none }
  := by
  obtain ⟨hrx, -, hkept, houtcome, hreported, hkeep⟩ := h
  constructor
  · apply hrx
  · rintro _ ⟨⟩
  · apply hkept
  · apply houtcome
  · apply hreported
  · apply hkeep

/-- The handle once it has told the receipt it keeps. -/
theorem Holds.tells_receipt (h : Holds settled os p) (kept : p.outcome = some receipt) :
  Holds settled (os ++ [.receipt receipt]) p
  := by
  constructor
  · apply h.receipt
  · apply h.landed
  · apply h.kept
  · apply h.outcome
  · intro r hr
    obtain hr | hr := List.mem_append.mp hr
    · apply h.reported r hr
    · cases List.mem_singleton.mp hr
      apply kept
  · intro e
    rw [h.early]
    simp

/-- The handle once it has told the early outcome it keeps from then on. -/
theorem Holds.tells_early (h : Holds settled os p) {outcome : EarlyOutcome}
    (same : ∀ e, .early e ∈ os → e = outcome) :
  Holds settled (os ++ [.early outcome]) { p with early := some outcome }
  := by
  constructor
  · apply h.receipt
  · apply h.landed
  · apply h.kept
  · apply h.outcome
  · simpa using h.reported
  · intro e
    simp only [Option.some_inj, List.mem_append, List.mem_singleton, Seen.early.injEq]
    constructor
    · rintro rfl
      right
      rfl
    · rintro (he | rfl)
      · apply (same e he).symm
      · rfl

theorem Sound.earlyReceipt (h : Sound d os) (inFlight : d.reading ≠ none)
    (holds : Holds d.outcome os p) (open' : p.early = none ∧ p.outcome = none) :
  Sound (d.earlyReceipt p).1 (os ++ (d.earlyReceipt p).2)
  := by
  obtain ⟨receiver, hreceipt, fresh⟩ := holds.exists_receiver open'.2
  rw [Delivery.earlyReceipt, hreceipt]
  dsimp only
  cases hanswer : d.receipt.answer with
  | none =>
    rw [Receiver.poll_of_waiting fresh hanswer, ← hreceipt]
    apply h.goesOn inFlight holds
    · rintro ⟨⟩
    · intro _
      apply outcome_of_waiting hanswer
  | some reported =>
    rw [Receiver.poll_of_answer fresh hanswer]
    apply h.goesOn inFlight
    · apply holds.reads (outcome_of_answer hanswer)
    · rintro ⟨⟩
    · rintro (hreading | hreading) <;> cases hreading

theorem Sound.receiptWithin (h : Sound d os) (inFlight : d.reading ≠ none)
    (holds : Holds d.outcome os p) :
  Sound (d.receiptWithin p).1 (os ++ (d.receiptWithin p).2)
  := by
  obtain ⟨receipt, landed, outcome, early⟩ := p
  rw [Delivery.receiptWithin]
  cases outcome with
  | some outcome =>
    apply h.told
    · trivial
    · apply h.agrees_receipt (holds.outcome outcome rfl)
    · rintro _ ⟨⟩
      apply holds.tells_receipt rfl
  | none =>
    obtain ⟨receiver, hreceipt, fresh⟩ := holds.exists_receiver rfl
    cases hreceipt
    dsimp only
    cases hanswer : d.receipt.answer with
    | none =>
      rw [Receiver.poll_of_waiting fresh hanswer]
      apply h.goesOn inFlight holds
      · rintro ⟨⟩
      · intro _
        apply outcome_of_waiting hanswer
    | some reported =>
      have hsettled := outcome_of_answer hanswer
      rw [Receiver.poll_of_answer fresh hanswer]
      apply h.told
      · trivial
      · apply h.agrees_receipt hsettled
      · rintro _ ⟨⟩
        apply (holds.reads hsettled).tells_receipt rfl

theorem Sound.last (h : Sound d os) (inFlight : d.reading ≠ none) (holds : Holds d.outcome os p) :
  Sound (d.last p).1 (os ++ (d.last p).2)
  := by
  obtain ⟨receipt, landed, outcome, early⟩ := p
  rw [Delivery.last]
  cases outcome with
  | some outcome =>
    apply h.told
    · trivial
    · apply h.agrees_receipt (holds.outcome outcome rfl)
    · rintro _ ⟨⟩
  | none =>
    obtain ⟨receiver, hreceipt, fresh⟩ := holds.exists_receiver rfl
    cases hreceipt
    dsimp only
    cases hanswer : d.receipt.answer with
    | none =>
      rw [Receiver.poll_of_waiting fresh hanswer]
      apply h.goesOn inFlight holds
      · rintro ⟨⟩
      · rintro (hreading | hreading) <;> cases hreading
    | some reported =>
      rw [Receiver.poll_of_answer fresh hanswer]
      apply h.told
      · trivial
      · apply h.agrees_receipt (outcome_of_answer hanswer)
      · rintro _ ⟨⟩

/-- A read that ends is told an early outcome, which is the one kept if there is one. -/
theorem Sound.agrees_early (h : Sound d os) {outcome : EarlyOutcome} (holds : Holds d.outcome os p)
    (same : ∀ e, p.early = some e → e = outcome)
    (kept : p.early = none → ∀ r, p.outcome = some r → outcome = .of r)
    (settled : outcome = .landed ∧ .landed ∈ os ∨ ∃ r, d.outcome = some r ∧ outcome = .of r) :
  Agrees os (.early outcome)
  := by
  constructor
  · intro e he
    apply same e ((holds.early e).mpr he)
  · constructor
    · intro hnone r hr
      apply kept _ r (holds.reported r hr)
      rw [Option.eq_none_iff_forall_ne_some]
      intro e he
      apply hnone e ((holds.early e).mp he)
    · simpa [h.settled] using settled

theorem Sound.early (h : Sound d os) (inFlight : d.reading ≠ none) (holds : Holds d.outcome os p) :
  Sound (d.early p).1 (os ++ (d.early p).2)
  := by
  have hsame {outcome : EarlyOutcome} (same : ∀ e, p.early = some e → e = outcome)
      (e : EarlyOutcome) (he : .early e ∈ os) : e = outcome :=
    same e ((holds.early e).mpr he)
  obtain ⟨receipt, landed, outcome, early⟩ := p
  rw [Delivery.early]
  cases early with
  | some early =>
    have hsame := @hsame early (by simp)
    apply h.told
    · trivial
    · apply h.agrees_early holds
      · simp
      · rintro ⟨⟩
      · apply h.earlies early ((holds.early early).mp rfl)
    · rintro _ ⟨⟩
      apply holds.tells_early hsame
  | none =>
    cases outcome with
    | some receipt =>
      apply h.told
      · trivial
      · apply h.agrees_early holds
        · simp
        · rintro - _ ⟨⟩
          rfl
        · right
          use receipt
          exact ⟨holds.outcome receipt rfl, rfl⟩
      · rintro _ ⟨⟩
        apply holds.tells_early (hsame (by simp))
    | none =>
      cases landed with
      | none => apply h.earlyReceipt inFlight holds ⟨rfl, rfl⟩
      | some landed =>
        cases receipt with
        | none => exact absurd rfl (holds.kept rfl)
        | some receipt =>
          have fresh := holds.landed landed rfl
          cases hanswer : d.landed.answer with
          | none =>
            dsimp only
            rw [Receiver.poll_of_waiting fresh hanswer]
            apply h.goesOn inFlight holds
            · intro _
              exact ⟨rfl, rfl⟩
            · rintro (hreading | hreading) <;> cases hreading
          | some signal =>
            dsimp only
            rw [Receiver.poll_of_answer fresh hanswer]
            cases signal with
            | none =>
              apply h.goesOn inFlight holds.drops_landed
              · rintro ⟨⟩
              · rintro (hreading | hreading) <;> cases hreading
            | some _ =>
              apply h.told
              · trivial
              · apply h.agrees_early holds
                · simp
                · rintro - _ ⟨⟩
                · left
                  rw [h.landed, ← Channel.answer_eq_some_some]
                  exact ⟨rfl, hanswer⟩
              · rintro _ ⟨⟩
                apply holds.drops_landed.tells_early (hsame (by simp))

theorem Sound.poll (h : Sound d os) :
  Sound d.poll.1 (os ++ d.poll.2)
  := by
  rw [Delivery.poll]
  split
  · next p hhandle hreading =>
      apply h.early _ (h.handle p hhandle)
      simp [hreading]
  · next p hhandle hreading =>
      apply h.early _ (h.handle p hhandle)
      simp [hreading]
  · next p hhandle hreading =>
      apply h.earlyReceipt _ (h.handle p hhandle) (h.selecting p hhandle hreading)
      simp [hreading]
  · next p hhandle hreading =>
      apply h.receiptWithin _ (h.handle p hhandle)
      simp [hreading]
  · next p hhandle hreading =>
      apply h.receiptWithin _ (h.handle p hhandle)
      simp [hreading]
  · next p hhandle hreading =>
      apply h.last _ (h.handle p hhandle)
      simp [hreading]
  · rw [List.append_nil]
    apply h

/-- Every step keeps the invariant. -/
theorem Sound.step (h : Sound d os) (a : Act) :
  Sound (d.step a).1 (os ++ (d.step a).2)
  := by
  cases a with
  | land => apply h.land
  | dropLanded =>
    rw [Delivery.step, List.append_nil]
    apply h.dropLanded
  | resolve receipt => apply h.resolve
  | refuse reason => apply h.resolve
  | dropReceipt => apply h.dropReceipt
  | landedWithin =>
    apply h.start
    left
    rfl
  | receiptWithin =>
    apply h.start
    right
    left
    rfl
  | receipt =>
    apply h.start
    right
    right
    rfl
  | poll => apply h.poll
  | elapse => apply h.elapse

/-- In every run the state and what was seen are sound. -/
theorem sound (as : List Act) :
  Sound (delivery.final .new as) (delivery.trace .new as)
  := by
  have start : Sound .new [] := by
    constructor
    · simp [Settled, Delivery.outcome, Delivery.new, Channel.answer]
    · simp [Delivery.new]
    · simp
    · simp
    · rintro _ ⟨⟩
      constructor <;> simp [PendingDelivery.new, Receiver.new]
    · intro hreading
      exact absurd rfl hreading
    · rintro _ ⟨⟩ ⟨⟩
    · intro hreading
      exact absurd rfl hreading
    · apply atEach_nil
  apply delivery.invariant start
  · intro d os a _ h
    apply h.step a
  · apply delivery.along_of_forall (P := fun _ _ => True)
    intro _ _
    trivial

/-! ### Reads that end -/

theorem trace_polls_of_told {n : ℕ} (h : d.poll = d.told handle seen) :
  delivery.trace d (List.replicate (n + 1) .poll) = [seen]
  := by
  have hquiet (k : ℕ) :
      delivery.trace (d.told handle seen).1 (List.replicate k .poll) = [] := by
    have hidle : delivery.step (d.told handle seen).1 .poll = ((d.told handle seen).1, []) := by
      cases handle <;> rfl
    induction k with
    | zero => rfl
    | succ k ih =>
      rw [List.replicate_succ, Machine.trace, Machine.emit, Machine.next, hidle]
      apply ih
  rw [List.replicate_succ, Machine.trace, Machine.emit, Machine.next]
  have hstep : delivery.step d .poll = d.told handle seen := h
  rw [hstep, hquiet, List.append_nil]
  rfl

theorem trace_polls_of_goesOn {n : ℕ} (h : d.poll = d.goesOn p reading) :
  delivery.trace d (List.replicate (n + 1) .poll)
    = delivery.trace (d.goesOn p reading).1 (List.replicate n .poll)
  := by
  have hstep : delivery.step d .poll = d.goesOn p reading := h
  rw [List.replicate_succ, Machine.trace, Machine.emit, Machine.next, hstep]
  rfl

/-- A read that has ended within some polls, with the receipt or an early outcome. -/
def EndsWithin (n : ℕ) (r : DeliveryReceipt) (d : Delivery) : Prop :=
  ∃ seen, delivery.trace d (List.replicate n .poll) = [seen]
    ∧ ((∃ e, seen = .early e) ∨ seen = .receipt r)

variable {r : DeliveryReceipt}

theorem endsWithin_of_told {n : ℕ} (h : d.poll = d.told handle seen)
    (outcome : (∃ e, seen = .early e) ∨ seen = .receipt r) :
  EndsWithin (n + 1) r d
  := by
  use seen
  exact ⟨trace_polls_of_told h, outcome⟩

theorem endsWithin_of_goesOn {n : ℕ} (h : d.poll = d.goesOn p reading)
    (rest : EndsWithin n r (d.goesOn p reading).1) :
  EndsWithin (n + 1) r d
  := by
  obtain ⟨seen, hseen, outcome⟩ := rest
  use seen
  rw [trace_polls_of_goesOn h]
  exact ⟨hseen, outcome⟩

/-- A receipt that is settled is what its poll is told. -/
theorem exists_answer (settled : d.outcome = some r) :
  ∃ reported, d.receipt.answer = some reported ∧ .orUnreported reported = r
  := by
  rw [Delivery.outcome, Option.map_eq_some_iff] at settled
  apply settled

/-- Once there is an outcome, the loop ends at its head. -/
theorem endsWithin_early_of_outcome {outcome : DeliveryReceipt} {n : ℕ} (handle : d.handle = some p)
    (reading : d.reading = some .early ∨ d.reading = some .earlyWaiting)
    (kept : p.early ≠ none ∨ p.outcome = some outcome) :
  EndsWithin (n + 1) r d
  := by
  have hpoll : d.poll = d.early p := by
    rw [Delivery.poll, handle]
    obtain reading | reading := reading <;> rw [reading]
  cases hearly : p.early with
  | some early =>
    apply endsWithin_of_told
    · rw [hpoll, Delivery.early, hearly]
    · left
      use early
  | none =>
    have houtcome : p.outcome = some outcome := by simpa [hearly] using kept
    apply endsWithin_of_told
    · rw [hpoll, Delivery.early, hearly, houtcome]
    · left
      use .of outcome

theorem endsWithin_earlyReceipt {receiver : Receiver} {n : ℕ} (settled : d.outcome = some r)
    (poll : d.poll = d.earlyReceipt p) (held : p.receipt = some receiver)
    (fresh : receiver.completed = false) :
  EndsWithin (n + 2) r d
  := by
  obtain ⟨reported, hanswer, rfl⟩ := exists_answer settled
  apply endsWithin_of_goesOn
  · rw [poll, Delivery.earlyReceipt, held]
    dsimp only
    rw [Receiver.poll_of_answer fresh hanswer]
  · apply endsWithin_early_of_outcome rfl
    · left
      rfl
    · right
      rfl

theorem endsWithin_early (settled : d.outcome = some r) (handle : d.handle = some p)
    (holds : Holds d.outcome os p)
    (reading : d.reading = some .early ∨ d.reading = some .earlyWaiting) :
  EndsWithin 3 r d
  := by
  have hpoll : d.poll = d.early p := by
    rw [Delivery.poll, handle]
    obtain reading | reading := reading <;> rw [reading]
  cases houtcome : p.outcome with
  | some outcome => apply endsWithin_early_of_outcome handle reading (.inr houtcome)
  | none =>
    cases hearly : p.early with
    | some early =>
      apply @endsWithin_early_of_outcome d p r r _ handle reading
      left
      simp [hearly]
    | none =>
      obtain ⟨receiver, hreceipt, fresh⟩ := holds.exists_receiver houtcome
      cases hlanded : p.landed with
      | none =>
        apply endsWithin_earlyReceipt settled _ hreceipt fresh
        rw [hpoll, Delivery.early, hearly, houtcome, hlanded]
      | some landed =>
        have freshLanded := holds.landed landed hlanded
        cases hanswer : d.landed.answer with
        | none =>
          apply endsWithin_of_goesOn
          · rw [hpoll, Delivery.early, hearly, houtcome, hlanded, hreceipt]
            dsimp only
            rw [Receiver.poll_of_waiting freshLanded hanswer]
          · apply @endsWithin_earlyReceipt _ ⟨some receiver, some landed, none, none⟩
            · apply settled
            · rfl
            · rfl
            · apply fresh
        | some signal =>
          cases signal with
          | none =>
            apply endsWithin_of_goesOn
            · rw [hpoll, Delivery.early, hearly, houtcome, hlanded, hreceipt]
              dsimp only
              rw [Receiver.poll_of_answer freshLanded hanswer]
            · apply @endsWithin_earlyReceipt _ ⟨some receiver, none, none, none⟩
              · apply settled
              · rfl
              · rfl
              · apply fresh
          | some _ =>
            apply endsWithin_of_told
            · rw [hpoll, Delivery.early, hearly, houtcome, hlanded, hreceipt]
              dsimp only
              rw [Receiver.poll_of_answer freshLanded hanswer]
            · left
              use .landed

theorem endsWithin_receipt (settled : d.outcome = some r) (handle : d.handle = some p)
    (holds : Holds d.outcome os p)
    (reading : d.reading = some .receipt ∨ d.reading = some .receiptWaiting
      ∨ d.reading = some .last) :
  EndsWithin 3 r d
  := by
  obtain ⟨reported, hanswer, hreported⟩ := exists_answer settled
  have htold : ∃ h, d.poll = d.told h (.receipt r) := by
    have hpoll : d.poll = d.receiptWithin p ∨ d.poll = d.last p := by
      rw [Delivery.poll, handle]
      obtain reading | reading | reading := reading <;> simp [reading]
    cases houtcome : p.outcome with
    | some outcome =>
      have hsame := holds.outcome outcome houtcome
      rw [settled] at hsame
      cases hsame
      obtain hpoll | hpoll := hpoll
      · rw [hpoll, Delivery.receiptWithin, houtcome]
        exact ⟨_, rfl⟩
      · rw [hpoll, Delivery.last, houtcome]
        exact ⟨_, rfl⟩
    | none =>
      obtain ⟨receiver, hreceipt, fresh⟩ := holds.exists_receiver houtcome
      obtain hpoll | hpoll := hpoll
      · rw [hpoll, Delivery.receiptWithin, houtcome, hreceipt]
        dsimp only
        rw [Receiver.poll_of_answer fresh hanswer, ← hreported]
        exact ⟨_, rfl⟩
      · rw [hpoll, Delivery.last, houtcome, hreceipt]
        dsimp only
        rw [Receiver.poll_of_answer fresh hanswer, ← hreported]
        exact ⟨_, rfl⟩
  obtain ⟨_, hpoll⟩ := htold
  apply endsWithin_of_told hpoll
  right
  rfl

/-- Once the receipt is settled, a read in flight ends within three polls. -/
theorem Sound.endsWithin (h : Sound d os) (settled : d.outcome = some r)
    (inFlight : d.reading ≠ none) :
  EndsWithin 3 r d
  := by
  obtain ⟨p, handle⟩ := Option.isSome_iff_exists.mp (h.attached inFlight)
  have holds := h.handle p handle
  cases hreading : d.reading with
  | none => exact absurd hreading inFlight
  | some reading =>
    cases reading with
    | early => apply endsWithin_early settled handle holds (.inl hreading)
    | earlyWaiting => apply endsWithin_early settled handle holds (.inr hreading)
    | receipt => apply endsWithin_receipt settled handle holds (.inl hreading)
    | receiptWaiting => apply endsWithin_receipt settled handle holds (.inr (.inl hreading))
    | last => apply endsWithin_receipt settled handle holds (.inr (.inr hreading))
    | earlyReceipt =>
      obtain ⟨-, houtcome⟩ := h.selecting p handle hreading
      obtain ⟨receiver, hreceipt, fresh⟩ := holds.exists_receiver houtcome
      apply endsWithin_earlyReceipt settled _ hreceipt fresh
      rw [Delivery.poll, handle, hreading]

end Steps

/-! ### Every run -/

/-- In every run what a read is told agrees with all that was seen before, and once the receipt is
settled a read in flight is told the receipt or an early outcome within three polls. -/
theorem reads_agree (as : List Act) :
  AtEach Agrees (delivery.trace .new as)
    ∧ ∀ r, Settled (delivery.trace .new as) r → (delivery.final .new as).reading ≠ none →
        EndsWithin 3 r (delivery.final .new as)
  := by
  have h := sound as
  constructor
  · apply h.agrees
  · intro r settled inFlight
    apply h.endsWithin ((h.settled r).mp settled) inFlight

/-- A text that landed and could not be submitted. -/
def pastedOnly : List Act :=
  [.land, .landedWithin, .poll, .refuse "the text was pasted but could not be submitted",
    .receipt, .poll]

theorem landed_then_refused :
  ¬ ∀ (as : List Act) (outcome : EarlyOutcome) (receipt : DeliveryReceipt),
    List.Sublist [.early outcome, .receipt receipt] (delivery.trace .new as) →
      outcome = .of receipt
  := by
  intro h
  have hagree := h pastedOnly .landed
    (.refused "the text was pasted but could not be submitted") (by decide)
  cases hagree

end Lazybox.PromptDelivery
