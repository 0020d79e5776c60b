import Mathlib.Data.Option.Basic

/-!
# One-shot channels

A channel takes one value.  Its sender sends the value or is dropped without sending one, and what
it does after that changes nothing.

A receiver that was polled and got an answer has completed.  To poll it again is an error.
-/

universe u

namespace OneShot

/-- A channel, by what its sender has done. -/
inductive Channel (α : Type u) where
  | waiting
  | sent (a : α)
  | dropped
deriving DecidableEq, Repr

/-- The receiving end. -/
structure Receiver where
  completed : Bool
deriving DecidableEq, Repr

/-- What a receiver is told.  The answer is the value, or that there is none to come. -/
inductive Poll (α : Type u) where
  | pending
  | ready (answer : Option α)
  | panicked
deriving DecidableEq, Repr

variable {α : Type u}

namespace Channel

def send (a : α) : Channel α → Channel α
  | waiting => sent a
  | sent b => sent b
  | dropped => dropped

def drop : Channel α → Channel α
  | waiting => dropped
  | sent a => sent a
  | dropped => dropped

/-- The answer there is to a poll. -/
def answer : Channel α → Option (Option α)
  | waiting => none
  | sent a => some (some a)
  | dropped => some none

variable {c : Channel α}

/-- The sender changes nothing once there is an answer. -/
theorem send_of_ne_waiting (h : c ≠ waiting) (a : α) :
  c.send a = c
  := by
  cases c with
  | waiting => exact absurd rfl h
  | sent b => rfl
  | dropped => rfl

theorem drop_of_ne_waiting (h : c ≠ waiting) :
  c.drop = c
  := by
  cases c with
  | waiting => exact absurd rfl h
  | sent b => rfl
  | dropped => rfl

theorem answer_eq_some_some {a : α} :
  c.answer = some (some a) ↔ c = sent a
  := by
  cases c with
  | waiting => simp [answer]
  | sent a => simp [answer]
  | dropped => simp [answer]

end Channel

namespace Receiver

def new : Receiver := ⟨false⟩

def poll (receiver : Receiver) (c : Channel α) : Poll α × Receiver :=
  if receiver.completed then (.panicked, receiver)
  else
    match c.answer with
    | none => (.pending, receiver)
    | some answer => (.ready answer, ⟨true⟩)

theorem poll_of_answer {receiver : Receiver} {c : Channel α} {answer : Option α}
    (fresh : receiver.completed = false) (h : c.answer = some answer) :
  receiver.poll c = (.ready answer, ⟨true⟩)
  := by
  rw [poll, if_neg (by simp [fresh]), h]

theorem poll_of_waiting {receiver : Receiver} {c : Channel α}
    (fresh : receiver.completed = false) (h : c.answer = none) :
  receiver.poll c = (.pending, receiver)
  := by
  rw [poll, if_neg (by simp [fresh]), h]

end Receiver

end OneShot
