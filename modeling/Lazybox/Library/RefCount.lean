import Mathlib.Data.List.Count
import Mathlib.Logic.Function.Basic

/-!
# Reference counts kept in a map

A map counts how often each key is held.  A key that is not held has no entry.  Taking one
more hold on a key and letting go of one keep the counts exact, and letting go of holds that are
there never takes a count below zero.
-/

namespace RefCount

variable {κ : Type*} [DecidableEq κ]

/-- Count one more hold on `k`. -/
def acquire (refs : κ → Option ℕ) (k : κ) : κ → Option ℕ :=
  Function.update refs k (some ((refs k).getD 0 + 1))

/-- Count one hold on `k` less.  The entry goes with the last hold. -/
def release (refs : κ → Option ℕ) (k : κ) : κ → Option ℕ :=
  match refs k with
  | some count => Function.update refs k (if count - 1 = 0 then none else some (count - 1))
  | none => refs

/-- Letting go of `ks` one after the other decrements a count that is zero. -/
def underflows (refs : κ → Option ℕ) : List κ → Bool
  | [] => false
  | k :: ks => refs k == some 0 || underflows (release refs k) ks

/-- The entry of a key that is held `n` times. -/
def entry (n : ℕ) : Option ℕ := if n = 0 then none else some n

/-- The map counts the holds on every key. -/
def Counts (refs : κ → Option ℕ) (held : List κ) : Prop :=
  ∀ k, refs k = entry (held.count k)

theorem isSome_entry (n : ℕ) :
  (entry n).isSome ↔ 0 < n
  := by
  cases n with
  | zero => simp [entry]
  | succ n => simp [entry]

theorem getD_entry (n : ℕ) :
  (entry n).getD 0 = n
  := by
  cases n with
  | zero => rfl
  | succ n => rfl

namespace Counts

variable {refs : κ → Option ℕ} {held : List κ}

theorem nil : Counts (fun _ : κ => none) [] := by
  intro k
  rfl

theorem isSome_iff (h : Counts refs held) (k : κ) :
  (refs k).isSome ↔ k ∈ held
  := by
  rw [h k, isSome_entry, List.count_pos_iff]

theorem acquire (h : Counts refs held) (k : κ) :
  Counts (RefCount.acquire refs k) (held ++ [k])
  := by
  intro k'
  rw [RefCount.acquire, h k, getD_entry, List.count_append]
  by_cases hk : k' = k
  · subst hk
    simp [entry]
  · rw [Function.update_of_ne hk, h k', List.count_singleton, if_neg (by simpa using Ne.symm hk),
      Nat.add_zero]

theorem foldl_acquire (h : Counts refs held) (ks : List κ) :
  Counts (ks.foldl RefCount.acquire refs) (held ++ ks)
  := by
  induction ks generalizing refs held with
  | nil => simpa using h
  | cons k ks ih =>
    have := ih (h.acquire k)
    rwa [List.append_assoc] at this

theorem release {k : κ} (h : Counts refs (k :: held)) :
  Counts (RefCount.release refs k) held
  := by
  intro k'
  have hk : refs k = some (held.count k + 1) := by
    rw [h k, List.count_cons_self]
    rfl
  rw [RefCount.release, hk]
  by_cases hk' : k' = k
  · subst hk'
    simp [entry]
  · simp only
    rw [Function.update_of_ne hk', h k', List.count_cons_of_ne (Ne.symm hk')]

theorem foldl_release {ks : List κ} (h : Counts refs (ks ++ held)) :
  Counts (ks.foldl RefCount.release refs) held
  := by
  induction ks generalizing refs with
  | nil => apply h
  | cons k ks ih => apply ih h.release

/-- Holds that are there are let go without an underflow. -/
theorem underflows_eq_false {ks : List κ} (h : Counts refs (ks ++ held)) :
  underflows refs ks = false
  := by
  induction ks generalizing refs with
  | nil => rfl
  | cons k ks ih =>
    have hk : refs k = some ((ks ++ held).count k + 1) := by
      rw [h k, List.cons_append, List.count_cons_self]
      rfl
    rw [underflows, ih h.release, hk]
    simp

end Counts

end RefCount
