import Lazybox.Library.Run
import Mathlib.Tactic.Linarith

/-!
# Requests are paced

A request reserves the next slot, and sleeps until it.  The gap to the one after it is computed in
floating point from how hot the token is, and is given.  Slots are told apart by at least their
gaps, so that no more requests start in a time than the gaps have room for, however many are made
at once; and quiet time is not saved up.
-/

namespace Lazybox.Pacing

/-- A reservation, made at a time. -/
structure Reserve where
  requestGap : ℕ
  now : ℕ

/-- The slot after the one reserved, and for how long to sleep until that one. -/
def reserveRequestSlot (next : Option ℕ) (r : Reserve) : Option ℕ × ℕ :=
  let start := next.elim r.now (max · r.now)
  (some (start + r.requestGap), start - r.now)

/-- Reservations, and when their requests start. -/
def machine : Machine (Option ℕ) Reserve ℕ :=
  ⟨fun next r => ((reserveRequestSlot next r).1, [r.now + (reserveRequestSlot next r).2])⟩

theorem start_eq (next : Option ℕ) (r : Reserve) :
  r.now + (reserveRequestSlot next r).2 = next.elim r.now (max · r.now)
  := by
  cases next with
  | none => exact Nat.add_sub_cancel' le_rfl
  | some slot => exact Nat.add_sub_cancel' (le_max_right ..)

/-- No start is before the slot that was next. -/
theorem pairwise_trace {gap : ℕ} {rs : List Reserve} (hgap : ∀ r ∈ rs, gap ≤ r.requestGap)
    (next : Option ℕ) :
  (∀ slot ∈ next, ∀ start ∈ machine.trace next rs, slot ≤ start)
    ∧ (machine.trace next rs).Pairwise fun a b => a + gap ≤ b
  := by
  induction rs generalizing next with
  | nil => exact ⟨fun _ _ => nofun, .nil⟩
  | cons r rs ih =>
    rw [List.forall_mem_cons] at hgap
    have htrace : machine.trace next (r :: rs) = next.elim r.now (max · r.now)
        :: machine.trace (some (next.elim r.now (max · r.now) + r.requestGap)) rs := by
      change [r.now + (reserveRequestSlot next r).2] ++ _ = _
      rw [start_eq]
      rfl
    obtain ⟨hlater, hpairwise⟩ :=
      ih hgap.2 (some (next.elim r.now (max · r.now) + r.requestGap))
    have hlater := hlater _ rfl
    rw [htrace]
    constructor
    · rintro slot ⟨⟩ start hstart
      have hfirst : slot ≤ max slot r.now := le_max_left ..
      obtain rfl | hstart := List.mem_cons.mp hstart
      · exact hfirst
      · exact hfirst.trans ((Nat.le_add_right ..).trans (hlater start hstart))
    · refine List.pairwise_cons.mpr ⟨fun start hstart => ?_, hpairwise⟩
      exact (Nat.add_le_add_left hgap.1 _).trans (hlater start hstart)

/-- Times that are a gap apart, and all within some time, are not many. -/
theorem length_within {gap w t : ℕ} {times : List ℕ} (apart : times.Pairwise fun a b => a + gap ≤ b)
    (within : ∀ a ∈ times, t ≤ a ∧ a < t + w) (hne : times ≠ []) :
  (times.length - 1) * gap < w
  := by
  induction times generalizing t w with
  | nil => exact absurd rfl hne
  | cons a times ih =>
    obtain ⟨hlater, apart⟩ := List.pairwise_cons.mp apart
    rw [List.forall_mem_cons] at within
    obtain ⟨⟨hfirst, hlast⟩, within⟩ := within
    rw [List.length_cons, Nat.add_sub_cancel]
    by_cases hmore : times = []
    · rw [hmore, List.length_nil, Nat.zero_mul]
      omega
    · have hrest := ih (t := a + gap) (w := t + w - (a + gap)) apart (fun b hb => by
        have := hlater b hb
        have := within b hb
        omega) hmore
      have hcount : times.length * gap = (times.length - 1) * gap + gap := by
        rw [← Nat.succ_mul, Nat.succ_eq_add_one, Nat.sub_add_cancel (List.length_pos_iff.mpr hmore)]
      omega

/-- However reservations are made, no more requests start within a time than gaps fit in it. -/
theorem paced {gap : ℕ} {rs : List Reserve} (hgap : ∀ r ∈ rs, gap ≤ r.requestGap)
    (next : Option ℕ) (t w : ℕ) :
  let within := (machine.trace next rs).filter fun start => t ≤ start ∧ start < t + w
  within ≠ [] → (within.length - 1) * gap < w
  := by
  intro within hne
  refine length_within (t := t) ((pairwise_trace hgap next).2.filter _) (fun a ha => ?_) hne
  simpa using (List.mem_filter.mp ha).2

/-- Three requests at once and one later, of which two start within five. -/
theorem paced_burst :
  ((machine.trace none [⟨4, 0⟩, ⟨4, 0⟩, ⟨4, 0⟩, ⟨4, 30⟩]).filter
      fun start => 0 ≤ start ∧ start < 0 + 5).length = 2
    ∧ (2 - 1) * 4 < 5
  := ⟨by decide, @paced 4 [⟨4, 0⟩, ⟨4, 0⟩, ⟨4, 0⟩, ⟨4, 30⟩] (by decide) none 0 5 (by decide)⟩

end Lazybox.Pacing
