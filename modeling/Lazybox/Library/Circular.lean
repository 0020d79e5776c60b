import Mathlib.Data.List.DropRight

/-!
# Circular storage

A list `buf` read from position `h` on and then from its start up to `h` is
`unwrap buf h`.  `overwrite buf h src` writes the elements of `src` over `buf` from `h` on,
going back to the start once at the end.  Read from the position where the writing stopped,
the overwritten list holds the old elements followed by `src`, without the oldest
`src.length` elements.

Keeping the last `n` elements of a list is `List.rtake n`.
-/

namespace Circular

variable {α : Type*}

/-- `buf` with the elements from `pos` on replaced by those of `src`. -/
def copyFromSlice (buf : List α) (pos : ℕ) (src : List α) : List α :=
  buf.take pos ++ src ++ buf.drop (pos + src.length)

/-- The elements of `buf` from `h` on, followed by those before `h`. -/
def unwrap (buf : List α) (h : ℕ) : List α :=
  buf.drop h ++ buf.take h

/-- `src` written over `buf` from `h` on, going back to the start at the end. -/
def overwrite (buf : List α) (h : ℕ) (src : List α) : List α :=
  let first := min (buf.length - h) src.length
  let buf := copyFromSlice buf h (src.take first)
  if first < src.length then copyFromSlice buf 0 (src.drop first) else buf

theorem length_unwrap (buf : List α) (h : ℕ) :
  (unwrap buf h).length = buf.length
  := by
  simp only [unwrap, List.length_append, List.length_drop, List.length_take]
  omega

variable {buf src : List α}

/-- Writing that stops before the end leaves the storage in front of `h` and behind what is
written as it was. -/
theorem overwrite_of_le {h : ℕ} (hfit : h + src.length ≤ buf.length) :
  overwrite buf h src = buf.take h ++ src ++ buf.drop (h + src.length)
  := by
  have hfirst : min (buf.length - h) src.length = src.length := by omega
  simp [overwrite, hfirst, copyFromSlice]

/-- Writing past the end fills the storage from `h` on, and goes on at its start. -/
theorem overwrite_of_lt {h : ℕ} (hh : h ≤ buf.length) (hwrap : buf.length < h + src.length)
    (hlen : src.length ≤ buf.length) :
  overwrite buf h src = src.drop (buf.length - h)
    ++ (buf.take h).drop (src.length - (buf.length - h)) ++ src.take (buf.length - h)
  := by
  have hfirst : min (buf.length - h) src.length = buf.length - h := by omega
  have hlt : buf.length - h < src.length := by omega
  have hend : buf.drop (h + (src.take (buf.length - h)).length) = [] := by
    apply List.drop_eq_nil_of_le
    simp only [List.length_take]
    omega
  rw [overwrite, hfirst, if_pos hlt, copyFromSlice, copyFromSlice, hend]
  rw [List.append_nil, List.take_zero, List.nil_append, List.append_assoc]
  congr 1
  rw [Nat.zero_add, List.length_drop, List.drop_append_of_le_length]
  simp only [List.length_take]
  omega

theorem length_overwrite {h : ℕ} (hh : h ≤ buf.length) (hlen : src.length ≤ buf.length) :
  (overwrite buf h src).length = buf.length
  := by
  by_cases hfit : h + src.length ≤ buf.length
  · rw [overwrite_of_le hfit]
    simp only [List.length_append, List.length_take, List.length_drop]
    omega
  · rw [overwrite_of_lt hh (by omega) hlen]
    simp only [List.length_append, List.length_take, List.length_drop]
    omega

/-- Read from where the writing stopped, an overwritten storage holds its old elements
followed by the written ones, without as many of the oldest. -/
theorem unwrap_overwrite {h : ℕ} (hh : h < buf.length) (hlen : src.length < buf.length) :
  unwrap (overwrite buf h src) ((h + src.length) % buf.length)
    = (unwrap buf h ++ src).drop src.length
  := by
  obtain hlt | heq | hgt := lt_trichotomy (h + src.length) buf.length
  · -- the writing stops inside the storage
    rw [Nat.mod_eq_of_lt hlt, overwrite_of_le hlt.le, unwrap, unwrap]
    have hpre : (buf.take h ++ src).length = h + src.length := by
      simp only [List.length_append, List.length_take]
      omega
    rw [List.drop_left' hpre, List.take_left' hpre, List.append_assoc,
      List.drop_append_of_le_length (by simp only [List.length_drop]; omega), List.drop_drop]
  · -- the writing stops exactly at the end
    rw [heq, Nat.mod_self, overwrite_of_le heq.le, unwrap, unwrap, heq]
    simp only [List.drop_length, List.append_nil, List.drop_zero, List.take_zero]
    rw [List.append_assoc, List.drop_left' (by simp only [List.length_drop]; omega)]
  · -- the writing goes back to the start
    have hmod : (h + src.length) % buf.length = src.length - (buf.length - h) := by
      rw [Nat.mod_eq_sub_mod hgt.le, Nat.mod_eq_of_lt (by omega)]
      omega
    have hpre : (src.drop (buf.length - h)).length = src.length - (buf.length - h) := by
      rw [List.length_drop]
    rw [hmod, overwrite_of_lt hh.le hgt hlen.le, unwrap, unwrap, List.append_assoc,
      List.drop_left' hpre, List.take_left' hpre, List.append_assoc, List.take_append_drop,
      List.append_assoc]
    have hrest : src.length = (buf.drop h).length + (src.length - (buf.length - h)) := by
      rw [List.length_drop]
      omega
    conv_rhs => rw [hrest, List.drop_length_add_append]
    rw [List.drop_append_of_le_length (by simp only [List.length_take]; omega)]

/-! ### Keeping the last elements -/

theorem rtake_of_length_le {l : List α} {n : ℕ} (h : l.length ≤ n) :
  l.rtake n = l
  := by
  rw [List.rtake, Nat.sub_eq_zero_of_le h, List.drop_zero]

theorem length_rtake (l : List α) (n : ℕ) :
  (l.rtake n).length = min l.length n
  := by
  rw [List.rtake, List.length_drop]
  omega

/-- What is beyond the last `n` elements of a list is lost as well after more is appended. -/
theorem rtake_rtake_append (l m : List α) (n : ℕ) :
  (l.rtake n ++ m).rtake n = (l ++ m).rtake n
  := by
  simp only [List.rtake, List.length_append, List.length_drop]
  rw [← List.drop_append_of_le_length (by omega), List.drop_drop]
  congr 1
  omega

theorem rtake_append_of_le {l m : List α} {n : ℕ} (h : n ≤ m.length) :
  (l ++ m).rtake n = m.rtake n
  := by
  simp only [List.rtake, List.length_append]
  rw [Nat.add_sub_assoc h, List.drop_length_add_append]

end Circular
