import Lazybox.Core.MergePolicy
import Mathlib.Data.Nat.Digits.Defs
import Mathlib.Data.String.Basic

/-!
# Decimal texts

What the decimal digits of a text denote, and how a number of 64 bits is read.
-/

namespace Lazybox

variable {s t : List Char} {n : ℕ}

/-! ### What digits denote -/

theorem digitsValue_append (s t : List Char) :
  digitsValue (s ++ t) = 10 ^ t.length * digitsValue s + digitsValue t
  := by
  have hvalue (s : List Char) : digitsValue s = Nat.ofDigitChars 10 s 0 := rfl
  rw [hvalue, hvalue, hvalue, Nat.ofDigitChars_append, Nat.ofDigitChars_eq_ofDigitChars_zero]

theorem digitsValue_le_append (s t : List Char) :
  digitsValue s ≤ digitsValue (s ++ t)
  := by
  rw [digitsValue_append]
  apply Nat.le_add_right_of_le
  apply Nat.le_mul_of_pos_left
  apply Nat.pow_pos
  apply Nat.succ_pos

theorem digitsValue_singleton_eq_zero {c : Char} (h : c.isDigit) :
  digitsValue [c] = 0 ↔ c = '0'
  := by
  have hvalue : digitsValue [c] = c.toNat - '0'.toNat := by
    simp [digitsValue]
  have hle := (Char.isDigit_iff_toNat.mp h).1
  rw [hvalue, ← Char.toNat_inj]
  omega

theorem digitsValue_eq_zero_iff (h : ∀ c ∈ s, c.isDigit) :
  digitsValue s = 0 ↔ ∀ c ∈ s, c = '0'
  := by
  induction s with
  | nil => simp [digitsValue]
  | cons c s ih =>
    have hpos : 10 ^ s.length ≠ 0 := (Nat.pow_pos (Nat.succ_pos 9)).ne'
    rw [List.forall_mem_cons] at h ⊢
    rw [← List.singleton_append, digitsValue_append, Nat.add_eq_zero_iff, ih h.2,
      Nat.mul_eq_zero, digitsValue_singleton_eq_zero h.1, or_iff_right hpos]

/-- More digits make another number, but for zeros after zeros. -/
theorem digitsValue_append_eq_iff
    (hs : ∀ c ∈ s, c.isDigit) (ht : ∀ c ∈ t, c.isDigit) (ht' : t ≠ []) :
  digitsValue (s ++ t) = digitsValue s ↔ ∀ c ∈ s ++ t, c = '0'
  := by
  have hall : ∀ c ∈ s ++ t, c.isDigit := List.forall_mem_append.mpr ⟨hs, ht⟩
  rw [← digitsValue_eq_zero_iff hall, digitsValue_append]
  have hten : 10 ≤ 10 ^ t.length := by
    apply Nat.le_self_pow
    rw [Ne, List.length_eq_zero_iff]
    apply ht'
  have hmul := Nat.mul_le_mul_right (digitsValue s) hten
  omega

/-! ### Reading -/

theorem head?_ne_of_isDigit (h : ∀ c ∈ s, c.isDigit) :
  s.head? ≠ some '+'
  := by
  intro hhead
  cases h '+' (List.mem_of_mem_head? hhead)

/-- A text of digits is read unless the number is too large. -/
theorem parseU64_of_isDigit (hne : s ≠ []) (h : ∀ c ∈ s, c.isDigit) :
  parseU64 s = if digitsValue s < 18446744073709551616 then some (digitsValue s) else none
  := by
  rw [parseU64, if_neg (head?_ne_of_isDigit h)]
  simp only [hne, List.all_eq_true.mpr h, ne_eq, not_false_eq_true, true_and]

theorem parseU64_of_mem {c : Char} (hc : c ∈ s) (hdigit : c.isDigit = false) (hplus : c ≠ '+') :
  parseU64 s = none
  := by
  have hmem : c ∈ if s.head? = some '+' then s.tail else s := by
    split
    · next hhead =>
        rw [List.eq_cons_of_mem_head? hhead, List.mem_cons] at hc
        apply hc.resolve_left hplus
    · apply hc
  rw [parseU64]
  apply if_neg
  rintro ⟨-, hall, -⟩
  rw [List.all_eq_true.mp hall c hmem] at hdigit
  cases hdigit

theorem lt_of_parseU64 (h : parseU64 s = some n) :
  n < 18446744073709551616
  := by
  rw [parseU64] at h
  generalize hdigits : (if s.head? = some '+' then s.tail else s) = digits at h
  split at h
  · next hfits =>
      rw [← Option.some.inj h]
      apply hfits.2.2
  · cases h

/-! ### Writing -/

theorem toList_toString (n : ℕ) :
  (toString n).toList = Nat.toDigits 10 n
  := Nat.toList_repr

theorem isDigit_of_mem_toString {c : Char} (h : c ∈ (toString n).toList) :
  c.isDigit
  := by
  rw [toList_toString] at h
  apply Nat.isDigit_of_mem_toDigits (b := 10) (n := n) (by omega) (by omega) h

theorem toList_toString_ne_nil (n : ℕ) :
  (toString n).toList ≠ []
  := by
  rw [toList_toString]
  apply Nat.toDigits_ne_nil

theorem digitsValue_toString (n : ℕ) :
  digitsValue (toString n).toList = n
  := by
  rw [toList_toString, digitsValue, ← Nat.ofDigitChars_eq_foldl, Nat.ofDigitChars_ten_toDigits]

/-- A number of 64 bits is read back from its decimal text. -/
theorem parseU64_toString (h : n ≤ 18446744073709551615) :
  parseU64 (toString n).toList = some n
  := by
  have hdigits : ∀ c ∈ (toString n).toList, c.isDigit := fun c => isDigit_of_mem_toString
  rw [parseU64_of_isDigit (toList_toString_ne_nil n) hdigits, digitsValue_toString, if_pos]
  omega

end Lazybox
