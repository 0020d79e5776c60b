import Mathlib.Data.Char
import Mathlib.Data.List.Lex
import Mathlib.Data.Nat.Digits.Defs

/-!
# Numbers as text

A number is written in so many decimal digits, with zeros in front.  Texts which start with
numbers of equally many digits are ordered by the numbers first, and then by what follows.

A list of such numbers may be cut off where only zeros are left, when what stands at its end comes
before every digit.
-/

namespace DigitText

def digits : ℕ → ℕ → List Char
  | 0, _ => []
  | width + 1, n => Nat.digitChar (n / 10 ^ width) :: digits width (n % 10 ^ width)

variable {n : ℕ}

theorem digitChar_lt_iff {m : ℕ} (hm : m < 10) (hn : n < 10) :
  Nat.digitChar m < Nat.digitChar n ↔ m < n
  := by
  have hall : ∀ m < 10, ∀ n < 10, (Nat.digitChar m < Nat.digitChar n ↔ m < n) := by
    decide +kernel
  apply hall m hm n hn

theorem digitChar_inj {m : ℕ} (hm : m < 10) (hn : n < 10) :
  Nat.digitChar m = Nat.digitChar n ↔ m = n
  := by
  rw [← not_iff_not, ← ne_eq, ← ne_eq, ne_iff_lt_or_gt, ne_iff_lt_or_gt,
    digitChar_lt_iff hm hn, digitChar_lt_iff hn hm]

theorem zero_le_digitChar (hn : n < 10) :
  '0' ≤ Nat.digitChar n
  := by
  have hall : ∀ n < 10, '0' ≤ Nat.digitChar n := by
    decide +kernel
  apply hall n hn

/-- Numbers are compared by their leading parts first. -/
theorem lt_iff_div_mod (b m n : ℕ) :
  m < n ↔ m / b < n / b ∨ m / b = n / b ∧ m % b < n % b
  := by
  have hm := Nat.div_add_mod m b
  have hn := Nat.div_add_mod n b
  rcases lt_trichotomy (m / b) (n / b) with h | h | h
  · have hlt : m < n := by
      by_contra hge
      exact absurd h (not_lt.mpr (Nat.div_le_div_right (not_lt.mp hge)))
    simp [h, hlt]
  · rw [h] at hm
    simp only [h, lt_irrefl, true_and, false_or]
    omega
  · have hlt : n < m := by
      by_contra hge
      exact absurd h (not_lt.mpr (Nat.div_le_div_right (not_lt.mp hge)))
    simp [h.not_gt, h.ne', hlt.le]

/-- Texts which start with numbers of equally many digits are ordered by the numbers first. -/
theorem digits_append_lt_iff {width m : ℕ} (hm : m < 10 ^ width) (hn : n < 10 ^ width)
    (x y : List Char) :
  digits width m ++ x < digits width n ++ y ↔ m < n ∨ m = n ∧ x < y
  := by
  induction width generalizing m n with
  | zero =>
    rw [pow_zero, Nat.lt_one_iff] at hm hn
    simp [digits, hm, hn]
  | succ width ih =>
    rw [pow_succ, mul_comm] at hm hn
    have hpos : 0 < 10 ^ width := Nat.pow_pos (by omega)
    have hm' := Nat.div_lt_of_lt_mul (mul_comm 10 _ ▸ hm)
    have hn' := Nat.div_lt_of_lt_mul (mul_comm 10 _ ▸ hn)
    rw [digits, digits, List.cons_append, List.cons_append, List.cons_lt_cons_iff,
      digitChar_lt_iff hm' hn', digitChar_inj hm' hn',
      ih (Nat.mod_lt m hpos) (Nat.mod_lt n hpos), lt_iff_div_mod (10 ^ width) m n]
    have heq : m = n ↔ m / 10 ^ width = n / 10 ^ width ∧ m % 10 ^ width = n % 10 ^ width := by
      constructor
      · rintro rfl
        exact ⟨rfl, rfl⟩
      · rintro ⟨hdiv, hmod⟩
        rw [← Nat.div_add_mod m (10 ^ width), hdiv, hmod, Nat.div_add_mod]
    rw [heq]
    tauto

/-- The digits of a number are those of its leading part and those of the rest. -/
theorem digits_add (j k : ℕ) (hn : n < 10 ^ (j + k)) :
  digits (j + k) n = digits j (n / 10 ^ k) ++ digits k (n % 10 ^ k)
  := by
  induction j generalizing n with
  | zero =>
    rw [Nat.zero_add] at hn ⊢
    rw [digits, List.nil_append, Nat.mod_eq_of_lt hn]
  | succ j ih =>
    have hmod := ih (Nat.mod_lt n (Nat.pow_pos (by omega)))
    rw [Nat.add_right_comm, digits, digits, hmod, List.cons_append, Nat.div_div_eq_div_mul,
      ← pow_add, Nat.add_comm k j, pow_add, Nat.mul_comm, Nat.mod_mul_right_div_self,
      Nat.mod_mod_of_dvd _ (Nat.dvd_mul_right _ _)]

/-- The numbers in digits, up to where only zeros are left, and what stands at the end. -/
def cutOff (width : ℕ) (stop : List Char) : List ℕ → List Char
  | [] => stop
  | n :: rest =>
      if ∀ k ∈ n :: rest, k = 0 then stop else digits width n ++ cutOff width stop rest

theorem not_lt_zeros {l l' : List ℕ} (zeros : ∀ n ∈ l, n = 0) (length : l'.length = l.length) :
  ¬ l' < l
  := by
  induction l' generalizing l with
  | nil =>
    rw [List.length_eq_zero_iff.mp length.symm]
    apply lt_irrefl
  | cons n' l' ih =>
    cases l with
    | nil => cases length
    | cons n l =>
      rw [List.forall_mem_cons] at zeros
      rw [List.cons_lt_cons_iff, zeros.1]
      rintro (hlt | ⟨-, hlt⟩)
      · apply Nat.not_lt_zero _ hlt
      · apply ih zeros.2 (Nat.succ.inj length) hlt

theorem zeros_lt {l l' : List ℕ} (zeros : ∀ n ∈ l, n = 0) (length : l'.length = l.length)
    (other : ¬ ∀ n ∈ l', n = 0) :
  l < l'
  := by
  apply lt_of_le_of_ne (not_lt.mp (not_lt_zeros zeros length))
  rintro rfl
  apply other zeros

/-- What stands at the end comes before every digit. -/
theorem stop_lt {width : ℕ} {c : Char} (hc : c < '0') (hn : n < 10 ^ (width + 1))
    (stop x : List Char) :
  c :: stop < digits (width + 1) n ++ x
  := by
  rw [digits, List.cons_append, List.cons_lt_cons_iff]
  left
  apply lt_of_lt_of_le hc
  apply zero_le_digitChar
  rw [pow_succ] at hn
  apply Nat.div_lt_of_lt_mul hn

/-- Lists of as many numbers are ordered as their texts are. -/
theorem cutOff_lt_iff {width : ℕ} {c : Char} {stop : List Char} (hc : c < '0')
    {l l' : List ℕ} (length : l'.length = l.length) (hl : ∀ n ∈ l, n < 10 ^ (width + 1))
    (hl' : ∀ n ∈ l', n < 10 ^ (width + 1)) :
  cutOff (width + 1) (c :: stop) l < cutOff (width + 1) (c :: stop) l' ↔ l < l'
  := by
  induction l generalizing l' with
  | nil =>
    rw [List.length_eq_zero_iff.mp length]
    exact iff_of_false (lt_irrefl _) (lt_irrefl _)
  | cons n l ih =>
    cases l' with
    | nil => cases length
    | cons n' l' =>
      rw [cutOff, cutOff]
      split
      · next zeros =>
          split
          · next zeros' =>
              apply iff_of_false (lt_irrefl _) (not_lt_zeros zeros' length.symm)
          · next other =>
              apply iff_of_true _ (zeros_lt zeros length other)
              apply stop_lt hc (hl' n' List.mem_cons_self)
      · next other =>
          split
          · next zeros' =>
              apply iff_of_false _ (not_lt_zeros zeros' length.symm)
              apply lt_asymm (stop_lt hc (hl n List.mem_cons_self) _ _)
          · rw [List.forall_mem_cons] at hl hl'
            rw [digits_append_lt_iff hl.1 hl'.1, ih (Nat.succ.inj length) hl.2 hl'.2,
              List.cons_lt_cons_iff]

end DigitText
