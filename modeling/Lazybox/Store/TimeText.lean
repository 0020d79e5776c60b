import Lazybox.Library.DigitText
import Lazybox.Store.Sqlite
import Mathlib.Order.Compare

/-!
# Timestamps as text

A timestamp is kept as the text `to_rfc3339` makes of it, and texts are compared byte by byte.
The text of a year of four digits is made of numbers of fixed widths, the most significant first,
but for the fraction of the second: it takes three, six or nine digits, or is left out.  What
follows it is the offset, and its sign comes before the point and before every digit, so the texts
are in the order of the times.  Any other year is written with a sign, and not read back.
-/

namespace Lazybox.Store

open DigitText

/-- A date and a time of day.  A leap second is the second 60. -/
structure Civil where
  year : ℤ
  month : ℕ
  day : ℕ
  hour : ℕ
  minute : ℕ
  second : ℕ
  nanos : ℕ
  month_le : month ≤ 12
  day_le : day ≤ 31
  hour_lt : hour < 24
  minute_lt : minute < 60
  second_le : second ≤ 60
  nanos_lt : nanos < 1000000000

namespace Civil

def FourDigits (c : Civil) : Prop := 0 ≤ c.year ∧ c.year ≤ 9999

def Before (c d : Civil) : Prop :=
  c.year < d.year ∨ c.year = d.year ∧
    (c.month < d.month ∨ c.month = d.month ∧
      (c.day < d.day ∨ c.day = d.day ∧
        (c.hour < d.hour ∨ c.hour = d.hour ∧
          (c.minute < d.minute ∨ c.minute = d.minute ∧
            (c.second < d.second ∨ c.second = d.second ∧ c.nanos < d.nanos)))))

/-- All the digits of the fraction of a second that are not zero, in groups of three. -/
def fraction (nanos : ℕ) : List Char :=
  if nanos = 0 then []
  else if nanos % 1000000 = 0 then '.' :: digits 3 (nanos / 1000000)
  else if nanos % 1000 = 0 then '.' :: digits 6 (nanos / 1000)
  else '.' :: digits 9 nanos

def offset : List Char := "+00:00".toList

/-- The text of RFC 3339, in UTC. -/
def rfc3339 (c : Civil) : List Char :=
  digits 4 c.year.toNat ++ '-' :: (digits 2 c.month ++ '-' :: (digits 2 c.day ++
    'T' :: (digits 2 c.hour ++ ':' :: (digits 2 c.minute ++ ':' :: (digits 2 c.second ++
      (fraction c.nanos ++ offset))))))

end Civil

/-- The timestamps of `chrono`, which is not part of the repository. -/
structure Chrono (τ : Type) where
  civil : τ → Civil
  toRfc3339 : τ → String
  parseFromRfc3339 : String → Except String τ

namespace Chrono

variable {τ : Type} [LinearOrder τ]

/-- What `chrono` documents: timestamps are in the order of their dates and times, and those of
years of four digits are written by RFC 3339 and read back. -/
structure Documented (c : Chrono τ) : Prop where
  chronological : ∀ t u, t < u ↔ (c.civil t).Before (c.civil u)
  written : ∀ t, (c.civil t).FourDigits → (c.toRfc3339 t).toList = (c.civil t).rfc3339
  readable : ∀ t, (c.civil t).FourDigits → c.parseFromRfc3339 (c.toRfc3339 t) = .ok t
  unreadable : ∀ t, ¬ (c.civil t).FourDigits →
    ∃ e, c.parseFromRfc3339 (c.toRfc3339 t) = .error e

end Chrono

/-! ### The order of the texts -/

namespace Civil

/-- The fraction of a second in groups of three digits. -/
def groups (nanos : ℕ) : List ℕ := [nanos / 1000000, nanos / 1000 % 1000, nanos % 1000]

theorem offset_eq :
  offset = '+' :: "00:00".toList
  := rfl

variable {nanos : ℕ}

theorem forall_groups_iff :
  (∀ k ∈ groups nanos, k = 0) ↔ nanos = 0
  := by
  simp only [groups, List.forall_mem_cons, List.not_mem_nil, false_implies, implies_true, and_true]
  omega

theorem groups_lt (h : nanos < 1000000000) :
  ∀ k ∈ groups nanos, k < 10 ^ (2 + 1)
  := by
  simp only [groups, List.forall_mem_cons, List.not_mem_nil, false_implies, implies_true, and_true]
  omega

theorem groups_lt_iff {m n : ℕ} :
  groups m < groups n ↔ m < n
  := by
  simp only [groups, List.cons_lt_cons_iff, List.not_lt_nil, and_false, or_false]
  omega

theorem digits_six (h : nanos < 1000000000) :
  digits 6 (nanos / 1000) = digits 3 (nanos / 1000000) ++ digits 3 (nanos / 1000 % 1000)
  := by
  rw [digits_add 3 3 (by omega), Nat.div_div_eq_div_mul]
  rfl

theorem digits_nine (h : nanos < 1000000000) :
  digits 9 nanos
    = digits 3 (nanos / 1000000) ++ (digits 3 (nanos / 1000 % 1000) ++ digits 3 (nanos % 1000))
  := by
  rw [digits_add 6 3 (by omega), ← List.append_assoc, ← digits_six h]
  rfl

theorem fraction_offset (h : nanos < 1000000000) :
  fraction nanos ++ offset
    = if nanos = 0 then offset else '.' :: cutOff 3 offset (groups nanos)
  := by
  rw [fraction]
  split
  · rfl
  · next hpos =>
      have hsome : ¬ ∀ k ∈ groups nanos, k = 0 := hpos ∘ forall_groups_iff.mp
      rw [groups] at hsome ⊢
      rw [cutOff, if_neg hsome, cutOff, cutOff, cutOff]
      simp only [List.forall_mem_cons, List.not_mem_nil, false_implies, implies_true, and_true]
      split
      · rw [if_pos (by omega), List.cons_append]
      · split
        · rw [if_neg (by omega), digits_six h, List.cons_append,
            List.append_assoc]
        · rw [if_neg (by omega), digits_nine h, List.cons_append,
            List.append_assoc, List.append_assoc]

/-- Fractions of a second are in the order of their texts when the offset follows. -/
theorem fraction_lt_iff {m n : ℕ} (hm : m < 1000000000) (hn : n < 1000000000) :
  fraction m ++ offset < fraction n ++ offset ↔ m < n
  := by
  have hpoint : ∀ x, offset < '.' :: x := by
    intro x
    rw [offset_eq, List.cons_lt_cons_iff]
    left
    decide
  rw [fraction_offset hm, fraction_offset hn]
  split
  · next hzero =>
      split
      · next hzero' =>
          rw [hzero, hzero']
          exact iff_of_false (lt_irrefl _) (lt_irrefl _)
      · next hpos =>
          apply iff_of_true (hpoint _)
          omega
  · split
    · next hzero =>
        apply iff_of_false (lt_asymm (hpoint _))
        omega
    · have hplus : '+' < '0' := by decide
      have hlength : (groups n).length = (groups m).length := rfl
      rw [List.cons_lt_cons_iff, offset_eq,
        cutOff_lt_iff hplus hlength (groups_lt hm) (groups_lt hn), groups_lt_iff]
      simp

/-- Texts which start with numbers of equally many digits and a separator. -/
theorem field_lt_iff {width m n : ℕ} (hm : m < 10 ^ width) (hn : n < 10 ^ width) {separator : Char}
    {x y : List Char} :
  digits width m ++ separator :: x < digits width n ++ separator :: y ↔ m < n ∨ m = n ∧ x < y
  := by
  rw [digits_append_lt_iff hm hn, List.cons_lt_cons_iff]
  simp

/-- The texts of years of four digits are in the order of the times. -/
theorem rfc3339_lt_iff {c d : Civil} (hc : c.FourDigits) (hd : d.FourDigits) :
  c.rfc3339 < d.rfc3339 ↔ c.Before d
  := by
  obtain ⟨hc₀, hc₁⟩ := hc
  obtain ⟨hd₀, hd₁⟩ := hd
  have hlt : c.year.toNat < d.year.toNat ↔ c.year < d.year := by omega
  have heq : c.year.toNat = d.year.toNat ↔ c.year = d.year := by omega
  have hmonth := c.month_le
  have hmonth' := d.month_le
  have hday := c.day_le
  have hday' := d.day_le
  have hhour := c.hour_lt
  have hhour' := d.hour_lt
  have hminute := c.minute_lt
  have hminute' := d.minute_lt
  have hsecond := c.second_le
  have hsecond' := d.second_le
  rw [rfc3339, rfc3339, Before, field_lt_iff (by omega) (by omega), hlt, heq,
    field_lt_iff (by omega) (by omega), field_lt_iff (by omega) (by omega),
    field_lt_iff (by omega) (by omega), field_lt_iff (by omega) (by omega),
    digits_append_lt_iff (by omega) (by omega), fraction_lt_iff c.nanos_lt d.nanos_lt]

end Civil

section Order

variable {τ : Type} [LinearOrder τ] {c : Chrono τ} (doc : c.Documented) {t u : τ}
  (ht : (c.civil t).FourDigits) (hu : (c.civil u).FourDigits)
include doc ht hu

/-- Timestamps of years of four digits are compared as their texts are. -/
theorem below_toRfc3339 :
  below (c.toRfc3339 t) (c.toRfc3339 u) ↔ t < u
  := by
  rw [below_iff, doc.written t ht, doc.written u hu, Civil.rfc3339_lt_iff ht hu,
    doc.chronological]

theorem toRfc3339_inj :
  c.toRfc3339 t = c.toRfc3339 u ↔ t = u
  := by
  constructor
  · intro h
    have hread := doc.readable t ht
    rw [h, doc.readable u hu] at hread
    cases hread
    rfl
  · rintro rfl
    rfl

end Order

end Lazybox.Store
