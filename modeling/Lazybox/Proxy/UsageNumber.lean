import Lazybox.Proxy.UsageJson

/-!
# The numbers of a response

The automaton that checks a number accepts exactly the numbers of a JSON text.  For each of its
states, the bytes it accepts from there are described by a rule of the grammar.
-/

namespace Lazybox

open Json

namespace Number

/-- The state after the first byte of a number. -/
def start (byte : UInt8) : Number :=
  if byte = 0x2D then sign else if byte = 0x30 then zero else integer

/-- From this state the bytes complete a number. -/
def accepts (number : Number) (bytes : List UInt8) : Bool :=
  (bytes.foldlM next number).any complete

variable {byte : UInt8}

theorem isDigit_iff : isDigit byte = true ↔ IsDigit byte := by
  rw [isDigit, Bool.and_eq_true, decide_eq_true_iff, decide_eq_true_iff]
  rfl

theorem accepts_nil (number : Number) : number.accepts [] = number.complete := rfl

theorem accepts_cons (number : Number) (byte : UInt8) (bytes : List UInt8) :
  number.accepts (byte :: bytes) = (number.next byte).any (accepts · bytes)
  := by
  rw [accepts, List.foldlM_cons]
  cases number.next byte <;> rfl

/-- A point, an `e` and a sign are no digits. -/
theorem not_isDigit :
  ¬ IsDigit 0x2E ∧ ¬ IsDigit 0x65 ∧ ¬ IsDigit 0x45 ∧ ¬ IsDigit 0x2B ∧ ¬ IsDigit 0x2D
  := by
  decide

/-! ### Exponents -/

variable (bytes : List UInt8)

theorem accepts_exponentDigits :
  exponentDigits.accepts bytes = true ↔ ∀ byte ∈ bytes, IsDigit byte
  := by
  induction bytes with
  | nil => simp [accepts_nil, complete]
  | cons byte bytes ih =>
    rw [accepts_cons, List.forall_mem_cons, ← ih, ← isDigit_iff]
    cases h : isDigit byte <;> simp [next, h]

/-- Digits, at least one. -/
theorem accepts_exponentSign :
  exponentSign.accepts bytes = true
    ↔ ∃ first rest, bytes = first :: rest ∧ IsDigit first ∧ ∀ byte ∈ rest, IsDigit byte
  := by
  cases bytes with
  | nil => simp [accepts_nil, complete]
  | cons byte bytes =>
    simp only [accepts_cons, List.cons.injEq, ← isDigit_iff]
    cases h : isDigit byte <;> simp [next, h, accepts_exponentDigits, ← isDigit_iff]

/-- A sign or none, and digits, at least one. -/
theorem accepts_exponent :
  exponent.accepts bytes = true
    ↔ ∃ sign first rest, (sign = [] ∨ sign = [0x2B] ∨ sign = [0x2D]) ∧ IsDigit first
      ∧ (∀ byte ∈ rest, IsDigit byte) ∧ bytes = sign ++ first :: rest
  := by
  constructor
  · intro h
    cases bytes with
    | nil => cases h
    | cons byte bytes =>
      rw [accepts_cons, next] at h
      split at h
      · next hsign =>
          obtain ⟨first, rest, rfl, hfirst, hrest⟩ := (accepts_exponentSign bytes).mp h
          refine ⟨[byte], first, rest, .inr ?_, hfirst, hrest, rfl⟩
          simpa using hsign
      · split at h
        · next hdigit =>
            exact ⟨[], byte, bytes, .inl rfl, isDigit_iff.mp hdigit,
              (accepts_exponentDigits bytes).mp h, rfl⟩
        · cases h
  · rintro ⟨sign, first, rest, hsign, hfirst, hrest, rfl⟩
    have hunsigned : exponentSign.accepts (first :: rest) = true :=
      (accepts_exponentSign _).mpr ⟨first, rest, rfl, hfirst, hrest⟩
    obtain rfl | rfl | rfl := hsign
    · have hplus : ¬ (first = 0x2B ∨ first = 0x2D) := by
        rintro (rfl | rfl)
        · exact not_isDigit.2.2.2.1 hfirst
        · exact not_isDigit.2.2.2.2 hfirst
      rw [List.nil_append, accepts_cons, next, if_neg hplus, if_pos (isDigit_iff.mpr hfirst)]
      exact (accepts_exponentDigits rest).mpr hrest
    · exact hunsigned
    · exact hunsigned

theorem isExponent_cons {bytes : List UInt8} :
  IsExponent (byte :: bytes) ↔ (byte = 0x65 ∨ byte = 0x45) ∧ exponent.accepts bytes = true
  := by
  rw [accepts_exponent]
  constructor
  · intro h
    cases h with
    | digits e_or_E plus_or_minus digit digits =>
      exact ⟨e_or_E, _, _, _, plus_or_minus, digit, digits, rfl⟩
  · rintro ⟨he, sign, first, rest, hsign, hfirst, hrest, rfl⟩
    exact .digits he hsign hfirst hrest

/-- A state that may end, and that an `e` leads on from, accepts exponents. -/
theorem accepts_of_isExponent {number : Number} (hend : number.complete = true)
    (he : ∀ e, e = 0x65 ∨ e = 0x45 → number.next e = some exponent) {bytes : List UInt8}
    (h : IsExponent bytes) :
  number.accepts bytes = true
  := by
  cases bytes with
  | nil => exact hend
  | cons byte bytes =>
    obtain ⟨hbyte, haccepts⟩ := isExponent_cons.mp h
    rw [accepts_cons, he byte hbyte]
    exact haccepts

/-! ### Fractions -/

/-- Digits in a row that leave the state as it is. -/
theorem accepts_append {number : Number} (h : ∀ byte, IsDigit byte → number.next byte = some number)
    {digits : List UInt8} (hdigits : ∀ byte ∈ digits, IsDigit byte) (bytes : List UInt8) :
  number.accepts (digits ++ bytes) = number.accepts bytes
  := by
  induction digits with
  | nil => rfl
  | cons digit digits ih =>
    rw [List.forall_mem_cons] at hdigits
    rw [List.cons_append, accepts_cons, h digit hdigits.1]
    exact ih hdigits.2

/-- After all the digits in a row come no further ones. -/
theorem exists_digits :
  ∃ digits later, bytes = digits ++ later ∧ (∀ byte ∈ digits, IsDigit byte)
    ∧ ∀ byte ∈ later.head?, ¬ IsDigit byte
  := by
  induction bytes with
  | nil => exact ⟨[], [], rfl, by simp, by simp⟩
  | cons byte bytes ih =>
    by_cases hdigit : IsDigit byte
    · obtain ⟨digits, later, rfl, hdigits, hlater⟩ := ih
      exact ⟨byte :: digits, later, rfl, List.forall_mem_cons.mpr ⟨hdigit, hdigits⟩, hlater⟩
    · exact ⟨[], byte :: bytes, rfl, by simp, by simpa using hdigit⟩

theorem next_fraction (h : IsDigit byte) : fraction.next byte = some fraction := by
  rw [next, if_pos (isDigit_iff.mpr h)]

theorem accepts_fraction :
  fraction.accepts bytes = true
    ↔ ∃ digits exponent, (∀ byte ∈ digits, IsDigit byte) ∧ IsExponent exponent
      ∧ bytes = digits ++ exponent
  := by
  constructor
  · intro h
    obtain ⟨digits, later, rfl, hdigits, hlater⟩ := exists_digits bytes
    rw [accepts_append (fun _ => next_fraction) hdigits] at h
    refine ⟨digits, later, hdigits, ?_, rfl⟩
    cases later with
    | nil => exact .none
    | cons byte later =>
      have hbyte : ¬ isDigit byte = true := fun hdigit =>
        hlater byte rfl (isDigit_iff.mp hdigit)
      rw [accepts_cons, next, if_neg hbyte] at h
      split at h
      · next he => exact isExponent_cons.mpr ⟨he, h⟩
      · cases h
  · rintro ⟨digits, exponent, hdigits, hexponent, rfl⟩
    rw [accepts_append (fun _ => next_fraction) hdigits]
    apply accepts_of_isExponent rfl _ hexponent
    rintro e (rfl | rfl) <;> rfl

/-- A fraction and an exponent, each of which may be missing. -/
theorem accepts_zero :
  zero.accepts bytes = true
    ↔ ∃ fraction exponent, IsFraction fraction ∧ IsExponent exponent
      ∧ bytes = fraction ++ exponent
  := by
  constructor
  · intro h
    cases bytes with
    | nil => exact ⟨[], [], .none, .none, rfl⟩
    | cons byte bytes =>
      rw [accepts_cons, next] at h
      split at h
      · next hpoint =>
          subst hpoint
          cases bytes with
          | nil => cases h
          | cons first bytes =>
            change dot.accepts (first :: bytes) = true at h
            rw [accepts_cons, next] at h
            split at h
            · next hfirst =>
                obtain ⟨digits, exponent, hdigits, hexponent, rfl⟩ :=
                  (accepts_fraction bytes).mp h
                exact ⟨0x2E :: first :: digits, exponent,
                  .digits (isDigit_iff.mp hfirst) hdigits, hexponent, rfl⟩
            · cases h
      · split at h
        · next he => exact ⟨[], byte :: bytes, .none, isExponent_cons.mpr ⟨he, h⟩, rfl⟩
        · cases h
  · rintro ⟨fraction, exponent, hfraction, hexponent, rfl⟩
    cases hfraction with
    | none =>
      apply accepts_of_isExponent rfl _ hexponent
      rintro e (rfl | rfl) <;> rfl
    | @digits first rest digit digits =>
      change dot.accepts (first :: (rest ++ exponent)) = true
      rw [accepts_cons, next, if_pos (isDigit_iff.mpr digit)]
      exact (accepts_fraction _).mpr ⟨rest, exponent, digits, hexponent, rfl⟩

/-! ### Whole numbers -/

theorem next_integer (h : IsDigit byte) : integer.next byte = some integer := by
  rw [next, if_pos (isDigit_iff.mpr h)]

/-- After its digits, an integer goes on as a zero does. -/
theorem accepts_integer :
  integer.accepts bytes = true
    ↔ ∃ digits later, (∀ byte ∈ digits, IsDigit byte) ∧ zero.accepts later = true
      ∧ bytes = digits ++ later
  := by
  constructor
  · intro h
    obtain ⟨digits, later, rfl, hdigits, hlater⟩ := exists_digits bytes
    rw [accepts_append (fun _ => next_integer) hdigits] at h
    refine ⟨digits, later, hdigits, ?_, rfl⟩
    cases later with
    | nil => rfl
    | cons byte later =>
      have hbyte : ¬ isDigit byte = true := fun hdigit =>
        hlater byte rfl (isDigit_iff.mp hdigit)
      rw [accepts_cons, next, if_neg hbyte] at h
      rw [accepts_cons]
      exact h
  · rintro ⟨digits, later, hdigits, hlater, rfl⟩
    rw [accepts_append (fun _ => next_integer) hdigits]
    cases later with
    | nil => rfl
    | cons byte later =>
      rw [accepts_cons, next] at hlater
      rw [accepts_cons, next]
      split
      · next hdigit =>
          exfalso
          rw [isDigit_iff] at hdigit
          split at hlater
          · next hpoint => exact not_isDigit.1 (hpoint ▸ hdigit)
          · split at hlater
            · next he =>
                obtain rfl | rfl := he
                · exact not_isDigit.2.1 hdigit
                · exact not_isDigit.2.2.1 hdigit
            · cases hlater
      · exact hlater

/-- A digit is zero, or one of the others. -/
theorem isDigit_cases (h : IsDigit byte) :
  byte = 0x30 ∨ 0x31 ≤ byte ∧ byte ≤ 0x39
  := by
  obtain ⟨hlo, hhi⟩ := h
  rw [UInt8.le_iff_toNat_le] at hlo hhi ⊢
  rw [UInt8.le_iff_toNat_le, ← UInt8.toNat_inj]
  have h30 : (0x30 : UInt8).toNat = 48 := rfl
  have h31 : (0x31 : UInt8).toNat = 49 := rfl
  omega

theorem start_digit (h : IsDigit byte) :
  start byte = if byte = 0x30 then zero else integer
  := by
  have hsign : byte ≠ 0x2D := by
    rintro rfl
    exact not_isDigit.2.2.2.2 h
  rw [start, if_neg hsign]

/-- After a sign, a digit is as good as the first byte. -/
theorem next_sign (h : IsDigit byte) : sign.next byte = some (start byte) := by
  rw [next, start_digit h, if_pos (isDigit_iff.mpr h)]
  split <;> rfl

/-- A number without a sign. -/
def IsUnsigned (text : List UInt8) : Prop :=
  ∃ integer fraction exponent, IsInteger integer ∧ IsFraction fraction ∧ IsExponent exponent
    ∧ text = integer ++ (fraction ++ exponent)

theorem accepts_unsigned {first : UInt8} (h : IsDigit first) (rest : List UInt8) :
  (start first).accepts rest = true ↔ IsUnsigned (first :: rest)
  := by
  rw [start_digit h]
  obtain rfl | hnonzero := isDigit_cases h
  · rw [if_pos rfl, accepts_zero]
    constructor
    · rintro ⟨fraction, exponent, hfraction, hexponent, rfl⟩
      exact ⟨[0x30], fraction, exponent, .zero, hfraction, hexponent, rfl⟩
    · rintro ⟨integer, fraction, exponent, hinteger, hfraction, hexponent, heq⟩
      cases hinteger with
      | zero => exact ⟨fraction, exponent, hfraction, hexponent, (List.cons.inj heq).2⟩
      | digits nonzero digits =>
        rw [← (List.cons.inj heq).1] at nonzero
        exact absurd nonzero.1 (by decide)
  · have hzero : first ≠ 0x30 := by
      rintro rfl
      exact absurd hnonzero.1 (by decide)
    rw [if_neg hzero, accepts_integer]
    constructor
    · rintro ⟨digits, later, hdigits, hlater, rfl⟩
      obtain ⟨fraction, exponent, hfraction, hexponent, rfl⟩ := (accepts_zero later).mp hlater
      exact ⟨first :: digits, fraction, exponent, .digits hnonzero hdigits, hfraction, hexponent,
        rfl⟩
    · rintro ⟨integer, fraction, exponent, hinteger, hfraction, hexponent, heq⟩
      have hlater := (accepts_zero _).mpr ⟨fraction, exponent, hfraction, hexponent, rfl⟩
      cases hinteger with
      | zero => exact absurd (List.cons.inj heq).1 hzero
      | @digits first' digits' nonzero digits =>
        exact ⟨digits', _, digits, hlater, (List.cons.inj heq).2⟩

theorem isUnsigned_cons {first : UInt8} {rest : List UInt8} (h : IsUnsigned (first :: rest)) :
  IsDigit first
  := by
  obtain ⟨integer, fraction, exponent, hinteger, -, -, heq⟩ := h
  cases hinteger with
  | zero =>
    rw [(List.cons.inj heq).1]
    decide
  | digits nonzero digits =>
    rw [(List.cons.inj heq).1]
    exact ⟨UInt8.le_trans (by decide : (0x30 : UInt8) ≤ 0x31) nonzero.1, nonzero.2⟩

theorem accepts_sign : sign.accepts bytes = true ↔ IsUnsigned bytes := by
  cases bytes with
  | nil =>
      constructor
      · intro h
        cases h
      · rintro ⟨integer, fraction, exponent, hinteger, -, -, heq⟩
        cases hinteger <;> cases heq
  | cons first rest =>
      rw [accepts_cons]
      constructor
      · intro h
        by_cases hdigit : IsDigit first
        · rw [next_sign hdigit] at h
          exact (accepts_unsigned hdigit rest).mp h
        · have hzero : first ≠ 0x30 := by
            rintro rfl
            exact hdigit (by decide)
          rw [next, if_neg hzero, if_neg (isDigit_iff.not.mpr hdigit)] at h
          cases h
      · intro h
        have hdigit := isUnsigned_cons h
        rw [next_sign hdigit]
        exact (accepts_unsigned hdigit rest).mpr h

/-- The automaton accepts exactly the numbers. -/
theorem isNumber_iff (text : List UInt8) :
  IsNumber text
    ↔ ∃ first rest, text = first :: rest ∧ (first = 0x2D ∨ isDigit first = true)
      ∧ (start first).accepts rest = true
  := by
  constructor
  · rintro ⟨sign, integer, fraction, exponent, hsign, hinteger, hfraction, hexponent, rfl⟩
    have hunsigned : IsUnsigned (integer ++ (fraction ++ exponent)) :=
      ⟨integer, fraction, exponent, hinteger, hfraction, hexponent, rfl⟩
    rw [List.append_assoc, List.append_assoc]
    obtain rfl | rfl := hsign
    · rw [List.nil_append]
      cases htext : integer ++ (fraction ++ exponent) with
      | nil =>
        cases hinteger <;> cases htext
      | cons first rest =>
        rw [htext] at hunsigned
        have hdigit := isUnsigned_cons hunsigned
        exact ⟨first, rest, rfl, .inr (isDigit_iff.mpr hdigit),
          (accepts_unsigned hdigit rest).mpr hunsigned⟩
    · exact ⟨0x2D, _, rfl, .inl rfl, (accepts_sign _).mpr hunsigned⟩
  · rintro ⟨first, rest, rfl, rfl | hdigit, haccepts⟩
    · obtain ⟨integer, fraction, exponent, hinteger, hfraction, hexponent, rfl⟩ :=
        (accepts_sign rest).mp haccepts
      exact ⟨[0x2D], integer, fraction, exponent, .inr rfl, hinteger, hfraction, hexponent,
        by simp⟩
    · obtain ⟨integer, fraction, exponent, hinteger, hfraction, hexponent, heq⟩ :=
        (accepts_unsigned (isDigit_iff.mp hdigit) rest).mp haccepts
      exact ⟨[], integer, fraction, exponent, .inl rfl, hinteger, hfraction, hexponent,
        by simpa using heq⟩

end Number

end Lazybox
