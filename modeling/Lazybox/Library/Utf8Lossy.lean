import Lazybox.Library.PrefixRange
import Mathlib.Data.List.Basic

/-!
# Bytes read as text

Bytes are read as UTF-8.  Where they are none, as many of them as could begin a character are read
as one replacement character.  A text is read back from its bytes, and what is read before an ASCII
character does not depend on what follows it.
-/

namespace Utf8Lossy

abbrev Text := List Char

/-- A byte that continues a character. -/
def IsTail (b : ℕ) : Prop := 0x80 ≤ b ∧ b ≤ 0xBF

instance (b : ℕ) : Decidable (IsTail b) := inferInstanceAs (Decidable (_ ∧ _))

/-- The first two bytes of a character of three. -/
def OfThree (a b : ℕ) : Prop :=
  a = 0xE0 ∧ 0xA0 ≤ b ∧ b ≤ 0xBF ∨ 0xE1 ≤ a ∧ a ≤ 0xEF ∧ a ≠ 0xED ∧ IsTail b
    ∨ a = 0xED ∧ 0x80 ≤ b ∧ b ≤ 0x9F

instance (a b : ℕ) : Decidable (OfThree a b) := inferInstanceAs (Decidable (_ ∨ _ ∨ _))

/-- The first two bytes of a character of four. -/
def OfFour (a b : ℕ) : Prop :=
  a = 0xF0 ∧ 0x90 ≤ b ∧ b ≤ 0xBF ∨ 0xF1 ≤ a ∧ a ≤ 0xF3 ∧ IsTail b
    ∨ a = 0xF4 ∧ 0x80 ≤ b ∧ b ≤ 0x8F

instance (a b : ℕ) : Decidable (OfFour a b) := inferInstanceAs (Decidable (_ ∨ _ ∨ _))

def replacement : Char := '\uFFFD'

/-- The last byte of a character, after so many others. -/
def readLast (n read : ℕ) : List ℕ → Char × ℕ
  | b :: _ => if IsTail b then (.ofNat (n * 64 + (b - 0x80)), read + 1) else (replacement, read)
  | [] => (replacement, read)

/-- The last two bytes of a character of four. -/
def readThird (n : ℕ) : List ℕ → Char × ℕ
  | b :: rest => if IsTail b then readLast (n * 64 + (b - 0x80)) 2 rest else (replacement, 1)
  | [] => (replacement, 1)

/-- The bytes of a character of three or four after the first. -/
def readSecond (a : ℕ) : List ℕ → Char × ℕ
  | b :: rest =>
      if OfThree a b then readLast ((a - 0xE0) * 64 + (b - 0x80)) 1 rest
      else if OfFour a b then readThird ((a - 0xF0) * 64 + (b - 0x80)) rest
      else (replacement, 0)
  | [] => (replacement, 0)

/-- What is read from a byte that is no ASCII character on, and how many bytes after it. -/
def readChar (a : ℕ) (rest : List ℕ) : Char × ℕ :=
  if 0xC2 ≤ a ∧ a ≤ 0xDF then readLast (a - 0xC0) 0 rest else readSecond a rest

/-- The text of bytes, the first of which were read already. -/
def readFrom : ℕ → List ℕ → Text
  | _, [] => []
  | skip + 1, _ :: rest => readFrom skip rest
  | 0, b :: rest =>
      if b < 0x80 then .ofNat b :: readFrom 0 rest
      else (readChar b rest).1 :: readFrom (readChar b rest).2 rest

def fromUtf8Lossy (bytes : List UInt8) : Text := readFrom 0 (bytes.map UInt8.toNat)

/-- The bytes of a text. -/
def encode (text : Text) : List UInt8 := text.flatMap String.utf8EncodeChar

/-! ### One character -/

theorem length_readChar_le (a : ℕ) (rest : List ℕ) :
  (readChar a rest).2 ≤ rest.length
  := by
  unfold readChar readSecond readThird readLast
  grind

theorem not_isTail_of_lt {b : ℕ} (h : b < 0x80) :
  ¬IsTail b
  := by
  rw [IsTail]
  omega

section Append

variable {after : List ℕ} (h : ∀ b ∈ after.head?, b < 0x80)

include h

theorem readLast_append (n read : ℕ) (rest : List ℕ) :
  readLast n read (rest ++ after) = readLast n read rest
  := by
  cases rest with
  | cons b rest => rfl
  | nil =>
    cases after with
    | nil => rfl
    | cons d after => exact if_neg (not_isTail_of_lt (h d rfl))

theorem readThird_append (n : ℕ) (rest : List ℕ) :
  readThird n (rest ++ after) = readThird n rest
  := by
  cases rest with
  | cons b rest => rw [List.cons_append, readThird, readThird, readLast_append h]
  | nil =>
    cases after with
    | nil => rfl
    | cons d after => exact if_neg (not_isTail_of_lt (h d rfl))

theorem readSecond_append (a : ℕ) (rest : List ℕ) :
  readSecond a (rest ++ after) = readSecond a rest
  := by
  cases rest with
  | cons b rest =>
    rw [List.cons_append, readSecond, readSecond, readLast_append h, readThird_append h]
  | nil =>
    cases after with
    | nil => rfl
    | cons d after =>
      have hd := h d rfl
      rw [List.nil_append, readSecond, if_neg, if_neg]
      · rfl
      · rw [OfFour, IsTail]
        omega
      · rw [OfThree, IsTail]
        omega

/-- An ASCII character continues nothing. -/
theorem readChar_append (a : ℕ) (rest : List ℕ) :
  readChar a (rest ++ after) = readChar a rest
  := by
  rw [readChar, readChar, readLast_append h, readSecond_append h]

end Append

theorem toNat_ofNat {n : ℕ} (h : n.isValidChar) :
  (Char.ofNat n).toNat = n
  := by
  rw [Char.ofNat, dif_pos h]
  rfl

/-- What a byte may end begins where ASCII ends. -/
theorem le_readLast {n : ℕ} (h : 2 ≤ n) (h' : n < 0x360 ∨ 0x380 ≤ n ∧ n < 0x4400) (read : ℕ)
    (rest : List ℕ) :
  0x80 ≤ (readLast n read rest).1.toNat
  := by
  have hnone : 0x80 ≤ replacement.toNat := by decide
  cases rest with
  | nil => exact hnone
  | cons b rest =>
    rw [readLast]
    split_ifs with hb
    · rw [IsTail] at hb
      have hvalid : (n * 64 + (b - 0x80)).isValidChar := by
        rw [Nat.isValidChar]
        omega
      rw [toNat_ofNat hvalid]
      omega
    · exact hnone

/-- What is read there is no ASCII character. -/
theorem le_readChar (a : ℕ) (rest : List ℕ) :
  0x80 ≤ (readChar a rest).1.toNat
  := by
  have hnone : 0x80 ≤ replacement.toNat := by decide
  rw [readChar]
  split_ifs with htwo
  · apply le_readLast <;> omega
  · cases rest with
    | nil => exact hnone
    | cons b rest =>
      rw [readSecond]
      split_ifs with hthree hfour
      · rw [OfThree, IsTail] at hthree
        apply le_readLast <;> omega
      · rw [OfFour, IsTail] at hfour
        cases rest with
        | nil => exact hnone
        | cons c rest =>
          rw [readThird]
          split_ifs with hc
          · rw [IsTail] at hc
            apply le_readLast <;> omega
          · exact hnone
      · exact hnone

theorem readLast_tail {n b : ℕ} (read : ℕ) (rest : List ℕ) (h : IsTail b) :
  readLast n read (b :: rest) = (.ofNat (n * 64 + (b - 0x80)), read + 1)
  := if_pos h

/-- The bytes of a character are read as that character. -/
theorem readFrom_encode (c : Char) (rest : List ℕ) :
  readFrom 0 (PrefixRange.encode c.toNat ++ rest) = c :: readFrom 0 rest
  := by
  have hc := PrefixRange.toNat_isValidChar c
  have hread {n : ℕ} (h : n = c.toNat) : Char.ofNat n = c := by
    rw [h, Char.ofNat_toNat]
  have htail (n : ℕ) : IsTail (n % 64 + 0x80) := by
    rw [IsTail]
    omega
  rw [PrefixRange.encode]
  generalize c.toNat = v at hc hread
  split_ifs with hone htwo hthree
  · rw [List.singleton_append, readFrom, if_pos (by omega), hread rfl]
  · simp only [List.cons_append, List.nil_append]
    rw [readFrom, if_neg (by omega), readChar, if_pos (by omega), readLast_tail _ _ (htail v)]
    simp only
    rw [readFrom, hread (by omega)]
  · have hsecond : OfThree (v / 4096 + 0xe0) (v / 64 % 64 + 0x80) := by
      rw [OfThree, IsTail]
      omega
    simp only [List.cons_append, List.nil_append]
    rw [readFrom, if_neg (by omega), readChar, if_neg (by omega), readSecond, if_pos hsecond,
      readLast_tail _ _ (htail v)]
    simp only
    rw [readFrom, readFrom, hread (by omega)]
  · have hthree' : ¬OfThree (v / 262144 + 0xf0) (v / 4096 % 64 + 0x80) := by
      rw [OfThree, IsTail]
      omega
    have hsecond : OfFour (v / 262144 + 0xf0) (v / 4096 % 64 + 0x80) := by
      rw [OfFour, IsTail]
      omega
    simp only [List.cons_append, List.nil_append]
    rw [readFrom, if_neg (by omega), readChar, if_neg (by omega), readSecond, if_neg hthree',
      if_pos hsecond, readThird, if_pos (htail _), readLast_tail _ _ (htail v)]
    simp only
    rw [readFrom, readFrom, readFrom, hread (by omega)]

/-! ### Texts -/

theorem readFrom_append {after : List ℕ} (h : ∀ b ∈ after.head?, b < 0x80) {skip : ℕ}
    {bytes : List ℕ} (hskip : skip ≤ bytes.length) :
  readFrom skip (bytes ++ after) = readFrom skip bytes ++ readFrom 0 after
  := by
  induction bytes generalizing skip with
  | nil =>
    rw [List.length_nil, Nat.le_zero] at hskip
    rw [hskip]
    rfl
  | cons b bytes ih =>
    rw [List.length_cons] at hskip
    cases skip with
    | succ skip => exact ih (Nat.le_of_succ_le_succ hskip)
    | zero =>
      rw [List.cons_append, readFrom, readFrom]
      split_ifs
      · rw [ih (Nat.zero_le _), List.cons_append]
      · rw [readChar_append h, ih (length_readChar_le b bytes), List.cons_append]

/-- What is read before an ASCII character does not depend on what follows it. -/
theorem fromUtf8Lossy_append (before : List UInt8) {after : List UInt8}
    (h : ∀ b ∈ after.head?, b < 0x80) :
  fromUtf8Lossy (before ++ after) = fromUtf8Lossy before ++ fromUtf8Lossy after
  := by
  rw [fromUtf8Lossy, List.map_append, readFrom_append]
  · rfl
  · intro n hn
    rw [List.head?_map] at hn
    obtain ⟨b, hb, rfl⟩ := Option.map_eq_some_iff.mp hn
    exact UInt8.lt_iff_toNat_lt.mp (h b hb)
  · apply Nat.zero_le

theorem fromUtf8Lossy_cons {b : UInt8} (h : b < 0x80) (rest : List UInt8) :
  fromUtf8Lossy (b :: rest) = .ofNat b.toNat :: fromUtf8Lossy rest
  := by
  have hb : b.toNat < 0x80 := UInt8.lt_iff_toNat_lt.mp h
  rw [fromUtf8Lossy, List.map_cons, readFrom, if_pos hb]
  rfl

theorem encode_append (s t : Text) :
  encode (s ++ t) = encode s ++ encode t
  := List.flatMap_append

/-- A text is read back from its bytes, whatever follows them. -/
theorem fromUtf8Lossy_encode_append (text : Text) (bytes : List UInt8) :
  fromUtf8Lossy (encode text ++ bytes) = text ++ fromUtf8Lossy bytes
  := by
  induction text with
  | nil => rfl
  | cons c text ih =>
    rw [encode, List.flatMap_cons, List.append_assoc, ← encode, List.cons_append, ← ih,
      fromUtf8Lossy, List.map_append, PrefixRange.utf8EncodeChar_toNat, readFrom_encode]
    rfl

theorem fromUtf8Lossy_encode (text : Text) :
  fromUtf8Lossy (encode text) = text
  := by
  have happend := fromUtf8Lossy_encode_append text []
  rwa [List.append_nil, show fromUtf8Lossy [] = [] from rfl, List.append_nil] at happend

theorem exists_of_mem_readFrom {c : Char} (hc : c.toNat < 0x80) {skip : ℕ} {bytes : List ℕ}
    (h : c ∈ readFrom skip bytes) :
  c.toNat ∈ bytes
  := by
  induction bytes generalizing skip with
  | nil => simp [readFrom] at h
  | cons b bytes ih =>
    cases skip with
    | succ skip => exact List.mem_cons_of_mem _ (ih h)
    | zero =>
      rw [readFrom] at h
      split_ifs at h with hb
      · obtain rfl | h := List.mem_cons.mp h
        · rw [toNat_ofNat]
          · apply List.mem_cons_self
          · left
            omega
        · exact List.mem_cons_of_mem _ (ih h)
      · obtain rfl | h := List.mem_cons.mp h
        · exact absurd (le_readChar b bytes) (Nat.not_le_of_lt hc)
        · exact List.mem_cons_of_mem _ (ih h)

variable {bytes : List UInt8}

/-- An ASCII character that is read is one of the bytes. -/
theorem exists_of_mem_fromUtf8Lossy {c : Char} (hc : c.toNat < 0x80) (h : c ∈ fromUtf8Lossy bytes) :
  ∃ b ∈ bytes, b.toNat = c.toNat
  := List.mem_map.mp (exists_of_mem_readFrom hc h)

/-! ### Bytes of texts -/

/-- Bytes that are those of a text. -/
def IsText (bytes : List UInt8) : Prop := ∃ text, encode text = bytes

theorem IsText.append {bytes' : List UInt8} (h : IsText bytes) (h' : IsText bytes') :
  IsText (bytes ++ bytes')
  := by
  obtain ⟨s, rfl⟩ := h
  obtain ⟨t, rfl⟩ := h'
  use s ++ t
  rw [encode_append]

theorem encode_fromUtf8Lossy (h : IsText bytes) :
  encode (fromUtf8Lossy bytes) = bytes
  := by
  obtain ⟨text, rfl⟩ := h
  rw [fromUtf8Lossy_encode]

/-- A text and what follows it are read one after the other. -/
theorem IsText.fromUtf8Lossy_append (h : IsText bytes) (bytes' : List UInt8) :
  fromUtf8Lossy (bytes ++ bytes') = fromUtf8Lossy bytes ++ fromUtf8Lossy bytes'
  := by
  obtain ⟨text, rfl⟩ := h
  rw [fromUtf8Lossy_encode_append, fromUtf8Lossy_encode]

theorem encodeChar_of_ascii {c : Char} (h : c.toNat < 0x80) :
  (String.utf8EncodeChar c).map UInt8.toNat = [c.toNat]
  := by
  rw [PrefixRange.utf8EncodeChar_toNat, PrefixRange.encode, if_pos]
  omega

/-- The bytes of a character that is no ASCII character are no ASCII characters. -/
theorem le_of_mem_encodeChar {c : Char} (h : 0x80 ≤ c.toNat) {b : UInt8}
    (hb : b ∈ String.utf8EncodeChar c) :
  0x80 ≤ b
  := by
  have hvalue := List.mem_map_of_mem (f := UInt8.toNat) hb
  rw [PrefixRange.utf8EncodeChar_toNat, PrefixRange.encode, if_neg (by omega)] at hvalue
  rw [UInt8.le_iff_toNat_le, show UInt8.toNat 0x80 = 0x80 from rfl]
  split_ifs at hvalue
  all_goals
    simp only [List.mem_cons, List.not_mem_nil, or_false] at hvalue
    omega

theorem isText_ascii (h : ∀ b ∈ bytes, b < 0x80) :
  IsText bytes
  := by
  induction bytes with
  | nil => exact ⟨[], rfl⟩
  | cons b bytes ih =>
    rw [List.forall_mem_cons] at h
    apply @IsText.append [b] bytes _ (ih h.2)
    have hb : b.toNat < 0x80 := UInt8.lt_iff_toNat_lt.mp h.1
    have hvalid : (Char.ofNat b.toNat).toNat = b.toNat := toNat_ofNat (.inl (by omega))
    use [.ofNat b.toNat]
    rw [encode, List.flatMap_singleton]
    have hinjective : Function.Injective UInt8.toNat := fun _ _ => UInt8.toNat_inj.mp
    apply List.map_injective_iff.mpr hinjective
    rw [encodeChar_of_ascii (hvalid.trans_lt hb), hvalid]
    rfl

end Utf8Lossy
