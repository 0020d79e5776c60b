import Mathlib.Data.Char
import Mathlib.Order.Lattice
import Mathlib.Tactic.SplitIfs

/-!
# Prefixes as ranges

In a linear order whose elements have successors, but for the greatest one, the lists that start
with a prefix are a range of the lexicographic order: from the prefix on, up to its last element
bumped to the successor.  The greatest elements at the end of the prefix are dropped first, and a
prefix made of them only has no upper bound.

Strings compared byte by byte, in UTF-8, are ordered as their characters are.
-/

universe u

namespace PrefixRange

variable {α : Type u} [LinearOrder α]

/-- `succ` gives the least element above, and nothing for the greatest element. -/
structure Covers (succ : α → Option α) : Prop where
  lt : ∀ a b, succ a = some b → a < b
  least : ∀ a b c, succ a = some b → a < c → b ≤ c
  greatest : ∀ a c, succ a = none → c ≤ a

/-- The upper bound of the lists which start with a list, given last element first. -/
def bump (succ : α → Option α) : List α → Option (List α)
  | [] => none
  | last :: rest =>
      match succ last with
      | some next => some ((next :: rest).reverse)
      | none => bump succ rest

/-- The upper bound of the lists which start with a list. -/
def upperBound (succ : α → Option α) (p : List α) : Option (List α) := bump succ p.reverse

variable {succ : α → Option α}

omit [LinearOrder α] in
theorem bump_append (rest : List α) (a : α) :
  bump succ (rest ++ [a])
    = match bump succ rest with
      | some u => some (a :: u)
      | none => (succ a).map fun next => [next]
  := by
  induction rest with
  | nil =>
    rw [List.nil_append, bump, bump]
    cases succ a with
    | none => rfl
    | some next => rfl
  | cons b rest ih =>
    rw [List.cons_append, bump, bump]
    cases succ b with
    | none => apply ih
    | some next => simp

omit [LinearOrder α] in
theorem upperBound_cons (a : α) (p : List α) :
  upperBound succ (a :: p)
    = match upperBound succ p with
      | some u => some (a :: u)
      | none => (succ a).map fun next => [next]
  := by
  rw [upperBound, List.reverse_cons, bump_append]
  rfl

/-- The lists that start with `p` are those from `p` on below the upper bound. -/
theorem prefix_iff (covers : Covers succ) (p k : List α) :
  p <+: k ↔ ¬ k < p ∧ ∀ u, upperBound succ p = some u → k < u
  := by
  induction p generalizing k with
  | nil => simp [upperBound, bump]
  | cons a p ih =>
    cases k with
    | nil => simp
    | cons b k =>
      rw [List.cons_prefix_cons, List.cons_lt_cons_iff, ih, upperBound_cons]
      cases hp : upperBound succ p with
      | some u =>
        simp only [Option.some.injEq, forall_eq', List.cons_lt_cons_iff]
        constructor
        · rintro ⟨rfl, hle, hlt⟩
          simp [hle, hlt]
        · rintro ⟨hle, hba | ⟨rfl, hlt⟩⟩
          · exact absurd (.inl hba) hle
          · simpa [hlt] using hle
      | none =>
        cases hnext : succ a with
        | none =>
          have hmax := covers.greatest a b hnext
          simp only [Option.map_none, reduceCtorEq, false_implies, implies_true, and_true]
          constructor
          · rintro ⟨rfl, hle⟩
            simpa using hle
          · intro hle
            obtain hba | rfl := lt_or_eq_of_le hmax
            · exact absurd (.inl hba) hle
            · simpa using hle
        | some next =>
          simp only [Option.map_some, reduceCtorEq, false_implies, implies_true, and_true,
            Option.some.injEq, forall_eq', List.cons_lt_cons_iff, List.not_lt_nil,
            and_false, or_false]
          constructor
          · rintro ⟨rfl, hle⟩
            simp [hle, covers.lt a next hnext]
          · rintro ⟨hle, hlt⟩
            obtain hba | rfl | hab := lt_trichotomy b a
            · exact absurd (.inl hba) hle
            · simpa using hle
            · exact absurd hlt (covers.least a next b hnext hab).not_gt

/-! ### Characters -/

/-- The character after a character, skipping the code points of the surrogates. -/
def nextChar (c : Char) : Option Char :=
  let next := if c.toNat + 1 = 0xD800 then 0xE000 else c.toNat + 1
  if next.isValidChar then some (Char.ofNat next) else none

theorem toNat_ofNat {n : ℕ} (h : n.isValidChar) :
  (Char.ofNat n).toNat = n
  := by
  rw [Char.ofNat, dif_pos h]
  rfl

theorem isValidChar_iff (n : ℕ) :
  n.isValidChar ↔ n < 0xD800 ∨ 0xDFFF < n ∧ n < 0x110000
  := Iff.rfl

theorem toNat_isValidChar (c : Char) :
  c.toNat < 0xD800 ∨ 0xDFFF < c.toNat ∧ c.toNat < 0x110000
  := c.valid

theorem covers_nextChar : Covers nextChar
  := by
  have hsome : ∀ a b, nextChar a = some b →
      b.toNat = if a.toNat + 1 = 0xD800 then 0xE000 else a.toNat + 1 := by
    intro a b h
    obtain ⟨hvalid, hb⟩ := Option.ite_none_right_eq_some.mp h
    rw [← Option.some.inj hb]
    apply toNat_ofNat hvalid
  constructor
  · intro a b h
    have hb := hsome a b h
    have ha := toNat_isValidChar a
    change a.toNat < b.toNat
    split at hb <;> omega
  · intro a b c h hac
    have hb := hsome a b h
    have hc := toNat_isValidChar c
    change a.toNat < c.toNat at hac
    change b.toNat ≤ c.toNat
    split at hb <;> omega
  · intro a c h
    have ha := toNat_isValidChar a
    have hc := toNat_isValidChar c
    change c.toNat ≤ a.toNat
    have hinvalid : ¬ (if a.toNat + 1 = 0xD800 then 0xE000 else a.toNat + 1).isValidChar := by
      intro hvalid
      rw [nextChar, if_pos hvalid] at h
      cases h
    rw [isValidChar_iff] at hinvalid
    split at hinvalid <;> omega

/-! ### Bytes -/

/-- The bytes of a code point in UTF-8. -/
def encode (v : ℕ) : List ℕ :=
  if v ≤ 0x7f then [v]
  else if v ≤ 0x7ff then [v / 64 + 0xc0, v % 64 + 0x80]
  else if v ≤ 0xffff then [v / 4096 + 0xe0, v / 64 % 64 + 0x80, v % 64 + 0x80]
  else [v / 262144 + 0xf0, v / 4096 % 64 + 0x80, v / 64 % 64 + 0x80, v % 64 + 0x80]

/-- The bytes of a string in UTF-8. -/
def bytes (s : List Char) : List ℕ :=
  s.flatMap fun c => (String.utf8EncodeChar c).map UInt8.toNat

theorem utf8EncodeChar_toNat (c : Char) :
  (String.utf8EncodeChar c).map UInt8.toNat = encode c.toNat
  := by
  have hc := toNat_isValidChar c
  rw [String.utf8EncodeChar, encode, show c.val.toNat = c.toNat from rfl]
  generalize c.toNat = v at hc ⊢
  split
  · simp
    omega
  · split
    · simp
      omega
    · split
      · simp
        omega
      · simp
        omega

theorem bytes_cons (c : Char) (s : List Char) :
  bytes (c :: s) = encode c.toNat ++ bytes s
  := by
  rw [← utf8EncodeChar_toNat]
  rfl

/-- A smaller code point has smaller bytes, whatever follows. -/
theorem encode_lt {v w : ℕ} (h : v < w) (s t : List ℕ) :
  encode v ++ s < encode w ++ t
  := by
  unfold encode
  split_ifs <;> simp only [List.cons_append, List.nil_append, List.cons_lt_cons_iff] <;> omega

theorem encode_ne_nil (v : ℕ) :
  encode v ≠ []
  := by
  unfold encode
  split_ifs <;> simp

theorem append_lt_append_iff (x s t : List ℕ) :
  x ++ s < x ++ t ↔ s < t
  := by
  induction x with
  | nil => rfl
  | cons a x ih => simp [ih]

/-- Byte by byte, strings are ordered as their characters are. -/
theorem bytes_lt_iff (s t : List Char) :
  bytes s < bytes t ↔ s < t
  := by
  induction s generalizing t with
  | nil =>
    cases t with
    | nil => exact iff_of_false (List.not_lt_nil _) (List.not_lt_nil _)
    | cons d t =>
      obtain ⟨b, bs, hb⟩ := List.exists_cons_of_ne_nil (encode_ne_nil d.toNat)
      rw [bytes_cons, hb]
      exact iff_of_true (List.nil_lt_cons _ _) (List.nil_lt_cons _ _)
  | cons c s ih =>
    cases t with
    | nil => exact iff_of_false (List.not_lt_nil _) (List.not_lt_nil _)
    | cons d t =>
      rw [bytes_cons, bytes_cons, List.cons_lt_cons_iff, ← ih t]
      obtain hlt | rfl | hgt := lt_trichotomy c d
      · exact iff_of_true (encode_lt hlt _ _) (.inl hlt)
      · simp [append_lt_append_iff]
      · apply iff_of_false
        · apply List.lt_asymm (encode_lt (show d.toNat < c.toNat from hgt) _ _)
        · rintro (hlt | ⟨rfl, -⟩)
          · apply lt_asymm hlt hgt
          · apply lt_irrefl _ hgt

end PrefixRange
