import Mathlib.Data.List.Basic
import Mathlib.Data.String.Basic

/-!
# Bytes and codes

The bytes of a text determine it.  A code whose words are not empty, and none of which is a prefix
of another, can be read back from the words put one after the other.
-/

universe u v

/-- The bytes of a text. -/
def asBytes (s : String) : List UInt8 := s.toByteArray.data.toList

theorem asBytes_injective :
  Function.Injective asBytes
  := by
  intro s t h
  rw [← String.toByteArray_inj]
  apply ByteArray.ext
  rw [← Array.toList_inj]
  apply h

/-- No word of a code is empty or a prefix of another. -/
structure PrefixCode {α : Type u} {β : Type v} (code : α → List β) : Prop where
  ne_nil : ∀ a, code a ≠ []
  eq_of_prefix : ∀ a b, code a <+: code b → a = b

/-- What is written in a prefix code is read back. -/
theorem PrefixCode.flatMap_injective
    {α : Type u} {β : Type v} {code : α → List β} (h : PrefixCode code) :
  Function.Injective (List.flatMap code)
  := by
  intro l
  induction l with
  | nil =>
    intro l' hl
    cases l' with
    | nil => rfl
    | cons b l' =>
      rw [List.flatMap_cons] at hl
      exact absurd (List.append_eq_nil_iff.mp hl.symm).1 (h.ne_nil b)
  | cons a l ih =>
    intro l' hl
    cases l' with
    | nil =>
      rw [List.flatMap_cons] at hl
      exact absurd (List.append_eq_nil_iff.mp hl).1 (h.ne_nil a)
    | cons b l' =>
      rw [List.flatMap_cons, List.flatMap_cons] at hl
      have hab : a = b := by
        have ha : code a <+: code b ++ l'.flatMap code := by
          rw [← hl]
          apply List.prefix_append
        obtain hpre | hpre := List.prefix_or_prefix_of_prefix ha (List.prefix_append _ _)
        · apply h.eq_of_prefix a b hpre
        · apply (h.eq_of_prefix b a hpre).symm
      subst hab
      rw [ih (List.append_cancel_left hl)]

/-!
## Offsets into a text

A text is read at offsets that count its bytes.  It can be cut at an offset only when the offset
is the length, in bytes, of a text it begins with.
-/

namespace ByteOffset

open String (utf8Len)

/-- The parts of a text before and after an offset, when the text can be cut there. -/
def splitAtByte : ℕ → List Char → Option (List Char × List Char)
  | 0, s => some ([], s)
  | _ + 1, [] => none
  | n + 1, c :: s =>
      if c.utf8Size ≤ n + 1 then
        (splitAtByte (n + 1 - c.utf8Size) s).map fun (before, after) => (c :: before, after)
      else none

def isCharBoundary (s : List Char) (n : ℕ) : Bool := (splitAtByte n s).isSome

/-- The text between two offsets, when it can be cut out. -/
def slice (s : List Char) (start stop : ℕ) : Option (List Char) := do
  let (before, _) ← splitAtByte stop s
  let (_, between) ← splitAtByte start before
  return between

/-- The longest text of at most so many bytes that a text begins with. -/
def takeBytes : ℕ → List Char → List Char
  | _, [] => []
  | n, c :: s => if c.utf8Size ≤ n then c :: takeBytes (n - c.utf8Size) s else []

variable {n m : ℕ} {s t a b : List Char}

/-! ### Cutting -/

theorem splitAtByte_zero (s : List Char) :
  splitAtByte 0 s = some ([], s)
  := by
  cases s with
  | nil => rfl
  | cons c s => rfl

theorem splitAtByte_append (a b : List Char) :
  splitAtByte (utf8Len a) (a ++ b) = some (a, b)
  := by
  induction a with
  | nil => apply splitAtByte_zero
  | cons c a ih =>
    obtain ⟨n, hn⟩ := Nat.exists_eq_add_one.mpr c.utf8Size_pos
    have hlen : utf8Len (c :: a) = utf8Len a + n + 1 := by
      rw [String.utf8Len_cons, hn, Nat.add_assoc]
    rw [hlen, List.cons_append, splitAtByte, if_pos, hn, Nat.add_sub_add_right,
      Nat.add_sub_cancel, ih]
    · rfl
    · omega

theorem splitAtByte_eq_some :
  splitAtByte n s = some (a, b) ↔ s = a ++ b ∧ utf8Len a = n
  := by
  constructor
  · intro h
    induction s generalizing n a with
    | nil =>
      cases n with
      | zero =>
        cases h
        exact ⟨rfl, rfl⟩
      | succ n => cases h
    | cons c s ih =>
      cases n with
      | zero =>
        cases h
        exact ⟨rfl, rfl⟩
      | succ n =>
        rw [splitAtByte] at h
        split at h
        · next hle =>
            obtain ⟨⟨before, after⟩, hsplit, heq⟩ := Option.map_eq_some_iff.mp h
            cases heq
            obtain ⟨rfl, hlen⟩ := ih hsplit
            rw [String.utf8Len_cons, hlen, Nat.sub_add_cancel hle]
            exact ⟨rfl, rfl⟩
        · cases h
  · rintro ⟨rfl, rfl⟩
    apply splitAtByte_append

theorem isCharBoundary_iff :
  isCharBoundary s n ↔ ∃ a b, s = a ++ b ∧ utf8Len a = n
  := by
  rw [isCharBoundary, Option.isSome_iff_exists]
  constructor
  · rintro ⟨⟨a, b⟩, h⟩
    exact ⟨a, b, splitAtByte_eq_some.mp h⟩
  · rintro ⟨a, b, h⟩
    exact ⟨(a, b), splitAtByte_eq_some.mpr h⟩

/-- A text can be cut at what one part of it begins with or what the other one lacks at its end. -/
theorem isCharBoundary_append :
  isCharBoundary (a ++ b) n
    ↔ (∃ passed left, b = passed ++ left ∧ n = utf8Len a + utf8Len passed)
      ∨ ∃ kept lost, a = kept ++ lost ∧ n + utf8Len lost = utf8Len a
  := by
  rw [isCharBoundary_iff]
  constructor
  · rintro ⟨before, after, h, rfl⟩
    obtain ⟨passed, rfl, rfl⟩ | ⟨lost, rfl, -⟩ := List.append_eq_append_iff.mp h
    · left
      exact ⟨passed, after, rfl, String.utf8Len_append _ _⟩
    · right
      exact ⟨before, lost, rfl, (String.utf8Len_append _ _).symm⟩
  · rintro (⟨passed, left, rfl, rfl⟩ | ⟨kept, lost, rfl, hlen⟩)
    · use a ++ passed, left
      exact ⟨(List.append_assoc _ _ _).symm, String.utf8Len_append _ _⟩
    · use kept, lost ++ b
      rw [String.utf8Len_append] at hlen
      exact ⟨List.append_assoc _ _ _, by omega⟩

/-- Of two texts that a text begins with, the shorter one begins the other. -/
theorem prefix_of_utf8Len_le (ha : a <+: s) (hb : b <+: s) (hle : utf8Len a ≤ utf8Len b) :
  a <+: b
  := by
  obtain h | ⟨rest, rfl⟩ := List.prefix_or_prefix_of_prefix ha hb
  · apply h
  · rw [String.utf8Len_append] at hle
    have hrest : rest = [] := by
      rw [← String.utf8Len_eq_zero]
      omega
    subst hrest
    exact ⟨[], by rw [List.append_nil, List.append_nil]⟩

/-! ### Taking bytes -/

/-- What is taken is the longest of the texts that are short enough. -/
theorem isPrefix_takeBytes_iff :
  a <+: takeBytes n s ↔ a <+: s ∧ utf8Len a ≤ n
  := by
  induction s generalizing n a with
  | nil =>
    rw [takeBytes, List.prefix_nil]
    constructor
    · rintro rfl
      exact ⟨rfl, Nat.zero_le n⟩
    · exact And.left
  | cons c s ih =>
    cases a with
    | nil => simp
    | cons d a =>
      rw [takeBytes, List.cons_prefix_cons, String.utf8Len_cons]
      split
      · next hle =>
          rw [List.cons_prefix_cons, ih]
          constructor
          · rintro ⟨rfl, hpre, hlen⟩
            exact ⟨⟨rfl, hpre⟩, by omega⟩
          · rintro ⟨⟨rfl, hpre⟩, hlen⟩
            exact ⟨rfl, hpre, by omega⟩
      · next hle =>
          rw [List.prefix_nil]
          constructor
          · intro h
            cases h
          · rintro ⟨⟨rfl, -⟩, hlen⟩
            omega

theorem takeBytes_isPrefix (n : ℕ) (s : List Char) :
  takeBytes n s <+: s
  := (isPrefix_takeBytes_iff.mp (List.prefix_refl _)).1

theorem utf8Len_takeBytes_le (n : ℕ) (s : List Char) :
  utf8Len (takeBytes n s) ≤ n
  := (isPrefix_takeBytes_iff.mp (List.prefix_refl _)).2

theorem takeBytes_mono (h : m ≤ n) (s : List Char) :
  takeBytes m s <+: takeBytes n s
  := isPrefix_takeBytes_iff.mpr ⟨takeBytes_isPrefix m s, (utf8Len_takeBytes_le m s).trans h⟩

end ByteOffset
