import Mathlib.Data.List.Basic

/-!
# Sources that are read in pieces

A source hands out a stream in pieces of its own choosing: one read returns what it has of the
next piece, and no more than was asked for.  A read that is not empty tells nothing about the pieces
still to come; an empty one tells that the stream is over.  What reads return in total does not
depend on the pieces, and the rules here say so: `readExact` and every loop of reads is described by
the stream alone.
-/

universe u

/-- A stream in pieces, none of them empty. -/
structure Source (α : Type u) where
  pieces : List (List α)
  nonempty : ∀ piece ∈ pieces, piece ≠ []

namespace Source

variable {α : Type u}

/-- The stream that is still to be read. -/
def stream (src : Source α) : List α := src.pieces.flatten

/-- The source with nothing left. -/
def exhausted : Source α := ⟨[], by simp⟩

/-- One read of at most `want`. -/
def read (src : Source α) (want : ℕ) : List α × Source α :=
  match src with
  | ⟨[], _⟩ => ([], exhausted)
  | ⟨piece :: pieces, h⟩ =>
      if hlen : piece.length ≤ want then
        (piece, ⟨pieces, fun p hp => h p (List.mem_cons_of_mem _ hp)⟩)
      else
        (piece.take want, ⟨piece.drop want :: pieces, by
          intro p hp
          obtain rfl | hp := List.mem_cons.mp hp
          · simpa using hlen
          · exact h p (List.mem_cons_of_mem _ hp)⟩)

/-- Read until `want` are there, or the stream is over. -/
def readExact (src : Source α) (want : ℕ) : Option (List α × Source α) :=
  if want = 0 then
    some ([], src)
  else if 0 < (src.read want).1.length then
    ((src.read want).2.readExact (want - (src.read want).1.length)).map fun rest =>
      ((src.read want).1 ++ rest.1, rest.2)
  else
    none
termination_by want

/-- What is read and what is left make up the stream. -/
theorem read_append (src : Source α) (want : ℕ) :
  (src.read want).1 ++ (src.read want).2.stream = src.stream
  := by
  obtain ⟨pieces, h⟩ := src
  cases pieces with
  | nil => rfl
  | cons piece pieces =>
    rw [read]
    split
    · rfl
    · simp [stream, ← List.append_assoc]

theorem length_read_le (src : Source α) (want : ℕ) :
  (src.read want).1.length ≤ want
  := by
  obtain ⟨pieces, h⟩ := src
  cases pieces with
  | nil => apply Nat.zero_le
  | cons piece pieces =>
    rw [read]
    split
    · assumption
    · apply List.length_take_le

variable {want : ℕ} {src : Source α}

/-- A read returns nothing only when nothing is asked for or the stream is over. -/
theorem length_read_pos (hwant : 0 < want) (h : src.stream ≠ []) :
  0 < (src.read want).1.length
  := by
  obtain ⟨pieces, hnonempty⟩ := src
  cases pieces with
  | nil => exact absurd rfl h
  | cons piece pieces =>
    have hpiece := List.length_pos_iff.mpr (hnonempty piece List.mem_cons_self)
    rw [read]
    split
    · apply hpiece
    · rw [List.length_take]
      omega

/-- Reading exactly `want` of a stream that has them returns them, whatever the pieces. -/
theorem readExact_of_le (src : Source α) (h : want ≤ src.stream.length) :
  ∃ rest, src.readExact want = some (src.stream.take want, rest)
    ∧ rest.stream = src.stream.drop want
  := by
  induction want using Nat.strongRecOn generalizing src with
  | ind want ih =>
    rw [readExact]
    by_cases hwant : want = 0
    · subst hwant
      exact ⟨src, by simp, by simp⟩
    · have hpos : 0 < (src.read want).1.length := by
        apply length_read_pos (by omega)
        rintro hnil
        rw [hnil] at h
        exact hwant (Nat.le_zero.mp h)
      have hle := src.length_read_le want
      have happend := src.read_append want
      rw [if_neg hwant, if_pos hpos]
      obtain ⟨rest, hread, hrest⟩ := ih (want - (src.read want).1.length) (by omega)
        (src.read want).2 (by
          rw [← happend, List.length_append] at h
          omega)
      refine ⟨rest, ?_, ?_⟩
      · rw [hread, Option.map_some, ← happend, List.take_append, List.take_of_length_le hle]
      · rw [hrest, ← happend, List.drop_append, List.drop_of_length_le hle, List.nil_append]

/-- Reading exactly `want` of a stream that has fewer fails. -/
theorem readExact_of_lt (src : Source α) (h : src.stream.length < want) :
  src.readExact want = none
  := by
  induction want using Nat.strongRecOn generalizing src with
  | ind want ih =>
    have happend := congrArg List.length (src.read_append want)
    rw [List.length_append] at happend
    rw [readExact, if_neg (by omega)]
    split
    · rw [ih (want - (src.read want).1.length) (by omega) (src.read want).2 (by omega)]
      rfl
    · rfl

theorem readExact_eq_some
    {rest : Source α} {got : List α} (h : src.readExact want = some (got, rest)) :
  got.length = want ∧ got ++ rest.stream = src.stream
  := by
  obtain hlt | hle := Nat.lt_or_ge src.stream.length want
  · rw [src.readExact_of_lt hlt] at h
    cases h
  · obtain ⟨rest', hread, hrest⟩ := src.readExact_of_le hle
    rw [hread] at h
    cases h
    exact ⟨List.length_take_of_le hle, by rw [hrest, List.take_append_drop]⟩

/-- Reading exactly the length of the first part of a stream returns that part. -/
theorem readExact_append {got later : List α} (h : src.stream = got ++ later) :
  ∃ rest, src.readExact got.length = some (got, rest) ∧ rest.stream = later
  := by
  obtain ⟨rest, hread, hrest⟩ := src.readExact_of_le (by simp [h] : got.length ≤ src.stream.length)
  refine ⟨rest, ?_, ?_⟩
  · rw [hread, h, List.take_left]
  · rw [hrest, h, List.drop_left]

end Source
