import Mathlib.Data.List.DropRight
import Mathlib.Data.List.Infix

/-!
# Words of a text

Of the characters some go on with a word.  A part of a text is a word when no such character
stands right before it or right after it; and a part that is not is inside a longer word, the one
that goes on to the left and to the right for as long as there are such characters.
-/

universe u

variable {α : Type u} (joins : α → Bool)

/-- A part of a text that no character goes on with. -/
def WordIn (word text : List α) : Prop :=
  ∃ before after, text = before ++ word ++ after ∧ before.getLast?.any joins = false
    ∧ after.head?.any joins = false

/-- A part of a text that is inside a longer word. -/
def InLongerWord (part text : List α) : Prop :=
  ∃ left right, (left ≠ [] ∨ right ≠ []) ∧ (∀ c ∈ left ++ right, joins c)
    ∧ WordIn joins (left ++ part ++ right) text

variable {text : List α}

theorem wordIn_iff_exists_index {word : List α} :
  WordIn joins word text
    ↔ ∃ i ∈ List.range (text.length + 1), word <+: text.drop i
      ∧ (text.take i).getLast?.any joins = false
      ∧ (text.drop (i + word.length)).head?.any joins = false
  := by
  constructor
  · rintro ⟨before, after, rfl, hbefore, hafter⟩
    use before.length
    rw [List.append_assoc, List.drop_left, List.take_left, List.drop_append, List.drop_of_length_le,
      List.nil_append, Nat.add_sub_cancel_left, List.drop_left]
    · refine ⟨?_, List.prefix_append _ _, hbefore, hafter⟩
      rw [List.mem_range, List.length_append]
      omega
    · omega
  · rintro ⟨i, -, ⟨after, hafter⟩, hleft, hright⟩
    use text.take i, after
    refine ⟨?_, hleft, ?_⟩
    · rw [List.append_assoc, hafter, List.take_append_drop]
    · rw [← List.drop_drop, ← hafter, List.drop_left] at hright
      apply hright

/-- The ways to cut a text in three are looked through by two lengths. -/
theorem exists_parts_iff {P : List α → List α → List α → Prop} :
  (∃ before part after, text = before ++ part ++ after ∧ P before part after)
    ↔ ∃ i ∈ List.range (text.length + 1), ∃ j ∈ List.range (text.length + 1),
        P (text.take i) ((text.drop i).take j) (text.drop (i + j))
  := by
  constructor
  · rintro ⟨before, part, after, rfl, h⟩
    refine ⟨before.length, ?_, part.length, ?_, ?_⟩
    · rw [List.mem_range, List.append_assoc, List.length_append]
      omega
    · rw [List.mem_range, List.length_append, List.length_append]
      omega
    · rw [← List.length_append, List.drop_left, List.append_assoc, List.take_left, List.drop_left,
        List.take_left]
      apply h
  · rintro ⟨i, -, j, -, h⟩
    refine ⟨_, _, _, ?_, h⟩
    rw [← List.drop_drop, List.append_assoc, List.take_append_drop, List.take_append_drop]

instance [DecidableEq α] (word text : List α) : Decidable (WordIn joins word text) :=
  decidable_of_iff' _ (wordIn_iff_exists_index joins)

variable {joins}

theorem WordIn.infix {word : List α} (h : WordIn joins word text) :
  word <:+: text
  := by
  obtain ⟨before, after, rfl, -, -⟩ := h
  use before, after

/-- What is left of a word does not go on with it. -/
theorem any_getLast?_rdropWhile (text : List α) :
  (text.rdropWhile joins).getLast?.any joins = false
  := by
  cases h : text.rdropWhile joins with
  | nil => rfl
  | cons c rest =>
    have hne : text.rdropWhile joins ≠ [] := by
      rw [h]
      apply List.cons_ne_nil
    have hlast := List.rdropWhile_last_not joins text hne
    rw [← h, List.getLast?_eq_some_getLast hne]
    simpa using hlast

theorem any_head?_dropWhile (text : List α) :
  (text.dropWhile joins).head?.any joins = false
  := by
  have h := List.head?_dropWhile_not joins text
  cases hhead : (text.dropWhile joins).head? with
  | none => rfl
  | some c =>
    rw [hhead] at h
    simpa using h

/-- A part of a text is a word of it, or inside a longer one. -/
theorem infix_iff_word (joins : α → Bool) {part : List α} :
  part <:+: text ↔ WordIn joins part text ∨ InLongerWord joins part text
  := by
  constructor
  · rintro ⟨before, after, rfl⟩
    have hword : WordIn joins (before.rtakeWhile joins ++ part ++ after.takeWhile joins)
        (before ++ part ++ after) := by
      use before.rdropWhile joins, after.dropWhile joins
      refine ⟨?_, any_getLast?_rdropWhile before, any_head?_dropWhile after⟩
      calc before ++ part ++ after
          = (before.rdropWhile joins ++ before.rtakeWhile joins) ++ part
              ++ (after.takeWhile joins ++ after.dropWhile joins) := by
            rw [List.rdropWhile_append_rtakeWhile, List.takeWhile_append_dropWhile]
        _ = before.rdropWhile joins ++ (before.rtakeWhile joins ++ part ++ after.takeWhile joins)
              ++ after.dropWhile joins := by
            simp only [List.append_assoc]
    by_cases hends : before.rtakeWhile joins = [] ∧ after.takeWhile joins = []
    · left
      rw [hends.1, hends.2, List.nil_append, List.append_nil] at hword
      apply hword
    · right
      refine ⟨_, _, not_and_or.mp hends, ?_, hword⟩
      intro c hc
      obtain hc | hc := List.mem_append.mp hc
      · apply List.mem_rtakeWhile_imp hc
      · apply List.mem_takeWhile_imp hc
  · rintro (hword | ⟨left, right, -, -, hword⟩)
    · apply hword.infix
    · apply List.IsInfix.trans _ hword.infix
      use left, right
