import Mathlib.Data.List.Destutter
import Mathlib.Data.List.Sort

/-!
# The first element of each key

A list is sorted by a key, with elements of one key kept in the order they had, and of neighbours
with one key only the first is kept.  What is left is the first element of each key, as the list
had them before it was sorted.
-/

universe u v

namespace FirstOfEach

variable {α : Type u} {κ : Type v} [LinearOrder κ] (key : α → κ)

theorem find?_orderedInsert (k : κ) (a : α) (l : List α) :
  (l.orderedInsert (fun a b => key a ≤ key b) a).find? (fun b => key b = k)
    = (a :: l).find? fun b => key b = k
  := by
  induction l with
  | nil => rfl
  | cons b l ih =>
    rw [List.orderedInsert_cons]
    split
    case isTrue => rfl
    case isFalse hba =>
        rw [List.find?_cons, ih, List.find?_cons, List.find?_cons, List.find?_cons]
        by_cases hb : key b = k
        · have ha : key a ≠ k := by
            rintro rfl
            apply hba (le_of_eq hb.symm)
          simp [hb, ha]
        · simp [hb]

/-- Sorting by the key keeps which element is the first of a key. -/
theorem find?_insertionSort (k : κ) (l : List α) :
  (l.insertionSort fun a b => key a ≤ key b).find? (fun b => key b = k)
    = l.find? fun b => key b = k
  := by
  induction l with
  | nil => rfl
  | cons a l ih =>
    rw [List.insertionSort_cons, find?_orderedInsert, List.find?_cons, List.find?_cons, ih]

/-- Among neighbours of one key in a sorted list, the first is kept. -/
theorem mem_destutter'_iff
    {a b : α} {l : List α} (sorted : (a :: l).Pairwise fun a b => key a ≤ key b) :
  b ∈ l.destutter' (fun a b => key a ≠ key b) a
    ↔ (a :: l).find? (fun c => key c = key b) = some b
  := by
  induction l generalizing a with
  | nil =>
    rw [List.destutter'_nil, List.mem_singleton, List.find?_cons]
    by_cases hab : key a = key b
    · simp [hab, eq_comm]
    · simp only [hab, decide_false, List.find?_nil, reduceCtorEq, iff_false]
      rintro rfl
      apply hab rfl
  | cons c l ih =>
    rw [List.pairwise_cons] at sorted
    obtain ⟨hleast, htail⟩ := sorted
    rw [List.destutter'_cons, List.find?_cons]
    split
    case isTrue hac =>
        rw [List.mem_cons, ih htail]
        by_cases hab : key a = key b
        · simp only [hab, decide_true, Option.some.injEq]
          constructor
          · rintro (rfl | hfound)
            · rfl
            · -- an element of this key further on would stand before `c`
              have hb := List.mem_of_find?_eq_some hfound
              have hcb : key c ≤ key b := by
                obtain rfl | hb := List.mem_cons.mp hb
                · apply le_refl
                · apply (List.pairwise_cons.mp htail).1 b hb
              have hca := hleast c List.mem_cons_self
              exact absurd (le_antisymm hca (hcb.trans_eq hab.symm)) hac
          · rintro rfl
            left
            rfl
        · simp only [hab, decide_false, or_iff_right_iff_imp]
          rintro rfl
          cases hab rfl
    case isFalse hac =>
        rw [not_not] at hac
        have hrest : (a :: l).Pairwise fun a b => key a ≤ key b := by
          rw [List.pairwise_cons]
          constructor
          · intro d hd
            apply hleast d (List.mem_cons_of_mem c hd)
          · apply (List.pairwise_cons.mp htail).2
        rw [ih hrest, List.find?_cons, List.find?_cons, hac]
        by_cases hcb : key c = key b
        · simp [hcb]
        · simp [hcb]

/-- What is left of a list, sorted by the key, when of neighbours of one key the first is kept. -/
theorem mem_destutter_insertionSort_iff {b : α} {l : List α} :
  b ∈ (l.insertionSort fun a b => key a ≤ key b).destutter (fun a b => key a ≠ key b)
    ↔ l.find? (fun c => key c = key b) = some b
  := by
  have : Std.Total fun a b => key a ≤ key b := ⟨fun a b => le_total (key a) (key b)⟩
  have : IsTrans α fun a b => key a ≤ key b := ⟨fun _ _ _ => le_trans⟩
  rw [← find?_insertionSort]
  have sorted := List.pairwise_insertionSort (fun a b => key a ≤ key b) l
  cases h : l.insertionSort fun a b => key a ≤ key b with
  | nil => simp
  | cons a rest =>
    rw [h] at sorted
    rw [List.destutter_cons', mem_destutter'_iff key sorted]

end FirstOfEach
