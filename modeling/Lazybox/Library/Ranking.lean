import Mathlib.Data.Finset.Card
import Mathlib.Data.Finset.SDiff
import Mathlib.Data.List.Sort
import Mathlib.Data.List.TakeDrop

/-!
# Rankings

A list is sorted by a comparison, where the order of what compares as equal is kept.  When nothing
but equal elements compare as equal, the order of the list does not matter.  The best of a pool are
so many of its elements, or all if there are no more, each ranked above every one that is left.
-/

universe u

namespace Ranking

variable {α : Type u}

/-! ### Sorting -/

def sortBy (cmp : α → α → Ordering) (l : List α) : List α := l.mergeSort fun a b => (cmp a b).isLE

section Sorting

variable (cmp : α → α → Ordering)

theorem sortBy_perm (l : List α) :
  (sortBy cmp l).Perm l
  := List.mergeSort_perm l _

@[simp]
theorem mem_sortBy {a : α} {l : List α} :
  a ∈ sortBy cmp l ↔ a ∈ l
  := (sortBy_perm cmp l).mem_iff

variable [Std.TransCmp cmp]

theorem pairwise_sortBy (l : List α) :
  (sortBy cmp l).Pairwise fun a b => (cmp a b).isLE
  := by
  apply List.pairwise_mergeSort
  · intro a b c hab hbc
    apply Std.TransCmp.isLE_trans hab hbc
  · intro a b
    rw [Bool.or_eq_true]
    cases h : cmp a b with
    | lt => exact Or.inl rfl
    | eq => exact Or.inl rfl
    | gt =>
      right
      rw [@Std.OrientedCmp.eq_swap _ cmp _ b a, h]
      rfl

/-- The order of a list does not matter, where only equal elements compare as equal. -/
theorem sortBy_eq_of_perm {l l' : List α} (h : l.Perm l')
    (distinct : ∀ a ∈ l, ∀ b ∈ l, cmp a b = .eq → a = b) :
  sortBy cmp l = sortBy cmp l'
  := by
  apply List.Perm.eq_of_pairwise _ (pairwise_sortBy cmp l) (pairwise_sortBy cmp l')
  · exact ((sortBy_perm cmp l).trans h).trans (sortBy_perm cmp l').symm
  · intro a b ha hb hab hba
    rw [mem_sortBy] at ha
    rw [mem_sortBy, ← h.mem_iff] at hb
    apply distinct a ha b hb
    apply Std.OrientedCmp.isLE_antisymm hab hba

end Sorting

/-- Sorted by keys that tell elements apart, a list does not depend on how it was listed. -/
theorem insertionSort_eq_of_perm {β : Type*} [LinearOrder β] {key : α → β}
    (injective : Function.Injective key) {l l' : List α} (h : l.Perm l') :
  l.insertionSort (fun a b => key a ≤ key b) = l'.insertionSort fun a b => key a ≤ key b
  := by
  have htotal : Std.Total fun a b => key a ≤ key b := ⟨fun a b => le_total (key a) (key b)⟩
  have htrans : IsTrans α fun a b => key a ≤ key b := ⟨fun a b c => le_trans⟩
  apply List.Perm.eq_of_pairwise _ (List.pairwise_insertionSort _ l)
    (List.pairwise_insertionSort _ l')
  · exact ((List.perm_insertionSort _ l).trans h).trans (List.perm_insertionSort _ l').symm
  · intro a b _ _ hab hba
    apply injective (le_antisymm hab hba)

/-! ### Stability -/

section Stability

variable {r q : α → α → Prop} [DecidableRel r] [Std.Total r] [IsTrans α r]

theorem pairwise_orderedInsert_stable {a : α} {l : List α} (hq : ∀ b ∈ l, q a b)
    (sorted : l.Pairwise fun a b => r a b ∧ (r b a → q a b)) :
  (l.orderedInsert r a).Pairwise fun a b => r a b ∧ (r b a → q a b)
  := by
  induction l with
  | nil => apply List.pairwise_singleton
  | cons b l ih =>
    obtain ⟨hb, hl⟩ := List.pairwise_cons.mp sorted
    rw [List.orderedInsert_cons]
    split
    · next hab =>
        apply List.pairwise_cons.mpr ⟨_, sorted⟩
        intro c hc
        refine ⟨?_, fun _ => hq c hc⟩
        obtain rfl | hc := List.mem_cons.mp hc
        · exact hab
        · exact trans_of r hab (hb c hc).1
    · next hab =>
        apply List.pairwise_cons.mpr ⟨_, ih (fun c hc => hq c (List.mem_cons_of_mem b hc)) hl⟩
        intro c hc
        obtain rfl | hc := (List.mem_orderedInsert r).mp hc
        · exact ⟨(total_of r c b).resolve_left hab, fun h => absurd h hab⟩
        · exact hb c hc

/-- Sorting by one relation keeps the order by another of what the first does not tell apart. -/
theorem pairwise_insertionSort_stable {l : List α} (h : l.Pairwise q) :
  (l.insertionSort r).Pairwise fun a b => r a b ∧ (r b a → q a b)
  := by
  induction l with
  | nil => exact List.Pairwise.nil
  | cons a l ih =>
    obtain ⟨ha, hl⟩ := List.pairwise_cons.mp h
    rw [List.insertionSort_cons]
    apply pairwise_orderedInsert_stable _ (ih hl)
    intro b hb
    apply ha b ((List.mem_insertionSort r).mp hb)

end Stability

/-! ### The best of a pool -/

variable [DecidableEq α]

structure BestOf (below : α → α → Prop) (k : ℕ) (pool best : Finset α) : Prop where
  subset : best ⊆ pool
  card : best.card = min k pool.card
  above : ∀ a ∈ best, ∀ b ∈ pool, b ∉ best → below a b

variable {below : α → α → Prop}

/-- The first elements of a sorted list are the best. -/
theorem bestOf_take {l : List α} (nodup : l.Nodup) (sorted : l.Pairwise below) (k : ℕ) :
  BestOf below k l.toFinset (l.take k).toFinset
  := by
  constructor
  · intro a ha
    rw [List.mem_toFinset] at ha ⊢
    apply List.mem_of_mem_take ha
  · rw [List.toFinset_card_of_nodup nodup,
      List.toFinset_card_of_nodup (nodup.sublist (List.take_sublist k l)), List.length_take]
  · intro a ha b hb hother
    rw [List.mem_toFinset] at ha hb hother
    rw [← List.take_append_drop k l, List.pairwise_append] at sorted
    rw [← List.take_append_drop k l, List.mem_append] at hb
    apply sorted.2.2 a ha b (hb.resolve_left hother)

omit [DecidableEq α] in
theorem bestOf_zero (below : α → α → Prop) (pool : Finset α) :
  BestOf below 0 pool ∅
  := by
  constructor
  · apply Finset.empty_subset
  · simp
  · intro a ha
    cases ha

omit [DecidableEq α] in
theorem BestOf.mono {below' : α → α → Prop} {k : ℕ} {pool best : Finset α}
    (h : BestOf below k pool best) (imp : ∀ a ∈ pool, ∀ b ∈ pool, below a b → below' a b) :
  BestOf below' k pool best
  := by
  constructor
  · apply h.subset
  · apply h.card
  · intro a ha b hb hother
    apply imp a (h.subset ha) b hb (h.above a ha b hb hother)

/-- Where all of a pool but one are the best, an element is among them when another one ranks below
it. -/
theorem BestOf.mem_iff {k : ℕ} {pool best : Finset α} (h : BestOf below k pool best)
    (antisymm : ∀ a ∈ pool, ∀ b ∈ pool, below a b → below b a → a = b) (card : pool.card = k + 1)
    {a : α} (ha : a ∈ pool) :
  a ∈ best ↔ ∃ b ∈ pool, b ≠ a ∧ below a b
  := by
  have hcard : best.card = k := by
    rw [h.card, card]
    apply min_eq_left (Nat.le_succ k)
  constructor
  · intro hbest
    obtain ⟨b, hb, hother⟩ : ∃ b ∈ pool, b ∉ best := by
      apply Finset.exists_mem_notMem_of_card_lt_card
      omega
    use b, hb
    constructor
    · rintro rfl
      contradiction
    · apply h.above a hbest b hb hother
  · rintro ⟨b, hb, hne, hab⟩
    by_contra hother
    have hsubset : best ⊆ pool.erase a := Finset.subset_erase.mpr ⟨h.subset, hother⟩
    have herase : best = pool.erase a := by
      apply Finset.eq_of_subset_of_card_le hsubset
      rw [Finset.card_erase_of_mem ha, card, hcard, Nat.add_sub_cancel]
    apply hne
    apply antisymm b hb a ha _ hab
    apply h.above b _ a ha hother
    rw [herase]
    apply Finset.mem_erase.mpr ⟨hne, hb⟩

end Ranking
