import Mathlib.Data.List.Dedup
import Mathlib.Logic.Relation

/-!
# Ancestry

A node has parents, each of which is younger in a rank, so its ancestors are found in as many
rounds as its rank is.  A node is in the history of another when it is among its ancestors; what
one node has and another has not is counted as of their histories.
-/

universe u

structure Ancestry (α : Type u) where
  parents : α → List α
  rank : α → ℕ
  rank_lt : ∀ {a p : α}, p ∈ parents a → rank p < rank a

namespace Ancestry

variable {α : Type u} (G : Ancestry α)

/-- One node is a parent of the other. -/
def Parent (a p : α) : Prop := p ∈ G.parents a

/-- The ancestors that are found in a number of rounds. -/
def ancestorsWithin : ℕ → α → List α
  | 0, a => [a]
  | n + 1, a => a :: (G.parents a).flatMap (ancestorsWithin n)

def ancestors (a : α) : List α := G.ancestorsWithin (G.rank a) a

theorem mem_ancestorsWithin {n : ℕ} {a b : α} (h : G.rank a ≤ n) :
  b ∈ G.ancestorsWithin n a ↔ Relation.ReflTransGen G.Parent a b
  := by
  induction n generalizing a with
  | zero =>
    rw [ancestorsWithin, List.mem_singleton, Relation.ReflTransGen.cases_head_iff]
    constructor
    · rintro rfl
      left
      rfl
    · rintro (rfl | ⟨p, hp, -⟩)
      · rfl
      · have hlt := G.rank_lt hp
        omega
  | succ n ih =>
    rw [ancestorsWithin, List.mem_cons, List.mem_flatMap, Relation.ReflTransGen.cases_head_iff,
      eq_comm]
    apply or_congr_right
    have hparent : ∀ p ∈ G.parents a, G.rank p ≤ n := by
      intro p hp
      have hlt := G.rank_lt hp
      omega
    constructor
    · rintro ⟨p, hp, hb⟩
      use p, hp
      apply (ih (hparent p hp)).mp hb
    · rintro ⟨p, hp, hb⟩
      use p, hp
      apply (ih (hparent p hp)).mpr hb

theorem mem_ancestors {a b : α} :
  b ∈ G.ancestors a ↔ Relation.ReflTransGen G.Parent a b
  := G.mem_ancestorsWithin (Nat.le_refl _)

@[simp] theorem self_mem_ancestors (a : α) :
  a ∈ G.ancestors a
  := G.mem_ancestors.mpr Relation.ReflTransGen.refl

theorem ancestors_trans {a b c : α} (hb : b ∈ G.ancestors a) (hc : c ∈ G.ancestors b) :
  c ∈ G.ancestors a
  := by
  rw [mem_ancestors] at hb hc ⊢
  apply hb.trans hc

section Count

variable [DecidableEq α]

/-- What the history of one node has and that of the other has not. -/
def without (a base : α) : List α :=
  (G.ancestors a).dedup.filter (· ∉ G.ancestors base)

/-- Nothing is missing from the history of a node exactly when the other is in it. -/
theorem length_without_eq_zero {a base : α} :
  (G.without a base).length = 0 ↔ a ∈ G.ancestors base
  := by
  rw [List.length_eq_zero_iff, without, List.filter_eq_nil_iff]
  constructor
  · intro h
    have ha := h a (List.mem_dedup.mpr (G.self_mem_ancestors a))
    simpa using ha
  · intro ha b hb
    have hbase := G.ancestors_trans ha (List.mem_dedup.mp hb)
    simpa using hbase

end Count

end Ancestry
