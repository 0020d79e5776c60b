import Mathlib.Data.Fintype.Pigeonhole
import Mathlib.Data.List.Chain
import Mathlib.Data.Set.Finite.Lattice
import Mathlib.Data.Set.Finite.List
import Mathlib.Logic.Relation
import Mathlib.Order.Lattice.Nat

/-!
# Graphs of dependencies

Every node has a list of nodes it depends on.  An order that lists each node after those it depends
on, and that cannot be extended, holds the nodes from which no path leads into a cycle.  The longest
chain below such a node is one edge longer than that of the deepest node it depends on.
-/

universe u

namespace Dependency

variable {α : Type u} (deps : α → List α)

/-- The first node depends on the second. -/
def Edge (a b : α) : Prop := b ∈ deps a

def OnCycle (a : α) : Prop := Relation.TransGen (Edge deps) a a

/-- A path, perhaps of no edges, leads from the node to one on a cycle. -/
def LeadsToCycle (a : α) : Prop :=
  ∃ c, Relation.ReflTransGen (Edge deps) a c ∧ OnCycle deps c

/-- Each node comes after those it depends on. -/
def Ordered (order : List α) : Prop :=
  ∀ before a after, order = before ++ a :: after → ∀ d ∈ deps a, d ∈ before

/-- How many edges the chains have that go down from a node. -/
def chainLengths (a : α) : Set ℕ :=
  {n | ∃ below, (a :: below).IsChain (Edge deps) ∧ below.length = n}

/-- The length of the longest chain below a node, where there is a longest. -/
noncomputable def depth (a : α) : ℕ := sSup (chainLengths deps a)

variable {deps}

/-! ### Cycles -/

variable {a : α}

theorem OnCycle.leadsToCycle (h : OnCycle deps a) :
  LeadsToCycle deps a
  := ⟨a, .refl, h⟩

/-- A node leads to a cycle when one does that it depends on. -/
theorem leadsToCycle_iff :
  LeadsToCycle deps a ↔ ∃ d ∈ deps a, LeadsToCycle deps d
  := by
  constructor
  · rintro ⟨c, hpath, hcycle⟩
    obtain rfl | ⟨d, hd, hpath⟩ := hpath.cases_head
    · obtain ⟨d, hd, hback⟩ := Relation.TransGen.head'_iff.mp hcycle
      exact ⟨d, hd, a, hback, hcycle⟩
    · exact ⟨d, hd, c, hpath, hcycle⟩
  · rintro ⟨d, hd, c, hpath, hcycle⟩
    exact ⟨c, hpath.head hd, hcycle⟩

/-- A path does not leave members that are closed under dependencies. -/
theorem LeadsToCycle.exists_mem
    {members : List α} (hclosed : ∀ m ∈ members, ∀ d ∈ deps m, d ∈ members) (ha : a ∈ members)
    (h : LeadsToCycle deps a) :
  ∃ c ∈ members, OnCycle deps c
  := by
  obtain ⟨c, hpath, hcycle⟩ := h
  refine ⟨c, ?_, hcycle⟩
  clear hcycle
  induction hpath with
  | refl => exact ha
  | tail _ hedge ih => exact hclosed _ ih _ hedge

/-- Where every node of a finite set depends on one of them, all of them lead to a cycle. -/
theorem leadsToCycle_of_forall_exists
    {stuck : Set α} [Finite stuck] (h : ∀ a ∈ stuck, ∃ d ∈ deps a, d ∈ stuck) (ha : a ∈ stuck) :
  LeadsToCycle deps a
  := by
  choose! next hnext hstuck using h
  have hmem : ∀ n, next^[n] a ∈ stuck := by
    intro n
    induction n with
    | zero => exact ha
    | succ n ih =>
      rw [Function.iterate_succ_apply']
      apply hstuck _ ih
  have hpath : ∀ m n, m < n → Relation.TransGen (Edge deps) (next^[m] a) (next^[n] a) := by
    intro m n hlt
    induction n, hlt using Nat.le_induction with
    | base =>
      rw [Nat.succ_eq_add_one, Function.iterate_succ_apply']
      apply Relation.TransGen.single (hnext _ (hmem m))
    | succ n hle ih =>
      rw [Function.iterate_succ_apply']
      apply ih.tail (hnext _ (hmem n))
  -- two of infinitely many steps are at the same node
  obtain ⟨m, n, hne, heq⟩ :=
    Finite.exists_ne_map_eq_of_infinite fun n => (⟨next^[n] a, hmem n⟩ : stuck)
  have heq : next^[m] a = next^[n] a := congrArg Subtype.val heq
  have hreach : ∀ n, Relation.ReflTransGen (Edge deps) a (next^[n] a) := by
    intro n
    obtain rfl | hpos := Nat.eq_zero_or_pos n
    · apply Relation.ReflTransGen.refl
    · apply (hpath 0 n hpos).to_reflTransGen
  obtain hlt | hlt := Nat.lt_or_gt_of_ne hne
  · refine ⟨next^[m] a, hreach m, ?_⟩
    have hcycle := hpath m n hlt
    rwa [← heq] at hcycle
  · refine ⟨next^[n] a, hreach n, ?_⟩
    have hcycle := hpath n m hlt
    rwa [heq] at hcycle

/-! ### Orders -/

theorem ordered_nil :
  Ordered deps []
  := by
  intro before a after h
  simp at h

variable {order : List α}

theorem ordered_concat :
  Ordered deps (order ++ [a]) ↔ Ordered deps order ∧ ∀ d ∈ deps a, d ∈ order
  := by
  constructor
  · intro h
    refine ⟨?_, h order a [] rfl⟩
    rintro before b after rfl
    apply h before b (after ++ [a])
    simp
  · rintro ⟨horder, ha⟩ before b after hsplit
    obtain rfl | ⟨after, c, rfl⟩ := after.eq_nil_or_concat'
    · obtain ⟨rfl, hb⟩ := List.append_inj' hsplit rfl
      obtain rfl : a = b := by simpa using hb
      exact ha
    · rw [← List.cons_append, ← List.append_assoc] at hsplit
      obtain ⟨rfl, -⟩ := List.append_inj' hsplit rfl
      apply horder before b after rfl

/-- What holds of a node when it holds of those it depends on holds of every node of an order. -/
theorem Ordered.induction
    {P : α → Prop} (hstep : ∀ a, (∀ d ∈ deps a, P d) → P a) (h : Ordered deps order) :
  ∀ a ∈ order, P a
  := by
  induction order using List.reverseRecOn with
  | nil => nofun
  | append_singleton order b ih =>
    obtain ⟨horder, hb⟩ := ordered_concat.mp h
    rw [List.forall_mem_append]
    refine ⟨ih horder, ?_⟩
    rw [List.forall_mem_singleton]
    apply hstep b fun d hd => ih horder d (hb d hd)

/-- An order is closed under dependencies. -/
theorem Ordered.mem_of_mem_deps
    (h : Ordered deps order) {d : α} (ha : a ∈ order) (hd : d ∈ deps a) :
  d ∈ order
  := by
  obtain ⟨before, after, rfl⟩ := List.mem_iff_append.mp ha
  apply List.mem_append_left _ (h before a after rfl d hd)

theorem Ordered.not_leadsToCycle (h : Ordered deps order) :
  ∀ a ∈ order, ¬ LeadsToCycle deps a
  := by
  refine h.induction ?_
  intro a hdeps hcycle
  obtain ⟨d, hd, hcycle⟩ := leadsToCycle_iff.mp hcycle
  apply hdeps d hd hcycle

/-- An order of members to which no other can be added leaves out those that lead to a cycle. -/
theorem Ordered.not_mem_iff {members : List α} (h : Ordered deps order)
    (hclosed : ∀ m ∈ members, ∀ d ∈ deps m, d ∈ members)
    (hmaximal : ∀ m ∈ members, (∀ d ∈ deps m, d ∈ order) → m ∈ order) {m : α} (hm : m ∈ members) :
  m ∉ order ↔ LeadsToCycle deps m
  := by
  constructor
  · intro hnot
    have hfinite : Finite {a | a ∈ members ∧ a ∉ order} := by
      apply members.finite_toSet.subset
      intro a ha
      exact ha.1
    refine leadsToCycle_of_forall_exists ?_ (show m ∈ {a | a ∈ members ∧ a ∉ order} from ⟨hm, hnot⟩)
    intro a ha
    by_contra hnone
    push Not at hnone
    apply ha.2 (hmaximal a ha.1 fun d hd => ?_)
    by_contra hstuck
    apply hnone d hd ⟨hclosed a ha.1 d hd, hstuck⟩
  · intro hcycle hmem
    apply h.not_leadsToCycle m hmem hcycle

/-! ### Depth -/

theorem zero_mem_chainLengths (a : α) :
  0 ∈ chainLengths deps a
  := ⟨[], List.isChain_singleton a, rfl⟩

/-- A chain below a node is empty, or goes on below one it depends on. -/
theorem chainLengths_eq (a : α) :
  chainLengths deps a = insert 0 (⋃ d ∈ deps a, Nat.succ '' chainLengths deps d)
  := by
  ext n
  rw [Set.mem_insert_iff]
  simp only [Set.mem_iUnion, Set.mem_image, exists_prop]
  constructor
  · rintro ⟨below, hchain, rfl⟩
    cases below with
    | nil => exact .inl rfl
    | cons d below =>
      rw [List.isChain_cons_cons] at hchain
      exact .inr ⟨d, hchain.1, below.length, ⟨below, hchain.2, rfl⟩, rfl⟩
  · rintro (rfl | ⟨d, hd, m, ⟨below, hchain, rfl⟩, rfl⟩)
    · apply zero_mem_chainLengths
    · exact ⟨d :: below, List.isChain_cons_cons.mpr ⟨hd, hchain⟩, rfl⟩

theorem Ordered.isGreatest_depth (h : Ordered deps order) :
  ∀ a ∈ order, IsGreatest (chainLengths deps a) (depth deps a)
  := by
  refine h.induction ?_
  intro a hdeps
  have hbounded : BddAbove (chainLengths deps a) := by
    rw [chainLengths_eq, bddAbove_insert]
    apply ((deps a).finite_toSet.bddAbove_biUnion).mpr
    intro d hd
    have hmono : Monotone Nat.succ := fun _ _ => Nat.succ_le_succ
    apply hmono.map_bddAbove ⟨_, (hdeps d hd).2⟩
  exact ⟨Nat.sSup_mem ⟨0, zero_mem_chainLengths a⟩ hbounded, fun n hn => le_csSup hbounded hn⟩

/-- The depth of a node is one more than the greatest of those it depends on, or nothing. -/
theorem Ordered.isGreatest_insert (h : Ordered deps order) (ha : a ∈ order) :
  IsGreatest (insert 0 ((fun d => depth deps d + 1) '' {d | d ∈ deps a})) (depth deps a)
  := by
  have hdeep := h.isGreatest_depth
  obtain ⟨hmem, hle⟩ := hdeep a ha
  rw [chainLengths_eq] at hmem hle
  have hbelow : ∀ d ∈ deps a, depth deps d + 1 ≤ depth deps a := by
    intro d hd
    apply hle
    exact .inr (Set.mem_biUnion hd ⟨_, (hdeep d (h.mem_of_mem_deps ha hd)).1, rfl⟩)
  constructor
  · obtain hzero | hmem := hmem
    · exact .inl hzero
    · simp only [Set.mem_iUnion, Set.mem_image, exists_prop] at hmem
      obtain ⟨d, hd, n, hn, heq⟩ := hmem
      refine .inr ⟨d, hd, le_antisymm (hbelow d hd) ?_⟩
      rw [← heq]
      apply Nat.succ_le_succ ((hdeep d (h.mem_of_mem_deps ha hd)).2 hn)
  · rintro n (rfl | ⟨d, hd, rfl⟩)
    · apply Nat.zero_le
    · apply hbelow d hd

/-- A chain goes through an order backwards. -/
theorem Ordered.depth_lt_length (h : Ordered deps order) :
  ∀ a ∈ order, depth deps a < order.length
  := by
  induction order using List.reverseRecOn with
  | nil => nofun
  | append_singleton order b ih =>
    have hall := h
    obtain ⟨horder, hb⟩ := ordered_concat.mp h
    intro a ha
    rw [List.length_append, List.length_singleton]
    obtain ha | ha := List.mem_append.mp ha
    · apply (ih horder a ha).trans (Nat.lt_succ_self _)
    · obtain rfl := List.mem_singleton.mp ha
      obtain hzero | ⟨d, hd, heq⟩ := (hall.isGreatest_insert (by simp : a ∈ order ++ [a])).1
      · rw [hzero]
        apply Nat.succ_pos
      · rw [← heq]
        apply Nat.succ_lt_succ (ih horder d (hb d hd))

end Dependency
