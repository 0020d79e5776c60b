import Lazybox.Library.Dependency
import Mathlib.Algebra.Order.BigOperators.Group.List
import Mathlib.Data.Set.Card

/-!
# Searching a graph with a stack

A search takes a node from its stack; unless it is the node the search began at, or was seen, it is
seen now, and its successors go onto the stack.  No more nodes are taken than there were put, and
each node puts its successors once, so that the stack runs empty; then exactly the other nodes that
a path leads to were seen, each once, cycles and diamonds included.
-/

universe u

namespace Search

open Dependency (Edge)

variable {α : Type u} [DecidableEq α] (next : α → List α) (start : α)

/-- Take a node from the stack, where the nodes that were seen come first. -/
def visit : List α × List α → List α × List α
  | (seen, []) => (seen, [])
  | (seen, node :: stack) =>
      if node = start ∨ node ∈ seen then (seen, stack)
      else (node :: seen, (next node).reverse ++ stack)

/-- The nodes that were seen or are to be taken are reached, and no successor is forgotten. -/
structure Sound (s : List α × List α) : Prop where
  nodup : s.1.Nodup
  others : start ∉ s.1
  reached : ∀ a, a ∈ s.1 ∨ a ∈ s.2 → Relation.TransGen (Edge next) start a
  closed : ∀ a, a = start ∨ a ∈ s.1 → ∀ b ∈ next a, b = start ∨ b ∈ s.1 ∨ b ∈ s.2

/-- How many nodes can still be taken: those on the stack, and the successors of the nodes that
were not seen. -/
def pending (nodes : List α) (s : List α × List α) : ℕ :=
  s.2.length + ((nodes.filter (· ∉ s.1)).map fun a => (next a).length).sum

variable {next start}

theorem visit_cons {seen stack : List α} {node : α} :
  visit next start (seen, node :: stack)
    = if node = start ∨ node ∈ seen then (seen, stack)
      else (node :: seen, (next node).reverse ++ stack)
  := rfl

omit [DecidableEq α] in
theorem sound_start :
  Sound next start ([], (next start).reverse)
  := by
  constructor
  · exact List.nodup_nil
  · exact List.not_mem_nil
  · rintro a (ha | ha)
    · cases ha
    · apply Relation.TransGen.single (List.mem_reverse.mp ha)
  · rintro a (rfl | ha) b hb
    · right
      right
      exact List.mem_reverse.mpr hb
    · cases ha

variable {s : List α × List α}

theorem Sound.visit (h : Sound next start s) :
  Sound next start (visit next start s)
  := by
  obtain ⟨seen, stack⟩ := s
  cases stack with
  | nil => exact h
  | cons node stack =>
    rw [visit_cons]
    split
    · next hskip =>
        constructor
        · exact h.nodup
        · exact h.others
        · intro a ha
          apply h.reached a (ha.imp_right (List.mem_cons_of_mem node))
        · intro a ha b hb
          have hfound := h.closed a ha b hb
          rw [List.mem_cons] at hfound
          obtain rfl | hb | rfl | hb := hfound
          · exact Or.inl rfl
          · exact Or.inr (Or.inl hb)
          · exact hskip.imp_right Or.inl
          · exact Or.inr (Or.inr hb)
    · next htake =>
        rw [not_or] at htake
        have hnode := h.reached node (Or.inr List.mem_cons_self)
        constructor
        · exact List.nodup_cons.mpr ⟨htake.2, h.nodup⟩
        · rw [List.mem_cons, not_or]
          exact ⟨Ne.symm htake.1, h.others⟩
        · intro a ha
          rw [List.mem_cons, List.mem_append, List.mem_reverse] at ha
          obtain (rfl | ha) | ha | ha := ha
          · exact hnode
          · exact h.reached a (Or.inl ha)
          · exact hnode.tail ha
          · exact h.reached a (Or.inr (List.mem_cons_of_mem node ha))
        · intro a ha b hb
          rw [List.mem_cons, List.mem_append, List.mem_reverse]
          rw [List.mem_cons] at ha
          obtain rfl | rfl | ha := ha
          · have hfound := h.closed a (Or.inl rfl) b hb
            rw [List.mem_cons] at hfound
            tauto
          · tauto
          · have hfound := h.closed a (Or.inr ha) b hb
            rw [List.mem_cons] at hfound
            tauto

theorem Sound.iterate (h : Sound next start s) (n : ℕ) :
  Sound next start ((Search.visit next start)^[n] s)
  := by
  induction n with
  | zero => exact h
  | succ n ih =>
    rw [Function.iterate_succ_apply']
    apply ih.visit

omit [DecidableEq α] in
/-- Once the stack is empty, the others that a path leads to were seen. -/
theorem Sound.mem_iff (h : Sound next start s) (empty : s.2 = []) {a : α} :
  a ∈ s.1 ↔ a ≠ start ∧ Relation.TransGen (Edge next) start a
  := by
  constructor
  · intro ha
    refine ⟨?_, h.reached a (Or.inl ha)⟩
    rintro rfl
    apply h.others ha
  · rintro ⟨hne, hpath⟩
    have hfound : a = start ∨ a ∈ s.1 := by
      clear hne
      induction hpath with
      | single hedge => simpa [empty] using h.closed start (Or.inl rfl) _ hedge
      | tail _ hedge ih => simpa [empty] using h.closed _ ih _ hedge
    exact hfound.resolve_left hne

/-! ### The stack runs empty -/

/-- What is not seen yet, when one more is seen. -/
theorem filter_notMem_cons (nodes seen : List α) (node : α) :
  nodes.filter (· ∉ node :: seen) = (nodes.filter (· ∉ seen)).filter (· ≠ node)
  := by
  rw [List.filter_filter]
  apply List.filter_congr
  intro a _
  simp [not_or]

variable {nodes : List α}

theorem sum_filter_not_mem_cons {seen : List α} {node : α} (f : α → ℕ) (hnode : node ∈ nodes)
    (hseen : node ∉ seen) :
  ((nodes.filter (· ∉ node :: seen)).map f).sum + f node
    ≤ ((nodes.filter (· ∉ seen)).map f).sum
  := by
  have hmem : node ∈ nodes.filter (· ∉ seen) := by simp [hnode, hseen]
  have hsublist : (nodes.filter (· ∉ node :: seen)).Sublist
      ((nodes.filter (· ∉ seen)).erase node) := by
    rw [filter_notMem_cons]
    have hself : node ∉ (nodes.filter (· ∉ seen)).filter (· ≠ node) := by simp
    have herase := (List.filter_sublist (p := (· ≠ node))
      (l := nodes.filter (· ∉ seen))).erase node
    rwa [List.erase_of_not_mem hself] at herase
  calc
    ((nodes.filter (· ∉ node :: seen)).map f).sum + f node
      ≤ (((nodes.filter (· ∉ seen)).erase node).map f).sum + f node :=
        Nat.add_le_add_right ((hsublist.map f).sum_le_sum fun _ _ => Nat.zero_le _) _
    _ = ((nodes.filter (· ∉ seen)).map f).sum := by
        rw [Nat.add_comm]
        apply List.sum_map_erase f hmem

theorem pending_visit (hnodes : ∀ a, ∀ b ∈ next a, b ∈ nodes) (hstack : ∀ a ∈ s.2, a ∈ nodes)
    (hne : s.2 ≠ []) :
  pending next nodes (visit next start s) < pending next nodes s
    ∧ ∀ a ∈ (visit next start s).2, a ∈ nodes
  := by
  obtain ⟨seen, stack⟩ := s
  cases stack with
  | nil => exact absurd rfl hne
  | cons node stack =>
    rw [List.forall_mem_cons] at hstack
    rw [visit_cons]
    split
    · refine ⟨?_, hstack.2⟩
      simp [pending]
    · next htake =>
        rw [not_or] at htake
        constructor
        · have hsum :=
            sum_filter_not_mem_cons (fun a => (next a).length) hstack.1 htake.2
          simp only [pending, List.length_append, List.length_reverse, List.length_cons]
          omega
        · intro a ha
          obtain ha | ha := List.mem_append.mp ha
          · exact hnodes node a (List.mem_reverse.mp ha)
          · exact hstack.2 a ha

@[simp]
theorem visit_nil (seen : List α) :
  visit next start (seen, []) = (seen, [])
  := rfl

/-- A search that is over stays as it is. -/
theorem iterate_visit_nil (seen : List α) (n : ℕ) :
  (visit next start)^[n] (seen, []) = (seen, [])
  := Function.iterate_fixed (visit_nil seen) n

theorem visit_empties (hnodes : ∀ a, ∀ b ∈ next a, b ∈ nodes) {n : ℕ}
    (hstack : ∀ a ∈ s.2, a ∈ nodes) (hn : pending next nodes s ≤ n) :
  ((visit next start)^[n] s).2 = []
  := by
  induction n generalizing s with
  | zero =>
    rw [pending] at hn
    apply List.length_eq_zero_iff.mp
    rw [Function.iterate_zero_apply]
    omega
  | succ n ih =>
    rw [Function.iterate_succ_apply]
    obtain ⟨seen, stack⟩ := s
    cases stack with
    | nil => rw [visit_nil, iterate_visit_nil]
    | cons node stack =>
      obtain ⟨hless, hrest⟩ := pending_visit hnodes hstack (List.cons_ne_nil node stack)
      apply ih hrest
      omega

/-- When the stack may run empty, the search is over, and so many other nodes were seen as a path
leads to. -/
theorem search_over (hnodes : ∀ a, ∀ b ∈ next a, b ∈ nodes) {n : ℕ}
    (hn : pending next nodes ([], next start) ≤ n) :
  let ended := (visit next start)^[n] ([], (next start).reverse)
  ended.2 = []
    ∧ ended.1.length = {a | a ≠ start ∧ Relation.TransGen (Edge next) start a}.ncard
  := by
  intro ended
  have hempty : ended.2 = [] := by
    apply visit_empties hnodes
    · intro a ha
      apply hnodes start a (List.mem_reverse.mp ha)
    · simpa [pending] using hn
  refine ⟨hempty, ?_⟩
  have hsound : Sound next start ended := sound_start.iterate n
  have hset : {a | a ≠ start ∧ Relation.TransGen (Edge next) start a} = ended.1.toFinset := by
    ext a
    rw [Finset.mem_coe, List.mem_toFinset, hsound.mem_iff hempty]
    rfl
  rw [hset, Set.ncard_coe_finset, List.toFinset_card_of_nodup hsound.nodup]

end Search
