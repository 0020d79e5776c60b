import Lazybox.Library.Dependency

/-!
# Links to a parent

Every node has a parent at most, and the links may form any shape, cycles included.  A node is
rooted when the links lead from it to a node without a parent, which they do exactly when they do
not lead into a cycle.  The nodes of a tree are those that links connect, whichever way they go.
-/

universe u

namespace ParentLinks

variable {α : Type u} (up : α → Option α)

def SitsOn (a b : α) : Prop := up a = some b

/-- Links connect the two nodes. -/
def SameTree : α → α → Prop := Relation.EqvGen (SitsOn up)

/-- The links lead from the last node to a root, and so many nodes are on the way. -/
inductive Rooted (r : α) : ℕ → α → Prop where
  | root (top : up r = none) : Rooted r 1 r
  | link {n : ℕ} {a b : α} (link : SitsOn up b a) (below : Rooted r n a) : Rooted r (n + 1) b

variable {up} {r s a b : α} {n m : ℕ}

/-! ### Rooted nodes -/

theorem Rooted.of_link (h : Rooted up r n b) (hlink : SitsOn up b a) :
  ∃ k, n = k + 1 ∧ Rooted up r k a
  := by
  cases h with
  | root top =>
    rw [SitsOn, top] at hlink
    cases hlink
  | @link k a' _ hlink' below =>
    rw [SitsOn] at hlink hlink'
    rw [hlink, Option.some.injEq] at hlink'
    subst hlink'
    use k

theorem Rooted.unique (h : Rooted up r n a) (h' : Rooted up s m a) :
  r = s ∧ n = m
  := by
  induction h generalizing m with
  | root top =>
    cases h' with
    | root top' => exact ⟨rfl, rfl⟩
    | link hlink below =>
      rw [SitsOn, top] at hlink
      cases hlink
  | link hlink below ih =>
    obtain ⟨k, rfl, hbelow⟩ := h'.of_link hlink
    obtain ⟨hroot, hn⟩ := ih hbelow
    exact ⟨hroot, congrArg Nat.succ hn⟩

variable {l : List α}

/-- A chain of links that ends in a rooted node. -/
theorem Rooted.of_chain (hchain : (a :: l).IsChain (SitsOn up))
    (h : Rooted up r n ((a :: l).getLast (List.cons_ne_nil a l))) :
  Rooted up r (n + l.length) a
  := by
  induction l generalizing a with
  | nil => exact h
  | cons b l ih =>
    rw [List.isChain_cons_cons] at hchain
    rw [List.getLast_cons (List.cons_ne_nil b l)] at h
    rw [List.length_cons, ← Nat.add_assoc]
    apply Rooted.link hchain.1 (ih hchain.2 h)

/-- The nodes on the way to the root, the root last. -/
theorem Rooted.exists_chain (h : Rooted up r n a) :
  ∃ l, (a :: l).IsChain (SitsOn up) ∧ (a :: l).getLast (List.cons_ne_nil a l) = r
    ∧ l.length + 1 = n
  := by
  induction h with
  | root top =>
    use []
    exact ⟨List.isChain_singleton r, rfl, rfl⟩
  | @link n a b hlink below ih =>
    obtain ⟨l, hchain, hlast, hlength⟩ := ih
    use a :: l
    refine ⟨List.isChain_cons_cons.mpr ⟨hlink, hchain⟩, ?_, ?_⟩
    · rwa [List.getLast_cons (List.cons_ne_nil a l)]
    · rw [List.length_cons, hlength]

/-- Along a chain of links from a rooted node, the nodes come closer to the root. -/
theorem Rooted.of_mem_chain (h : Rooted up r n a) (hchain : (a :: l).IsChain (SitsOn up))
    (hb : b ∈ l) :
  ∃ k < n, Rooted up r k b
  := by
  induction l generalizing a n with
  | nil => cases hb
  | cons c l ih =>
    rw [List.isChain_cons_cons] at hchain
    obtain ⟨k, rfl, hbelow⟩ := h.of_link hchain.1
    obtain rfl | hb := List.mem_cons.mp hb
    · exact ⟨k, Nat.lt_succ_self k, hbelow⟩
    · obtain ⟨j, hlt, hrooted⟩ := ih hbelow hchain.2 hb
      exact ⟨j, Nat.lt_succ_of_lt hlt, hrooted⟩

/-- A chain of links from a rooted node meets no node twice. -/
theorem Rooted.nodup_chain (h : Rooted up r n a) (hchain : (a :: l).IsChain (SitsOn up)) :
  (a :: l).Nodup
  := by
  induction l generalizing a n with
  | nil => exact List.nodup_singleton a
  | cons b l ih =>
    rw [List.nodup_cons]
    constructor
    · intro ha
      obtain ⟨k, hlt, hrooted⟩ := h.of_mem_chain hchain ha
      obtain ⟨-, hn⟩ := h.unique hrooted
      omega
    · rw [List.isChain_cons_cons] at hchain
      obtain ⟨k, -, hbelow⟩ := h.of_link hchain.1
      apply ih hbelow hchain.2

/-! ### Cycles -/

theorem Rooted.not_leadsToCycle (h : Rooted up r n a) :
  ¬ Dependency.LeadsToCycle (fun b => (up b).toList) a
  := by
  induction h with
  | root top =>
    rw [Dependency.leadsToCycle_iff, top]
    simp
  | link hlink below ih =>
    rw [Dependency.leadsToCycle_iff, hlink]
    simpa using ih

theorem edge_eq_sitsOn :
  Dependency.Edge (fun b => (up b).toList) = SitsOn up
  := by
  ext a b
  simp [Dependency.Edge, SitsOn]

/-- A chain of links leads to each of its nodes, and from there to its last one. -/
theorem reaches_of_chain (hchain : (a :: l).IsChain (SitsOn up)) (hb : b ∈ a :: l) :
  Relation.ReflTransGen (SitsOn up) a b
    ∧ Relation.ReflTransGen (SitsOn up) b ((a :: l).getLast (List.cons_ne_nil a l))
  := by
  induction l generalizing a b with
  | nil =>
    rw [List.mem_singleton.mp hb]
    exact ⟨.refl, .refl⟩
  | cons c l ih =>
    rw [List.isChain_cons_cons] at hchain
    rw [List.getLast_cons (List.cons_ne_nil c l)]
    obtain rfl | hb := List.mem_cons.mp hb
    · obtain ⟨-, hlast⟩ := ih hchain.2 List.mem_cons_self
      exact ⟨.refl, hlast.head hchain.1⟩
    · obtain ⟨hbefore, hlast⟩ := ih hchain.2 hb
      exact ⟨hbefore.head hchain.1, hlast⟩

/-- A chain of links whose last node is linked to one of the others leads into a cycle. -/
theorem leadsToCycle_of_chain (hchain : (a :: l).IsChain (SitsOn up)) (hb : b ∈ a :: l)
    (hlink : SitsOn up ((a :: l).getLast (List.cons_ne_nil a l)) b) :
  Dependency.LeadsToCycle (fun b => (up b).toList) a
  := by
  obtain ⟨hbefore, hlast⟩ := reaches_of_chain hchain hb
  rw [Dependency.LeadsToCycle, edge_eq_sitsOn]
  use b, hbefore
  rw [Dependency.OnCycle, edge_eq_sitsOn]
  apply Relation.TransGen.tail'_iff.mpr
  use (a :: l).getLast (List.cons_ne_nil a l)

/-! ### Trees -/

theorem Rooted.sameTree (h : Rooted up r n a) :
  SameTree up a r
  := by
  induction h with
  | root top => exact .refl r
  | link hlink below ih => exact .trans _ _ _ (.rel _ _ hlink) ih

theorem SameTree.rooted_iff (h : SameTree up a b) :
  (∃ n, Rooted up r n a) ↔ ∃ n, Rooted up r n b
  := by
  induction h with
  | rel a b hlink =>
    constructor
    · rintro ⟨n, hrooted⟩
      obtain ⟨k, -, hbelow⟩ := hrooted.of_link hlink
      use k
    · rintro ⟨n, hrooted⟩
      use n + 1
      apply Rooted.link hlink hrooted
  | refl a => exact Iff.rfl
  | symm a b h ih => exact ih.symm
  | trans a b c hab hbc ihab ihbc => exact ihab.trans ihbc

/-- The nodes of a tree are those with the same root. -/
theorem Rooted.sameTree_iff (h : Rooted up r n a) :
  SameTree up a b ↔ ∃ m, Rooted up r m b
  := by
  constructor
  · intro hsame
    rw [← hsame.rooted_iff]
    use n
  · rintro ⟨m, hrooted⟩
    exact .trans _ _ _ h.sameTree (.symm _ _ hrooted.sameTree)

end ParentLinks
