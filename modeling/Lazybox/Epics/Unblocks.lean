import Lazybox.Epics.BlockerAges
import Lazybox.Epics.Waves
import Lazybox.Library.Ranking
import Lazybox.Library.Search

/-!
# What a member holds up

How many members wait behind one is counted twice, when an epic is resolved, over its graph, and
again over a snapshot, to rank what is ready.  Both count the other members from which a path of
dependencies leads to the member.
-/

namespace Lazybox.Epics

/-- The members of a snapshot that are blocked by one, as often as they name it. -/
def dependentsIn (snapshot : EpicSnapshot) (key : WorkspaceKey) : List WorkspaceKey :=
  snapshot.members.flatMap fun m => (m.blockedBy.filter (· = key)).map fun _ => m.key

/-- A member puts what is blocked by it on the stack once, so that no more than so many are
taken. -/
def queueFuel (snapshot : EpicSnapshot) : ℕ :=
  (snapshot.members.length + 1) * (snapshot.members.map fun m => m.blockedBy.length).sum

/-- How many members would be unblocked. -/
def unblocks (snapshot : EpicSnapshot) (key : WorkspaceKey) : ℕ :=
  (search (dependentsIn snapshot) key (queueFuel snapshot) []
    (dependentsIn snapshot key).reverse).length

def queueOrder (a b : WorkspaceKey × ℕ) : Ordering :=
  (compare b.2 a.2).then (compare a.1.asStr b.1.asStr)

/-- The members that are ready, with how many each of them would unblock. -/
def readyQueue (snapshot : EpicSnapshot) : List (WorkspaceKey × ℕ) :=
  Ranking.sortBy queueOrder
    ((snapshot.members.filter fun m => m.status = .ready).map fun m =>
      (m.key, unblocks snapshot m.key))

/-- The other members from which a path of dependencies leads to one. -/
def waitingBehind (resolved : Resolved) (key : WorkspaceKey) : Set WorkspaceKey :=
  {m | m ∈ resolved.members ∧ m ≠ key
    ∧ Relation.TransGen (Dependency.Edge resolved.dependsOn) m key}

/-- The search that goes on from a member has nothing left on its stack after so many rounds. -/
def SearchEnds (next : WorkspaceKey → List WorkspaceKey) (start : WorkspaceKey) (fuel : ℕ) : Prop :=
  ((Search.visit next start)^[fuel] ([], (next start).reverse)).2 = []

theorem search_eq_iterate (next : WorkspaceKey → List WorkspaceKey) (start : WorkspaceKey)
    (fuel : ℕ) (seen stack : List WorkspaceKey) :
  search next start fuel seen stack = ((Search.visit next start)^[fuel] (seen, stack)).1
  := by
  induction fuel generalizing seen stack with
  | zero =>
    cases stack with
    | nil => rfl
    | cons node stack => rfl
  | succ fuel ih =>
    cases stack with
    | nil =>
      rw [Search.iterate_visit_nil, search]
    | cons node stack =>
      rw [Function.iterate_succ_apply, Search.visit_cons, search]
      split
      · apply ih
      · apply ih

variable {next : WorkspaceKey → List WorkspaceKey}

/-- With enough rounds, a search over who depends on whom counts those that wait. -/
theorem search_dependents {dependsOn : WorkspaceKey → List WorkspaceKey} (nodes : List WorkspaceKey)
    (hnext : ∀ a b, b ∈ next a ↔ a ∈ dependsOn b) (hnodes : ∀ a, ∀ b ∈ next a, b ∈ nodes)
    {start : WorkspaceKey} {fuel : ℕ} (hfuel : Search.pending next nodes ([], next start) ≤ fuel) :
  SearchEnds next start fuel
    ∧ (search next start fuel [] (next start).reverse).length
      = {m | m ≠ start ∧ Relation.TransGen (Dependency.Edge dependsOn) m start}.ncard
  := by
  obtain ⟨hempty, hlength⟩ := Search.search_over hnodes hfuel
  refine ⟨hempty, ?_⟩
  rw [search_eq_iterate, hlength]
  have hedge : Dependency.Edge next = Function.swap (Dependency.Edge dependsOn) := by
    ext a b
    exact hnext a b
  rw [hedge]
  congr 1
  ext m
  rw [Set.mem_ofPred_eq, Set.mem_ofPred_eq, Relation.transGen_swap]

/-- What every node puts on the stack is bounded, so what a search takes is. -/
theorem pending_le {nodes : List WorkspaceKey} {bound : ℕ} (hbound : ∀ a, (next a).length ≤ bound)
    (start : WorkspaceKey) :
  Search.pending next nodes ([], next start) ≤ (nodes.length + 1) * bound
  := by
  have hle : ∀ n ∈ nodes.map fun a => (next a).length, n ≤ bound := by
    intro n hn
    obtain ⟨a, -, rfl⟩ := List.mem_map.mp hn
    apply hbound
  have hsum := List.sum_le_card_nsmul _ bound hle
  have hstart := hbound start
  rw [List.length_map, nsmul_eq_mul, Nat.cast_id] at hsum
  simp only [Search.pending, List.not_mem_nil, not_false_eq_true, decide_true, List.filter_true]
  rw [Nat.add_mul, Nat.one_mul]
  omega

/-! ### The graph of an epic -/

/-- Who is no member depends on nothing. -/
theorem mem_of_mem_dependsOn {record : EpicRecord} {workspaces : List Workspace}
    {key dep : WorkspaceKey} (h : dep ∈ (resolvedGraph record workspaces).dependsOn key) :
  key ∈ (resolvedGraph record workspaces).members
  := by
  by_contra hkey
  have hkey' : key ∉ membersOf record workspaces := hkey
  simp [resolvedGraph, hkey', mem_sortedKeys] at h

theorem waitingBehind_eq (i : Inputs) (key : WorkspaceKey) :
  waitingBehind i.resolved key
    = {m | m ≠ key ∧ Relation.TransGen (Dependency.Edge i.resolved.dependsOn) m key}
  := by
  ext m
  constructor
  · rintro ⟨-, hne, hpath⟩
    exact ⟨hne, hpath⟩
  · rintro ⟨hne, hpath⟩
    obtain ⟨d, hd, -⟩ := Relation.TransGen.head'_iff.mp hpath
    exact ⟨mem_of_mem_dependsOn hd, hne, hpath⟩

theorem downstreamCount_eq (i : Inputs) (key : WorkspaceKey) :
  SearchEnds (dependents i.resolved.members i.resolved.dependsOn) key
      (i.resolved.members.length * (i.resolved.members.length + 1))
    ∧ downstreamCount i.resolved.members i.resolved.dependsOn key
      = (waitingBehind i.resolved key).ncard
  := by
  rw [waitingBehind_eq, downstreamCount]
  have hnext : ∀ a b, b ∈ dependents i.resolved.members i.resolved.dependsOn a
      ↔ a ∈ i.resolved.dependsOn b := by
    intro a b
    rw [Leveling.mem_dependents]
    constructor
    · rintro ⟨-, hdep⟩
      exact hdep
    · intro hdep
      exact ⟨mem_of_mem_dependsOn hdep, hdep⟩
  apply search_dependents i.resolved.members hnext
  · intro a b hb
    exact (Leveling.mem_dependents.mp hb).1
  · rw [Nat.mul_comm]
    apply pending_le
    intro a
    apply List.length_filter_le

/-! ### A snapshot -/

theorem mem_dependentsIn {snapshot : EpicSnapshot} {key dependent : WorkspaceKey} :
  dependent ∈ dependentsIn snapshot key
    ↔ ∃ m ∈ snapshot.members, m.key = dependent ∧ key ∈ m.blockedBy
  := by
  simp only [dependentsIn, List.mem_flatMap, List.mem_map, List.mem_filter, decide_eq_true_eq]
  constructor
  · rintro ⟨m, hm, _, ⟨hblocked, rfl⟩, rfl⟩
    exact ⟨m, hm, rfl, hblocked⟩
  · rintro ⟨m, hm, rfl, hblocked⟩
    exact ⟨m, hm, key, ⟨hblocked, rfl⟩, rfl⟩

theorem length_dependentsIn_le (snapshot : EpicSnapshot) (key : WorkspaceKey) :
  (dependentsIn snapshot key).length ≤ (snapshot.members.map fun m => m.blockedBy.length).sum
  := by
  rw [dependentsIn, List.length_flatMap]
  apply List.sum_le_sum
  intro m _
  rw [List.length_map]
  apply List.length_filter_le

/-- In the snapshot of an epic, a member is blocked by those it depends on. -/
theorem mem_dependentsIn_resolve (i : Inputs) (latch : SinceLatch) (now : ℤ)
    (key dependent : WorkspaceKey) :
  dependent ∈ dependentsIn (i.resolve latch now).1 key ↔ key ∈ i.resolved.dependsOn dependent
  := by
  rw [mem_dependentsIn]
  constructor
  · rintro ⟨m, hm, rfl, hblocked⟩
    obtain ⟨member, -, ws, -, rfl⟩ := (i.mem_members_iff latch now m).mp hm
    exact hblocked
  · intro hdep
    have hmember : dependent ∈ i.resolved.members := mem_of_mem_dependsOn hdep
    obtain ⟨ws, hws⟩ := Option.isSome_iff_exists.mp (loaded_of_mem_membersOf hmember)
    use i.member dependent ws (i.blockersAt (fun k => (latch k).getD now) dependent)
    refine ⟨(i.mem_members_iff latch now _).mpr ⟨dependent, hmember, ws, hws, rfl⟩, rfl, hdep⟩

theorem unblocks_eq (i : Inputs) (latch : SinceLatch) (now : ℤ) (key : WorkspaceKey) :
  SearchEnds (dependentsIn (i.resolve latch now).1) key (queueFuel (i.resolve latch now).1)
    ∧ unblocks (i.resolve latch now).1 key = (waitingBehind i.resolved key).ncard
  := by
  rw [waitingBehind_eq, unblocks]
  apply search_dependents ((i.resolve latch now).1.members.map EpicMember.key)
    (mem_dependentsIn_resolve i latch now)
  · intro a b hb
    obtain ⟨m, hm, rfl, -⟩ := mem_dependentsIn.mp hb
    apply List.mem_map_of_mem hm
  · rw [queueFuel, ← List.length_map EpicMember.key]
    apply pending_le (length_dependentsIn_le _)

/-- Both counts are the number of other members that wait behind a member, and both searches end,
cycles or not. -/
theorem unblocks_agree (i : Inputs) (latch : SinceLatch) (now : ℤ) :
  let snapshot := (i.resolve latch now).1
  (∀ key, downstreamCount i.resolved.members i.resolved.dependsOn key
      = (waitingBehind i.resolved key).ncard)
    ∧ (readyQueue snapshot).Perm ((snapshot.members.filter fun m => m.status = .ready).map fun m =>
      (m.key, (waitingBehind i.resolved m.key).ncard))
    ∧ ∀ key, SearchEnds (dependents i.resolved.members i.resolved.dependsOn) key
        (i.resolved.members.length * (i.resolved.members.length + 1))
      ∧ SearchEnds (dependentsIn snapshot) key (queueFuel snapshot)
  := by
  intro snapshot
  refine ⟨fun key => (downstreamCount_eq i key).2, ?_, ?_⟩
  · rw [readyQueue]
    apply (Ranking.sortBy_perm _ _).trans
    apply List.Perm.of_eq
    apply List.map_congr_left
    intro m _
    rw [(unblocks_eq i latch now m.key).2]
  · intro key
    exact ⟨(downstreamCount_eq i key).1, (unblocks_eq i latch now key).1⟩

end Lazybox.Epics
