import Lazybox.Epics.CycleBlame

/-!
# What holds a merge

The predecessors that hold a member's merge are named three times: by the merge order of a snapshot,
by the status of a member that could be merged, and by the gate of the automatic merge, which goes
over the records that are not archived.  A member of one of these is held by the same predecessors
in all three places.
-/

namespace Lazybox.Epics

/-- A record as the store has it. -/
structure StoredEpic extends EpicRecord where
  archived : Bool
deriving DecidableEq, Repr

def heldByIn (records : List StoredEpic) (workspaces : List Workspace) (key : WorkspaceKey) :
    List WorkspaceKey :=
  sortedKeys ((records.filter fun record => !record.archived).flatMap fun record =>
    heldBy (resolvedGraph record.toEpicRecord workspaces) key)

/-- The members that name one as a predecessor. -/
def mergedSuccessors (records : List StoredEpic) (workspaces : List Workspace)
    (merged : WorkspaceKey) : List WorkspaceKey :=
  sortedKeys ((records.filter fun record => !record.archived).flatMap fun record =>
    let resolved := resolvedGraph record.toEpicRecord workspaces
    resolved.members.filter fun member =>
      member ≠ merged ∧ merged ∈ resolved.mergeAfter member)

/-- The members that have a live pull request. -/
def prMembers (resolved : Resolved) : List WorkspaceKey :=
  resolved.members.filter resolved.hasPr

/-- The predecessors of a member, as far as both have a live pull request. -/
def landsAfter (resolved : Resolved) (m : WorkspaceKey) : List WorkspaceKey :=
  if m ∈ prMembers resolved then (resolved.mergeAfter m).filter (· ∈ prMembers resolved) else []

/-! ### The merge order -/

theorem foldl_push_eq {keys members : List WorkspaceKey} (h : (members ++ keys).Nodup) :
  keys.foldl push members = members ++ keys
  := by
  induction keys generalizing members with
  | nil => rw [List.foldl_nil, List.append_nil]
  | cons key keys ih =>
    have hnew : key ∉ members := by
      intro hkey
      apply (List.nodup_append.mp h).2.2 key hkey key List.mem_cons_self rfl
    rw [List.append_cons] at h ⊢
    rw [List.foldl_cons, push, if_neg hnew, ih h]

theorem perm_inOrder (keys : List WorkspaceKey) :
  (inOrder keys).Perm keys
  := List.perm_insertionSort _ _

section MergeOrder

variable (record : EpicRecord) (workspaces : List Workspace)

theorem isGraph_landsAfter :
  IsGraph (prMembers (resolvedGraph record workspaces))
    (landsAfter (resolvedGraph record workspaces))
  := isGraph_mergeOrder record workspaces

/-- The members in the order they may land, those caught in a cycle last. -/
def landingOrder (resolved : Resolved) : List WorkspaceKey :=
  let levels := waves (prMembers resolved) (landsAfter resolved)
  levels.2.1 ++ inOrder levels.2.2

theorem perm_landingOrder :
  (landingOrder (resolvedGraph record workspaces)).Perm
    (prMembers (resolvedGraph record workspaces))
  := by
  have hgraph := isGraph_landsAfter record workspaces
  exact ((perm_inOrder _).append_left _).trans (perm_waves hgraph)

theorem mergeOrder_eq :
  mergeOrder (resolvedGraph record workspaces)
    = (landingOrder (resolvedGraph record workspaces)).map fun key =>
      ⟨key, heldBy (resolvedGraph record workspaces) key⟩
  := by
  have hnodup : (landingOrder (resolvedGraph record workspaces)).Nodup := by
    rw [(perm_landingOrder record workspaces).nodup_iff]
    exact (isGraph_landsAfter record workspaces).nodup
  exact congrArg _ (foldl_push_eq hnodup)

theorem map_key_mergeOrder :
  (mergeOrder (resolvedGraph record workspaces)).map MergeOrderEntry.key
    = landingOrder (resolvedGraph record workspaces)
  := by
  rw [mergeOrder_eq, List.map_map]
  apply List.map_id

/-- Without a cycle, a member comes after its predecessors. -/
theorem ordered_landingOrder
    (acyclic : ∀ m, ¬ Dependency.OnCycle (landsAfter (resolvedGraph record workspaces)) m) :
  Dependency.Ordered (landsAfter (resolvedGraph record workspaces))
    (landingOrder (resolvedGraph record workspaces))
  := by
  have hgraph := isGraph_landsAfter record workspaces
  have hcycle : (waves (prMembers (resolvedGraph record workspaces))
      (landsAfter (resolvedGraph record workspaces))).2.2 = [] := by
    rw [List.eq_nil_iff_forall_not_mem]
    intro m hm
    have hmember := (perm_waves hgraph).mem_iff.mp (List.mem_append_right _ hm)
    obtain ⟨c, -, hc⟩ := (undrained_iff_leadsToCycle hgraph hmember).mp hm
    apply acyclic c hc
  rw [landingOrder, hcycle, inOrder, List.insertionSort_nil, List.append_nil]
  apply ordered_waves hgraph

end MergeOrder

/-! ### The status and the gate -/

/-- A member that could be merged has a live pull request, and names what holds it. -/
theorem memberStatus_eq_mergeable {ws : Workspace} {agent : Option AgentState}
    {blockers : List Blocker} {held held' : List WorkspaceKey} {reviewBlocking : Bool}
    (h : memberStatus ws agent blockers held reviewBlocking = .mergeable held') :
  held' = held ∧ ∃ pr, ws.pr = some pr ∧ isTerminal pr.state = false
  := by
  unfold memberStatus at h
  simp only [ite_eq_iff, reduceCtorEq, and_false, false_or] at h
  obtain ⟨hdone, -, -, -, -, h⟩ := h
  split at h
  · next pr hfilter =>
      obtain ⟨hpr, hclosed⟩ := Option.filter_eq_some_iff.mp hfilter
      simp only [ite_eq_iff, reduceCtorEq, and_false, or_false, EpicMemberStatus.mergeable.injEq]
        at h
      refine ⟨h.2.symm, pr, hpr, ?_⟩
      rw [memberDone, hpr] at hdone
      simp_all [isTerminal]
  · simp only [ite_eq_iff, reduceCtorEq, and_false, or_false] at h

variable {workspaces : List Workspace}

variable {key : WorkspaceKey}

theorem mem_heldByIn {records : List StoredEpic} {pred : WorkspaceKey} :
  pred ∈ heldByIn records workspaces key
    ↔ ∃ record ∈ records, record.archived = false
      ∧ pred ∈ heldBy (resolvedGraph record.toEpicRecord workspaces) key
  := by
  rw [heldByIn, mem_sortedKeys, List.mem_flatMap]
  simp [and_assoc]

/-- Who is no member of an epic is not held by it. -/
theorem mem_of_mem_heldBy {record : EpicRecord} {pred : WorkspaceKey}
    (h : pred ∈ heldBy (resolvedGraph record workspaces) key) :
  key ∈ (resolvedGraph record workspaces).members
    ∧ pred ∈ (resolvedGraph record workspaces).mergeAfter key
  := by
  have hpred := List.mem_of_mem_filter h
  refine ⟨?_, hpred⟩
  by_contra hkey
  have hkey' : key ∉ membersOf record workspaces := hkey
  simp [resolvedGraph, hkey', mem_sortedKeys] at hpred

/-- The gate holds a member of one epic by what holds it there. -/
theorem mem_heldByIn_iff {record : EpicRecord} {records : List StoredEpic}
    (live : ⟨record, false⟩ ∈ records)
    (single : ∀ other ∈ records, other.archived = false →
      key ∈ (resolvedGraph other.toEpicRecord workspaces).members → other.toEpicRecord = record)
    (pred : WorkspaceKey) :
  pred ∈ heldByIn records workspaces key ↔ pred ∈ heldBy (resolvedGraph record workspaces) key
  := by
  rw [mem_heldByIn]
  constructor
  · rintro ⟨other, hother, harchived, hpred⟩
    have hsame := single other hother harchived (mem_of_mem_heldBy hpred).1
    rwa [hsame] at hpred
  · intro hpred
    use ⟨record, false⟩, live, rfl

/-- The merge order lists the members with a live pull request, each once, and after its
predecessors unless these form a cycle; and the merge order, the status and the gate hold a member
by the same predecessors. -/
theorem holds_agree (i : Inputs) (latch : SinceLatch) (now : ℤ) (records : List StoredEpic)
    (live : ⟨i.record, false⟩ ∈ records)
    (single : ∀ key ∈ i.resolved.members, ∀ other ∈ records, other.archived = false →
      key ∈ (resolvedGraph other.toEpicRecord i.workspaces).members →
        other.toEpicRecord = i.record) :
  let snapshot := (i.resolve latch now).1
  (snapshot.mergeOrder.map MergeOrderEntry.key).Perm (prMembers i.resolved)
    ∧ ((∀ m, ¬ Dependency.OnCycle (landsAfter i.resolved) m) →
      ∀ before entry after, snapshot.mergeOrder = before ++ entry :: after →
        ∀ pred ∈ i.resolved.mergeAfter entry.key,
          pred ∈ snapshot.mergeOrder.map MergeOrderEntry.key →
            pred ∈ before.map MergeOrderEntry.key)
    ∧ (∀ entry ∈ snapshot.mergeOrder, ∀ pred,
      pred ∈ entry.heldBy ↔ pred ∈ heldByIn records i.workspaces entry.key)
    ∧ ∀ m ∈ snapshot.members, ∀ held, m.status = .mergeable held →
      (∀ pred, pred ∈ held ↔ pred ∈ heldByIn records i.workspaces m.key)
        ∧ ⟨m.key, held⟩ ∈ snapshot.mergeOrder
  := by
  intro snapshot
  have hentry : ∀ key held, ⟨key, held⟩ ∈ snapshot.mergeOrder
      ↔ key ∈ prMembers i.resolved ∧ held = heldBy i.resolved key := by
    intro key held
    have heq : snapshot.mergeOrder = _ := mergeOrder_eq i.record i.workspaces
    rw [heq, List.mem_map]
    simp only [(perm_landingOrder i.record i.workspaces).mem_iff, MergeOrderEntry.mk.injEq]
    constructor
    · rintro ⟨_, hkey, rfl, rfl⟩
      exact ⟨hkey, rfl⟩
    · rintro ⟨hkey, rfl⟩
      exact ⟨key, hkey, rfl, rfl⟩
  have hgate : ∀ key ∈ prMembers i.resolved, ∀ pred,
      pred ∈ heldBy i.resolved key ↔ pred ∈ heldByIn records i.workspaces key := by
    intro key hkey pred
    symm
    apply mem_heldByIn_iff live (single key (List.mem_of_mem_filter hkey))
  refine ⟨?_, ?_, ?_, ?_⟩
  · apply (List.Perm.of_eq (map_key_mergeOrder i.record i.workspaces)).trans
    apply perm_landingOrder
  · intro acyclic before entry after hsplit pred hpred hlisted
    have hkeys : snapshot.mergeOrder.map MergeOrderEntry.key = landingOrder i.resolved :=
      map_key_mergeOrder i.record i.workspaces
    have hmember : ∀ key ∈ snapshot.mergeOrder.map MergeOrderEntry.key,
        key ∈ prMembers i.resolved := by
      intro key hkey
      rw [hkeys] at hkey
      apply (perm_landingOrder i.record i.workspaces).mem_iff.mp hkey
    have hentered : entry.key ∈ prMembers i.resolved := by
      apply hmember
      rw [hsplit]
      simp
    rw [hsplit, List.map_append, List.map_cons] at hkeys
    apply ordered_landingOrder i.record i.workspaces acyclic _ _ _ hkeys.symm
    have hlands : pred ∈ landsAfter i.resolved entry.key := by
      rw [landsAfter, if_pos hentered, List.mem_filter]
      exact ⟨hpred, decide_eq_true (hmember pred hlisted)⟩
    exact hlands
  · rintro ⟨key, held⟩ hmem pred
    obtain ⟨hkey, rfl⟩ := (hentry key held).mp hmem
    apply hgate key hkey
  · intro m hm held hstatus
    obtain ⟨key, hkey, ws, hws, rfl⟩ := (i.mem_members_iff latch now m).mp hm
    obtain ⟨rfl, pr, hpr, hlive⟩ := memberStatus_eq_mergeable hstatus
    have hlisted : key ∈ prMembers i.resolved := by
      refine List.mem_filter.mpr ⟨hkey, ?_⟩
      have hkey' : key ∈ membersOf i.record i.workspaces := hkey
      have hws' : loaded i.workspaces key = some ws := hws
      simp [Inputs.resolved, resolvedGraph, hkey', hws', hpr, hlive]
    exact ⟨hgate key hlisted, (hentry key _).mpr ⟨hlisted, rfl⟩⟩

/-- Two pull requests, of which the second is to land after the first. -/
def inARow : Inputs where
  record := ⟨"epic", "epic", none, [⟨"a"⟩, ⟨"b"⟩], true⟩
  workspaces := [
    ⟨⟨"a"⟩, "a", some (pullRequest .opened "1" []), [], []⟩,
    ⟨⟨"b"⟩, "b", some (pullRequest .opened "2" ["1"]), [], []⟩]
  agentStates := fun _ => none
  declared := fun _ => none
  latches := ⟨fun _ => none, []⟩

/-- The members are in another epic too, which is archived. -/
theorem holds_agree_inARow :
  let records : List StoredEpic :=
    [⟨inARow.record, false⟩, ⟨⟨"old", "old", none, [⟨"a"⟩, ⟨"b"⟩], true⟩, true⟩]
  ∀ entry ∈ (inARow.resolve (fun _ => none) 0).1.mergeOrder, ∀ pred,
    pred ∈ entry.heldBy ↔ pred ∈ heldByIn records inARow.workspaces entry.key
  := by
  intro records
  have single : ∀ key ∈ inARow.resolved.members, ∀ other ∈ records, other.archived = false →
      key ∈ (resolvedGraph other.toEpicRecord inARow.workspaces).members →
        other.toEpicRecord = inARow.record := by
    decide +kernel
  exact (holds_agree inARow (fun _ => none) 0 records List.mem_cons_self single).2.2.1

end Lazybox.Epics
