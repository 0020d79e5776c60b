import Lazybox.Epics.CycleBlame
import Lazybox.Epics.BlockerAges
import Lazybox.Library.Keyed
import Lazybox.Library.Ranking

/-!
# The order the workspaces are listed in

The resolver enters the tasks of the workspaces into maps, and of several workspaces that own a task
the one that is listed last is found.  An epic is resolved the same in any order when it does not
matter which of them that is: each other member that owns one of the tasks an edge may lead to owns
one alone, and a task that blocks is outside of the epic with all of its owners or with none.
-/

namespace Lazybox.Epics

def Owns (ws : Workspace) (id : TaskId) : Prop := id ∈ (tasksOf ws).map Task.id

instance (ws : Workspace) (id : TaskId) : Decidable (Owns ws id) :=
  inferInstanceAs (Decidable (id ∈ (tasksOf ws).map Task.id))

/-- The tasks that the tasks of a member name. -/
def namedBy (record : EpicRecord) (workspaces : List Workspace) (ids : Task → List TaskId)
    (key : WorkspaceKey) : List TaskId :=
  if key ∈ membersOf record workspaces then
    (loaded workspaces key).toList.flatMap fun ws => (tasksOf ws).flatMap ids
  else []

/-- The tasks that edges of a kind lead to. -/
def edgeNames (record : EpicRecord) (workspaces : List Workspace) (kind : EdgeKind)
    (key : WorkspaceKey) : List TaskId :=
  match kind with
  | .blocks => namedBy record workspaces Task.blockedBy key
  | .mergeAfter =>
      namedBy record workspaces Task.mergeAfter key
        ++ if record.impliedMergeAfter then namedBy record workspaces Task.blockedBy key else []
  | .contract => namedBy record workspaces Task.contracts key

/-- The members that edges of a kind lead to. -/
def targets (resolved : Resolved) : EdgeKind → WorkspaceKey → List WorkspaceKey
  | .blocks => resolved.dependsOn
  | .mergeAfter => resolved.mergeAfter
  | .contract => resolved.contracts

/-- The parents a workspace has for a task. -/
def parentIn (ws : Workspace) (id : TaskId) : Option TaskId :=
  lastOf ((tasksOf ws).filterMap fun task => task.parent.map (task.id, ·)) id

/-- No two workspaces have different parents for a task, where members are found below an anchor. -/
def ParentsAgree (record : EpicRecord) (workspaces : List Workspace) : Prop :=
  record.anchor.isSome → ∀ a ∈ workspaces, ∀ b ∈ workspaces, ∀ id p q,
    parentIn a id = some p → parentIn b id = some q → p = q

/-- The workspace with a key neither is the member nor another one. -/
def IsOutside (record : EpicRecord) (workspaces : List Workspace) (key other : WorkspaceKey) :
    Prop :=
  other ≠ key ∧ other ∉ membersOf record workspaces

instance (record : EpicRecord) (workspaces : List Workspace) (key other : WorkspaceKey) :
    Decidable (IsOutside record workspaces key other) :=
  inferInstanceAs (Decidable (other ≠ key ∧ other ∉ membersOf record workspaces))

/-- It does not matter which owner of a task is found. -/
structure OwnersAgree (record : EpicRecord) (workspaces : List Workspace) : Prop where
  edges : ∀ kind, ∀ key ∈ membersOf record workspaces, ∀ ws ∈ workspaces,
    ws.key ∈ membersOf record workspaces → ws.key ≠ key →
      (∃ id ∈ edgeNames record workspaces kind key, Owns ws id) →
        ∃ id ∈ edgeNames record workspaces kind key, Owns ws id
          ∧ ∀ other ∈ workspaces, Owns other id → other = ws
  external : ∀ key ∈ membersOf record workspaces,
    ∀ id ∈ edgeNames record workspaces .blocks key, ∀ a ∈ workspaces, ∀ b ∈ workspaces,
      Owns a id → Owns b id → IsOutside record workspaces key a.key →
        IsOutside record workspaces key b.key

/-- The inputs with the workspaces listed otherwise. -/
def Inputs.relisted (i : Inputs) (workspaces : List Workspace) : Inputs :=
  { i with workspaces := workspaces }

/-- In whatever order the workspaces are listed, the snapshot is the same. -/
def ListingIndependent (i : Inputs) : Prop :=
  ∀ workspaces, i.workspaces.Perm workspaces → ∀ latch now,
    ((i.relisted workspaces).resolve latch now).1 = (i.resolve latch now).1

/-! ### Owners -/

section Owners

variable {workspaces : List Workspace} {ws : Workspace} {id : TaskId} {key other : WorkspaceKey}

theorem taskWs_eq (workspaces : List Workspace) :
  taskWs workspaces
    = Keyed.last (workspaces.flatMap fun ws => (tasksOf ws).map fun task => (task.id, ws.key))
  := rfl

theorem last_tasks (ws : Workspace) (id : TaskId) :
  Keyed.last ((tasksOf ws).map fun task => (task.id, ws.key)) id
    = if Owns ws id then some ws.key else none
  := by
  split
  · next howns =>
      obtain ⟨task, htask, rfl⟩ := List.mem_map.mp howns
      have hsingle : Keyed.Single ((tasksOf ws).map fun task => (task.id, ws.key)) task.id := by
        intro v v' hv hv'
        obtain ⟨_, -, heq⟩ := List.mem_map.mp hv
        obtain ⟨_, -, heq'⟩ := List.mem_map.mp hv'
        exact (congrArg Prod.snd heq).symm.trans (congrArg Prod.snd heq')
      rw [hsingle.last_eq_some_iff]
      apply List.mem_map_of_mem htask
  · next howns =>
      rw [Keyed.last_eq_none]
      intro v hv
      obtain ⟨task, htask, heq⟩ := List.mem_map.mp hv
      apply howns
      obtain ⟨rfl, -⟩ := Prod.mk.inj heq
      apply List.mem_map_of_mem htask

theorem taskWs_append (before after : List Workspace) (id : TaskId) :
  taskWs (before ++ after) id = (taskWs after id).or (taskWs before id)
  := by
  rw [taskWs_eq, List.flatMap_append, Keyed.last_append]
  rfl

theorem taskWs_singleton (ws : Workspace) (id : TaskId) :
  taskWs [ws] id = if Owns ws id then some ws.key else none
  := by
  rw [taskWs_eq, List.flatMap_singleton, last_tasks]

/-- Who is listed last is found. -/
theorem taskWs_concat (before : List Workspace) (howns : Owns ws id) :
  taskWs (before ++ [ws]) id = some ws.key
  := by
  rw [taskWs_append, taskWs_singleton, if_pos howns, Option.some_or]

/-- Who is found owns the task. -/
theorem exists_of_taskWs (h : taskWs workspaces id = some key) :
  ∃ ws ∈ workspaces, ws.key = key ∧ Owns ws id
  := by
  obtain ⟨ws, hws, hlast⟩ := Keyed.exists_of_last_flatMap h
  rw [last_tasks] at hlast
  split at hlast
  · next howns => exact ⟨ws, hws, Option.some.inj hlast, howns⟩
  · cases hlast

/-- A task that has an owner is found to have one. -/
theorem exists_taskWs (hws : ws ∈ workspaces) (howns : Owns ws id) :
  ∃ key, taskWs workspaces id = some key
  := by
  rw [← Option.isSome_iff_exists, taskWs_eq, Keyed.isSome_last_flatMap]
  use ws, hws
  rw [last_tasks, if_pos howns]
  rfl

/-- Who owns a task alone is found. -/
theorem taskWs_of_alone (hws : ws ∈ workspaces) (howns : Owns ws id)
    (alone : ∀ other ∈ workspaces, Owns other id → other = ws) :
  taskWs workspaces id = some ws.key
  := by
  obtain ⟨key, hkey⟩ := exists_taskWs hws howns
  obtain ⟨other, hother, rfl, hothers⟩ := exists_of_taskWs hkey
  rwa [alone other hother hothers] at hkey

/-- Who is found though listed first owns the task alone. -/
theorem alone_of_taskWs_cons (distinct : ws.key ∉ workspaces.map Workspace.key)
    (h : taskWs (ws :: workspaces) id = some ws.key) :
  Owns ws id ∧ ∀ other ∈ ws :: workspaces, Owns other id → other = ws
  := by
  have happend : taskWs (ws :: workspaces) id = (taskWs workspaces id).or (taskWs [ws] id) :=
    taskWs_append [ws] workspaces id
  have hnobody : taskWs workspaces id = none := by
    rw [Option.eq_none_iff_forall_ne_some]
    intro key hkey
    rw [happend, hkey] at h
    obtain rfl : key = ws.key := Option.some.inj h
    obtain ⟨other, hother, heq, -⟩ := exists_of_taskWs hkey
    apply distinct (List.mem_map.mpr ⟨other, hother, heq⟩)
  rw [happend, hnobody, taskWs_singleton] at h
  constructor
  · by_contra howns
    rw [if_neg howns] at h
    cases h
  · intro other hother howns
    obtain rfl | hother := List.mem_cons.mp hother
    · rfl
    · obtain ⟨key, hkey⟩ := exists_taskWs hother howns
      rw [hnobody] at hkey
      cases hkey

end Owners

/-! ### Members -/

section Members

variable {record : EpicRecord} {workspaces workspaces' : List Workspace}

theorem loaded_eq_of_perm (distinct : (workspaces.map Workspace.key).Nodup)
    (h : workspaces.Perm workspaces') :
  loaded workspaces = loaded workspaces'
  := by
  funext key
  exact Keyed.last_map_eq_of_perm distinct h key

theorem parentLinks_eq (workspaces : List Workspace) :
  parentLinks workspaces
    = workspaces.flatMap fun ws =>
      (tasksOf ws).filterMap fun task => task.parent.map (task.id, ·)
  := List.filterMap_flatMap ..

theorem asStr_injective :
  Function.Injective WorkspaceKey.asStr
  := by
  rintro ⟨a⟩ ⟨b⟩ h
  exact congrArg WorkspaceKey.mk h

/-- Keys in order do not depend on how they were listed. -/
theorem inOrder_eq_of_perm {keys keys' : List WorkspaceKey} (h : keys.Perm keys') :
  inOrder keys = inOrder keys'
  := by
  apply Ranking.insertionSort_eq_of_perm asStr_injective h

/-- A sorted set of keys depends on its elements only. -/
theorem sortedKeys_congr {keys keys' : List WorkspaceKey} (h : ∀ key, key ∈ keys ↔ key ∈ keys') :
  sortedKeys keys = sortedKeys keys'
  := by
  apply Ranking.insertionSort_eq_of_perm asStr_injective
  rw [List.perm_ext_iff_of_nodup keys.nodup_dedup keys'.nodup_dedup]
  simpa using h

theorem sortedTasks_congr {tasks tasks' : List TaskId} (h : ∀ id, id ∈ tasks ↔ id ∈ tasks') :
  sortedTasks tasks = sortedTasks tasks'
  := by
  have hinjective : Function.Injective fun id : TaskId => toLex (id.source, id.key) := by
    rintro ⟨source, key⟩ ⟨source', key'⟩ heq
    simpa using heq
  apply Ranking.insertionSort_eq_of_perm hinjective
  rw [List.perm_ext_iff_of_nodup tasks.nodup_dedup tasks'.nodup_dedup]
  simpa using h

/-- The members are the same in any order. -/
theorem membersOf_eq_of_perm (distinct : (workspaces.map Workspace.key).Nodup)
    (parents : ParentsAgree record workspaces) (h : workspaces.Perm workspaces') :
  membersOf record workspaces = membersOf record workspaces'
  := by
  have hlabeled : inOrder (labeled workspaces record.projectLabel)
      = inOrder (labeled workspaces' record.projectLabel) :=
    inOrder_eq_of_perm ((h.filter _).map _)
  have hanchored : inOrder ((record.anchor.map (anchored workspaces)).getD [])
      = inOrder ((record.anchor.map (anchored workspaces')).getD []) := by
    cases hanchor : record.anchor with
    | none => rfl
    | some anchor =>
      have hlast : lastOf (parentLinks workspaces) = lastOf (parentLinks workspaces') := by
        funext id
        rw [parentLinks_eq, parentLinks_eq]
        apply Keyed.last_flatMap_of_perm h
        intro a ha b hb p q hp hq
        apply parents (by rw [hanchor]; rfl) a ha b hb id p q hp hq
      have hlength : (parentLinks workspaces).length = (parentLinks workspaces').length := by
        rw [parentLinks_eq, parentLinks_eq]
        apply (h.flatMap_right _).length_eq
      have hreaches : ∀ start, reachesAnchor start anchor (parentLinks workspaces)
          = reachesAnchor start anchor (parentLinks workspaces') := by
        intro start
        rw [reachesAnchor, reachesAnchor, hlast, hlength]
      apply inOrder_eq_of_perm
      simp only [Option.map_some, Option.getD_some, anchored, hreaches]
      apply (h.filter _).map
  rw [membersOf, membersOf, loaded_eq_of_perm distinct h, hlabeled, hanchored]

/-- What the tasks of a member name is the same in any order. -/
theorem edgeNames_eq_of_perm (distinct : (workspaces.map Workspace.key).Nodup)
    (parents : ParentsAgree record workspaces) (h : workspaces.Perm workspaces') :
  edgeNames record workspaces = edgeNames record workspaces'
  := by
  have hnamed : namedBy record workspaces = namedBy record workspaces' := by
    funext ids key
    rw [namedBy, namedBy, membersOf_eq_of_perm distinct parents h, loaded_eq_of_perm distinct h]
  funext kind key
  cases kind with
  | blocks => rw [edgeNames, edgeNames, hnamed]
  | mergeAfter => rw [edgeNames, edgeNames, hnamed]
  | contract => rw [edgeNames, edgeNames, hnamed]

end Members

/-! ### Edges -/

section Edges

variable {record : EpicRecord} {workspaces : List Workspace} {key other : WorkspaceKey}
  {id : TaskId}

theorem edgeTo_member_eq_some :
  (edgeTo workspaces (membersOf record workspaces) key id).member? = some other
    ↔ taskWs workspaces id = some other ∧ other ≠ key ∧ other ∈ membersOf record workspaces
  := by
  rw [edgeTo]
  cases howner : taskWs workspaces id with
  | none => simp [Edge.member?]
  | some owner =>
    by_cases hown : owner = key
    · subst hown
      simp only [if_true, Edge.member?, Option.some.injEq, reduceCtorEq, false_iff]
      rintro ⟨rfl, hne, -⟩
      apply hne rfl
    · by_cases hmember : owner ∈ membersOf record workspaces
      · simp only [if_neg hown, if_pos hmember, Edge.member?, Option.some.injEq]
        constructor
        · rintro rfl
          exact ⟨rfl, hown, hmember⟩
        · rintro ⟨rfl, -⟩
          rfl
      · simp only [if_neg hown, if_neg hmember, Edge.member?, Option.some.injEq, reduceCtorEq,
          false_iff]
        rintro ⟨rfl, -, hmem⟩
        apply hmember hmem

theorem edgeTo_eq_outside :
  edgeTo workspaces (membersOf record workspaces) key id = .outside
    ↔ ∀ owner, taskWs workspaces id = some owner → IsOutside record workspaces key owner
  := by
  rw [edgeTo]
  cases howner : taskWs workspaces id with
  | none => simp
  | some owner =>
    by_cases hown : owner = key
    · simp [hown, IsOutside]
    · by_cases hmember : owner ∈ membersOf record workspaces
      · simp [hown, hmember, IsOutside]
      · simp [hown, hmember, IsOutside]

theorem namedBy_eq (ids : Task → List TaskId) :
  ((if key ∈ membersOf record workspaces then loaded workspaces key else none).toList.flatMap
      fun ws => (tasksOf ws).flatMap ids)
    = namedBy record workspaces ids key
  := by
  rw [namedBy]
  split
  · rfl
  · rfl

/-- An edge leads to the owner that is found of a task the member names. -/
theorem mem_targets {kind : EdgeKind} :
  other ∈ targets (resolvedGraph record workspaces) kind key
    ↔ ∃ id ∈ edgeNames record workspaces kind key,
      taskWs workspaces id = some other ∧ other ≠ key ∧ other ∈ membersOf record workspaces
  := by
  cases kind with
  | blocks | contract =>
    simp only [targets, resolvedGraph, mem_sortedKeys, List.mem_filterMap, namedBy_eq,
      edgeTo_member_eq_some, edgeNames]
  | mergeAfter =>
    simp only [targets, resolvedGraph, mem_sortedKeys, List.mem_append, namedBy_eq, edgeNames]
    cases record.impliedMergeAfter with
    | false =>
      simp only [Bool.false_eq_true, if_false, List.not_mem_nil, or_false, List.mem_filterMap,
        edgeTo_member_eq_some]
    | true =>
      simp only [if_true, List.mem_filterMap, edgeTo_member_eq_some, or_and_right, exists_or]

theorem mem_external :
  id ∈ (resolvedGraph record workspaces).external key
    ↔ id ∈ edgeNames record workspaces .blocks key
      ∧ ∀ owner, taskWs workspaces id = some owner → IsOutside record workspaces key owner
  := by
  simp only [resolvedGraph, sortedTasks, List.mem_insertionSort, List.mem_dedup, List.mem_filter,
    namedBy_eq, decide_eq_true_eq, edgeTo_eq_outside, edgeNames]

/-- Only members name tasks. -/
theorem mem_of_mem_edgeNames {kind : EdgeKind} (h : id ∈ edgeNames record workspaces kind key) :
  key ∈ membersOf record workspaces
  := by
  by_contra hkey
  have hnothing : ∀ ids, namedBy record workspaces ids key = [] := fun ids => if_neg hkey
  cases kind with
  | blocks | contract | mergeAfter => simp [edgeNames, hnothing] at h

end Edges

/-! ### Listed in another order -/

attribute [ext] Resolved

section Relisted

variable {record : EpicRecord} {workspaces workspaces' : List Workspace}
  (distinct : (workspaces.map Workspace.key).Nodup) (parents : ParentsAgree record workspaces)
  (h : workspaces.Perm workspaces')
include distinct parents h

variable {key : WorkspaceKey}

theorem mem_targets_of_perm {kind : EdgeKind} {other : WorkspaceKey} :
  other ∈ targets (resolvedGraph record workspaces') kind key
    ↔ ∃ id ∈ edgeNames record workspaces kind key,
      taskWs workspaces' id = some other ∧ other ≠ key ∧ other ∈ membersOf record workspaces
  := by
  rw [mem_targets, ← edgeNames_eq_of_perm distinct parents h,
    ← membersOf_eq_of_perm distinct parents h]

theorem mem_external_of_perm {id : TaskId} :
  id ∈ (resolvedGraph record workspaces').external key
    ↔ id ∈ edgeNames record workspaces .blocks key
      ∧ ∀ owner, taskWs workspaces' id = some owner → IsOutside record workspaces key owner
  := by
  have houtside : IsOutside record workspaces' key = IsOutside record workspaces key := by
    funext other
    rw [IsOutside, IsOutside, ← membersOf_eq_of_perm distinct parents h]
  rw [mem_external, ← edgeNames_eq_of_perm distinct parents h, houtside]

/-- Where the owners agree, the edges lead to everyone who owns a task that is named. -/
theorem mem_targets_iff_owner (agree : OwnersAgree record workspaces) {kind : EdgeKind}
    {other : WorkspaceKey} :
  other ∈ targets (resolvedGraph record workspaces') kind key
    ↔ ∃ ws ∈ workspaces, ws.key = other ∧ other ≠ key ∧ other ∈ membersOf record workspaces
      ∧ ∃ id ∈ edgeNames record workspaces kind key, Owns ws id
  := by
  rw [mem_targets_of_perm distinct parents h]
  constructor
  · rintro ⟨id, hid, hfound, hne, hmember⟩
    obtain ⟨ws, hws, rfl, howns⟩ := exists_of_taskWs hfound
    exact ⟨ws, h.mem_iff.mpr hws, rfl, hne, hmember, id, hid, howns⟩
  · rintro ⟨ws, hws, rfl, hne, hmember, id, hid, howns⟩
    obtain ⟨id', hid', howns', alone⟩ := agree.edges kind key (mem_of_mem_edgeNames hid) ws hws
      hmember hne ⟨id, hid, howns⟩
    refine ⟨id', hid', ?_, hne, hmember⟩
    apply taskWs_of_alone (h.mem_iff.mp hws) howns'
    intro other hother
    apply alone other (h.mem_iff.mpr hother)

theorem mem_external_iff_owners (agree : OwnersAgree record workspaces) {id : TaskId} :
  id ∈ (resolvedGraph record workspaces').external key
    ↔ id ∈ edgeNames record workspaces .blocks key
      ∧ ∀ ws ∈ workspaces, Owns ws id → IsOutside record workspaces key ws.key
  := by
  rw [mem_external_of_perm distinct parents h]
  apply and_congr_right
  intro hid
  constructor
  · intro hfound ws hws howns
    obtain ⟨owner, howner⟩ := exists_taskWs (h.mem_iff.mp hws) howns
    obtain ⟨ws', hws', rfl, howns'⟩ := exists_of_taskWs howner
    apply agree.external key (mem_of_mem_edgeNames hid) id hid ws' (h.mem_iff.mpr hws') ws hws
      howns' howns (hfound _ howner)
  · intro houtside owner howner
    obtain ⟨ws, hws, rfl, howns⟩ := exists_of_taskWs howner
    apply houtside ws (h.mem_iff.mpr hws) howns

/-- Where the owners agree, the graph is the same in any order. -/
theorem resolvedGraph_eq_of_perm (agree : OwnersAgree record workspaces) :
  resolvedGraph record workspaces' = resolvedGraph record workspaces
  := by
  have hmembers := membersOf_eq_of_perm distinct parents h
  have hloaded := loaded_eq_of_perm distinct h
  have htargets : ∀ kind key other, other ∈ targets (resolvedGraph record workspaces') kind key
      ↔ other ∈ targets (resolvedGraph record workspaces) kind key := by
    intro kind key other
    rw [mem_targets_iff_owner distinct parents h agree,
      mem_targets_iff_owner distinct parents (List.Perm.refl _) agree]
  have hdependsOn : (resolvedGraph record workspaces').dependsOn
      = (resolvedGraph record workspaces).dependsOn := by
    funext key
    apply sortedKeys_congr
    intro other
    exact mem_sortedKeys.symm.trans ((htargets .blocks key other).trans mem_sortedKeys)
  have hmergeAfter : (resolvedGraph record workspaces').mergeAfter
      = (resolvedGraph record workspaces).mergeAfter := by
    funext key
    apply sortedKeys_congr
    intro other
    exact mem_sortedKeys.symm.trans ((htargets .mergeAfter key other).trans mem_sortedKeys)
  have hcontracts : (resolvedGraph record workspaces').contracts
      = (resolvedGraph record workspaces).contracts := by
    funext key
    apply sortedKeys_congr
    intro other
    exact mem_sortedKeys.symm.trans ((htargets .contract key other).trans mem_sortedKeys)
  have hexternal : (resolvedGraph record workspaces').external
      = (resolvedGraph record workspaces).external := by
    funext key
    apply sortedTasks_congr
    intro id
    have hmem : id ∈ (resolvedGraph record workspaces').external key
        ↔ id ∈ (resolvedGraph record workspaces).external key := by
      rw [mem_external_iff_owners distinct parents h agree,
        mem_external_iff_owners distinct parents (List.Perm.refl _) agree]
    simpa only [resolvedGraph, sortedTasks, List.mem_insertionSort, List.mem_dedup] using hmem
  ext1
  · exact hmembers.symm
  · exact hloaded.symm
  · exact hdependsOn
  · exact hmergeAfter
  · exact hexternal
  · simp only [resolvedGraph, hmembers, hloaded]
  · simp only [resolvedGraph, hmembers, hloaded]
  · simp only [resolvedGraph, hmembers, hloaded]
  · exact hcontracts

end Relisted

/-! ### Snapshots -/

/-- What the workspaces say of an epic, they say through its graph. -/
theorem resolve_relisted {i : Inputs} {workspaces : List Workspace}
    (hresolved : (i.relisted workspaces).resolved = i.resolved) (latch : SinceLatch) (now : ℤ) :
  (i.relisted workspaces).resolve latch now = i.resolve latch now
  := by
  have hleveling : (i.relisted workspaces).leveling = i.leveling := by
    rw [Inputs.leveling, Inputs.leveling, hresolved]
  have hmember : (i.relisted workspaces).member = i.member := by
    funext key ws blockers
    rw [Inputs.member, Inputs.member, hleveling, hresolved]
    rfl
  have hmembers : (i.relisted workspaces).resolveMembers now = i.resolveMembers now := by
    funext keys
    induction keys with
    | nil => rfl
    | cons key rest ih =>
      funext s
      simp only [Inputs.resolveMembers, Inputs.resolveMember, ih, hmember, hleveling, hresolved]
      rfl
  simp only [Inputs.resolve, hmembers, hleveling, hresolved]
  rfl

theorem mem_graphEdges {resolved : Resolved} {e : EpicEdge} :
  e ∈ graphEdges resolved
    ↔ e.source ∈ resolved.members ∧ e.target ∈ targets resolved e.kind e.source
  := by
  obtain ⟨source, target, kind⟩ := e
  simp only [graphEdges, List.mem_insertionSort, List.mem_append, List.mem_flatMap, List.mem_map,
    EpicEdge.mk.injEq]
  cases kind with
  | blocks | mergeAfter | contract => simp [targets]

/-- A snapshot tells where the edges of every member lead. -/
theorem mem_targets_congr {i j : Inputs} {latch : SinceLatch} {now : ℤ}
    (hsnapshot : (j.resolve latch now).1 = (i.resolve latch now).1) {kind : EdgeKind}
    {key other : WorkspaceKey} (hkey : key ∈ j.resolved.members)
    (h : other ∈ targets j.resolved kind key) :
  other ∈ targets i.resolved kind key
  := by
  have hedge : ⟨key, other, kind⟩ ∈ (j.resolve latch now).1.edges :=
    mem_graphEdges.mpr ⟨hkey, h⟩
  rw [hsnapshot] at hedge
  exact (mem_graphEdges.mp hedge).2

/-- A snapshot tells what every member waits on outside of the epic. -/
theorem external_congr {i j : Inputs} {latch : SinceLatch} {now : ℤ}
    (hsnapshot : (j.resolve latch now).1 = (i.resolve latch now).1) {key : WorkspaceKey}
    (hkey : key ∈ j.resolved.members) :
  j.resolved.external key = i.resolved.external key
  := by
  obtain ⟨ws, hws⟩ := Option.isSome_iff_exists.mp (loaded_of_mem_membersOf hkey)
  have hmember := (j.mem_members_iff latch now _).mpr ⟨key, hkey, ws, hws, rfl⟩
  rw [hsnapshot] at hmember
  obtain ⟨key', -, ws', -, heq⟩ := (i.mem_members_iff latch now _).mp hmember
  obtain rfl : key = key' := congrArg EpicMember.key heq
  exact congrArg EpicMember.externalBlockers heq

/-! ### Which owner is found -/

section Independent

variable {i : Inputs} (distinct : (i.workspaces.map Workspace.key).Nodup)
  (parents : ParentsAgree i.record i.workspaces)
include distinct parents

/-- Where the owners agree, the snapshot is the same in any order. -/
theorem listingIndependent_of_agree (agree : OwnersAgree i.record i.workspaces) :
  ListingIndependent i
  := by
  intro workspaces h latch now
  have hresolved : (i.relisted workspaces).resolved = i.resolved :=
    resolvedGraph_eq_of_perm distinct parents h agree
  rw [resolve_relisted hresolved]

/-- Where the snapshot is the same in any order, the owners agree. -/
theorem agree_of_listingIndependent (independent : ListingIndependent i) :
  OwnersAgree i.record i.workspaces
  := by
  have hfirst : ∀ ws ∈ i.workspaces, i.workspaces.Perm (ws :: i.workspaces.erase ws) :=
    fun ws hws => List.perm_cons_erase hws
  have hlast : ∀ ws ∈ i.workspaces, i.workspaces.Perm (i.workspaces.erase ws ++ [ws]) :=
    fun ws hws => (hfirst ws hws).trans (List.perm_append_singleton _ _).symm
  have hsnapshot : ∀ {before after}, i.workspaces.Perm before → i.workspaces.Perm after →
      ((i.relisted before).resolve (fun _ => none) 0).1
        = ((i.relisted after).resolve (fun _ => none) 0).1 := by
    intro before after hbefore hafter
    rw [independent before hbefore, independent after hafter]
  have hmembers : ∀ {workspaces key}, i.workspaces.Perm workspaces →
      key ∈ membersOf i.record i.workspaces → key ∈ (i.relisted workspaces).resolved.members := by
    intro workspaces key h hkey
    rwa [membersOf_eq_of_perm distinct parents h] at hkey
  constructor
  · intro kind key hkey ws hws hmember hne ⟨id, hid, howns⟩
    have hfound := (mem_targets_of_perm distinct parents (hlast ws hws)).mpr
      ⟨id, hid, taskWs_concat _ howns, hne, hmember⟩
    have hfound' := mem_targets_congr (hsnapshot (hlast ws hws) (hfirst ws hws))
      (hmembers (hlast ws hws) hkey) hfound
    obtain ⟨id', hid', howner, -, -⟩ :=
      (mem_targets_of_perm distinct parents (hfirst ws hws)).mp hfound'
    have hother : ws.key ∉ (i.workspaces.erase ws).map Workspace.key :=
      (List.nodup_cons.mp (((hfirst ws hws).map Workspace.key).nodup_iff.mp distinct)).1
    obtain ⟨howns', alone⟩ := alone_of_taskWs_cons hother howner
    refine ⟨id', hid', howns', ?_⟩
    intro other hmem
    apply alone other ((hfirst ws hws).mem_iff.mp hmem)
  · intro key hkey id hid a ha b hb hownsA hownsB houtside
    have hwaits : ∀ ws (hws : ws ∈ i.workspaces), Owns ws id →
        (id ∈ (i.relisted (i.workspaces.erase ws ++ [ws])).resolved.external key
          ↔ IsOutside i.record i.workspaces key ws.key) := by
      intro ws hws howns
      apply (mem_external_of_perm distinct parents (hlast ws hws)).trans
      simp only [hid, true_and, taskWs_concat _ howns, Option.some.injEq, forall_eq']
    have hsame := external_congr (hsnapshot (hlast a ha) (hlast b hb)) (hmembers (hlast a ha) hkey)
    rw [← hwaits b hb hownsB, ← hsame, hwaits a ha hownsA]
    exact houtside

/-- Where the parents agree, the order of the listing does not matter exactly when it does not
matter which owner of a task is found. -/
theorem listingIndependent_iff :
  ListingIndependent i ↔ OwnersAgree i.record i.workspaces
  := by
  constructor
  · exact agree_of_listingIndependent distinct parents
  · exact listingIndependent_of_agree distinct parents

end Independent

/-- Two pull requests that share an issue, and one that waits for the issue. -/
def sharedIssue (shared : List Task) : Inputs where
  record := ⟨"epic", "epic", none, [⟨"a"⟩, ⟨"b"⟩, ⟨"c"⟩], true⟩
  workspaces := [
    ⟨⟨"a"⟩, "a", some (pullRequest .opened "1" []), [pullRequest .opened "3" []], []⟩,
    ⟨⟨"b"⟩, "b", some (pullRequest .opened "2" []), shared, []⟩,
    ⟨⟨"c"⟩, "c", some (pullRequest .opened "4" ["3"]), [], []⟩]
  agentStates := fun _ => none
  declared := fun _ => none
  latches := ⟨fun _ => none, []⟩

/-- Who has to land before depends on which of the two is listed last. -/
theorem not_listingIndependent_sharedIssue :
  let i := sharedIssue [pullRequest .opened "3" []]
  (i.workspaces.map Workspace.key).Nodup ∧ ¬ ListingIndependent i
  := by
  refine ⟨by decide, ?_⟩
  intro independent
  have hsnapshot := independent _ (List.Perm.swap _ _ _) (fun _ => none) 0
  have hedges := congrArg EpicSnapshot.edges hsnapshot
  revert hedges
  decide +kernel

theorem listingIndependent_iff_ownIssue :
  ListingIndependent (sharedIssue [])
  := by
  have hparents : ParentsAgree (sharedIssue []).record (sharedIssue []).workspaces := by
    intro hanchor
    cases hanchor
  apply (listingIndependent_iff (by decide) hparents).mpr
  constructor
  · intro kind
    cases kind with
    | blocks | mergeAfter | contract => decide +kernel
  · decide +kernel

end Lazybox.Epics
