import Mathlib.Data.List.DropRight
import Lazybox.Library.FirstOfEach
import Lazybox.Library.Run
import Lazybox.Epics.Resolve

/-!
# The ages of blockers

A blocker that is found call after call has been there since the first of these calls
(`presentSince`).  The latch is exactly that: it remembers a time for the blockers the last call
found, and the time is when their presence began.  So does the age that is reported, unless the
blocker was only declared, and has an age of its own.
-/

namespace Lazybox.Epics

/-! ### What a call finds -/

namespace Inputs

variable (i : Inputs)

def blockersOn (key : WorkspaceKey) : List FoundBlocker :=
  findBlockers key i.resolved (decide (key ∈ i.leveling.2.2))
    (i.latches.publishedContracts i.record.key)

/-- What a call asks the latch for on a member. -/
def foundOn (key : WorkspaceKey) : List LatchKey :=
  (i.blockersOn key).map fun found => (key, found.kind, found.reason)

/-- The blockers a call finds on the graph and on the tasks. -/
def found : List LatchKey := i.resolved.members.flatMap i.foundOn

end Inputs

/-! ### Asking the latch -/

/-- Some keys were asked for. -/
structure LatchState.Asked (now : ℤ) (keys : List LatchKey) (s s' : LatchState) : Prop where
  since : ∀ k, s'.since k = if k ∈ keys then some ((s.since k).getD now) else s.since k
  seen : ∀ k, k ∈ s'.seen ↔ k ∈ keys ∨ k ∈ s.seen

namespace LatchState.Asked

variable {now : ℤ} {s t u : LatchState}

theorem nil (s : LatchState) :
  Asked now [] s s
  := by
  constructor
  · intro k
    rfl
  · intro k
    simp

/-- Asking does not change what is answered. -/
theorem getD_since {keys : List LatchKey} (h : Asked now keys s t) (k : LatchKey) :
  (t.since k).getD now = (s.since k).getD now
  := by
  rw [h.since]
  split
  all_goals rfl

theorem append {keys keys' : List LatchKey} (h : Asked now keys s t) (h' : Asked now keys' t u) :
  Asked now (keys ++ keys') s u
  := by
  constructor
  · intro k
    rw [h'.since, h.getD_since, h.since]
    by_cases hk' : k ∈ keys'
    · simp [hk']
    · by_cases hk : k ∈ keys
      · simp [hk, hk']
      · simp [hk, hk']
  · intro k
    rw [h'.seen, h.seen, List.mem_append]
    tauto

theorem sinceAt (now : ℤ) (s : LatchState) (key : LatchKey) :
  Asked now [key] s (s.sinceAt now key).2
  := by
  constructor
  · intro k
    by_cases hk : k = key
    · subst hk
      simp [LatchState.sinceAt]
    · simp [LatchState.sinceAt, hk]
  · intro k
    rw [LatchState.sinceAt, List.mem_singleton, List.mem_cons]

end LatchState.Asked

/-- A blocker with the age that is remembered for it. -/
def FoundBlocker.aged (key : WorkspaceKey) (holds : ℕ) (age : LatchKey → ℤ) (f : FoundBlocker) :
    Blocker :=
  ⟨f.kind, f.reason, f.owner, age (key, f.kind, f.reason), holds⟩

variable {key : WorkspaceKey} {holds : ℕ} {now : ℤ}

theorem latchBlockers_spec (key : WorkspaceKey) (holds : ℕ) (now : ℤ) (founds : List FoundBlocker)
    (s : LatchState) :
  (latchBlockers key holds now founds s).1
      = founds.map (FoundBlocker.aged key holds fun k => (s.since k).getD now)
    ∧ LatchState.Asked now (founds.map fun found => (key, found.kind, found.reason)) s
      (latchBlockers key holds now founds s).2
  := by
  induction founds generalizing s with
  | nil => exact ⟨rfl, LatchState.Asked.nil s⟩
  | cons found rest ih =>
    have first := LatchState.Asked.sinceAt now s (key, found.kind, found.reason)
    obtain ⟨hblockers, hasked⟩ := ih (s.sinceAt now (key, found.kind, found.reason)).2
    constructor
    · simp only [latchBlockers, hblockers, List.map_cons]
      congr 1
      simp only [first.getD_since]
    · apply first.append hasked

/-! ### What a call reports -/

theorem BlockerKind.asStr_injective :
  Function.Injective BlockerKind.asStr
  := by
  intro a b h
  cases a
  all_goals
    cases b
    all_goals first | rfl | (simp [asStr] at h)

theorem sortKey_eq_iff {a b : Blocker} :
  a.sortKey = b.sortKey ↔ a.kind = b.kind ∧ a.reason = b.reason
  := by
  rw [Blocker.sortKey, Blocker.sortKey, toLex_inj, Prod.mk.injEq,
    BlockerKind.asStr_injective.eq_iff]

namespace Inputs

variable (i : Inputs)

/-- The candidates for the blockers of a member: those found, then the one declared. -/
def candidates (age : LatchKey → ℤ) (key : WorkspaceKey) : List Blocker :=
  let holds := downstreamCount i.resolved.members i.resolved.dependsOn key
  (i.blockersOn key).map (FoundBlocker.aged key holds age)
    ++ ((i.declared key).bind (declaredBlocker holds)).toList

/-- The blockers of a member: of the candidates of one kind and reason, the first. -/
def blockersAt (age : LatchKey → ℤ) (key : WorkspaceKey) : List Blocker :=
  ((i.candidates age key).insertionSort fun a b => a.sortKey ≤ b.sortKey).destutter fun a b =>
    ¬(a.kind = b.kind ∧ a.reason = b.reason)

theorem mem_blockersAt_iff {age : LatchKey → ℤ} {key : WorkspaceKey} {b : Blocker} :
  b ∈ i.blockersAt age key
    ↔ (i.candidates age key).find? (fun c => c.sortKey = b.sortKey) = some b
  := by
  rw [← FirstOfEach.mem_destutter_insertionSort_iff Blocker.sortKey, blockersAt]
  simp only [ne_eq, sortKey_eq_iff]

theorem member_key (key : WorkspaceKey) (ws : Workspace) (blockers : List Blocker) :
  (i.member key ws blockers).key = key
  := rfl

theorem member_blockers (key : WorkspaceKey) (ws : Workspace) (blockers : List Blocker) :
  (i.member key ws blockers).blockers = blockers
  := rfl

theorem resolveMember_spec (now : ℤ) (key : WorkspaceKey) (s : LatchState) :
  (i.resolveMember now key s).1
      = (i.resolved.byKey key).map
        (i.member key · (i.blockersAt (fun k => (s.since k).getD now) key))
    ∧ LatchState.Asked now (i.foundOn key) s (i.resolveMember now key s).2
  := by
  obtain ⟨hblockers, hasked⟩ :=
    latchBlockers_spec key (downstreamCount i.resolved.members i.resolved.dependsOn key) now
      (i.blockersOn key) s
  constructor
  · rw [resolveMember, blockersFor, blockersAt, candidates, ← hblockers, blockersOn]
  · rw [resolveMember, blockersFor]
    apply hasked

/-- The members are resolved with the ages that were remembered when the call began. -/
theorem resolveMembers_spec (now : ℤ) (keys : List WorkspaceKey) (s : LatchState) :
  (i.resolveMembers now keys s).1
      = keys.flatMap (fun key =>
        ((i.resolved.byKey key).map
          (i.member key · (i.blockersAt (fun k => (s.since k).getD now) key))).toList)
    ∧ LatchState.Asked now (keys.flatMap i.foundOn) s (i.resolveMembers now keys s).2
  := by
  induction keys generalizing s with
  | nil => exact ⟨rfl, LatchState.Asked.nil s⟩
  | cons key rest ih =>
    obtain ⟨hmember, first⟩ := i.resolveMember_spec now key s
    obtain ⟨hmembers, hasked⟩ := ih (i.resolveMember now key s).2
    constructor
    · simp only [resolveMembers, hmember, hmembers, first.getD_since, List.flatMap_cons]
    · rw [List.flatMap_cons, resolveMembers]
      apply first.append hasked

/-- The latch is left with the blockers that were found. -/
theorem resolve_latch (latch : SinceLatch) (now : ℤ) (k : LatchKey) :
  (i.resolve latch now).2 k = if k ∈ i.found then some ((latch k).getD now) else none
  := by
  obtain ⟨-, hasked⟩ := i.resolveMembers_spec now i.resolved.members ⟨latch, []⟩
  have hseen := hasked.seen k
  have hsince := hasked.since k
  simp only [List.not_mem_nil, or_false] at hseen
  rw [resolve, found]
  simp only [hseen]
  by_cases hk : k ∈ i.resolved.members.flatMap i.foundOn
  · rw [if_pos hk, if_pos hk, hsince, if_pos hk]
  · rw [if_neg hk, if_neg hk]

/-- What is reported on a member of an epic. -/
theorem mem_members_iff (latch : SinceLatch) (now : ℤ) (m : EpicMember) :
  m ∈ (i.resolve latch now).1.members
    ↔ ∃ key ∈ i.resolved.members, ∃ ws, i.resolved.byKey key = some ws
      ∧ m = i.member key ws (i.blockersAt (fun k => (latch k).getD now) key)
  := by
  obtain ⟨hmembers, -⟩ := i.resolveMembers_spec now i.resolved.members ⟨latch, []⟩
  rw [resolve]
  simp only [List.mem_insertionSort, hmembers, List.mem_flatMap, Option.mem_toList,
    Option.map_eq_some_iff]
  simp only [eq_comm]

/-- A reported blocker is one that was found, with its age, or the one that was declared, with the
age it was declared with. -/
theorem since_of_mem_blockersAt
    {age : LatchKey → ℤ} {key : WorkspaceKey} {b : Blocker} (h : b ∈ i.blockersAt age key) :
  ((key, b.kind, b.reason) ∈ i.foundOn key ∧ b.since = age (key, b.kind, b.reason))
    ∨ ((key, b.kind, b.reason) ∉ i.foundOn key
      ∧ ∃ declared, i.declared key = some declared ∧ b.since = declared.since
        ∧ b.kind = declared.kind ∧ b.reason = String.ofList (trim declared.reason.toList))
  := by
  rw [mem_blockersAt_iff, candidates, List.find?_append, Option.or_eq_some_iff] at h
  obtain hfound | ⟨hnone, hdeclared⟩ := h
  · left
    obtain ⟨f, hf, rfl⟩ := List.mem_map.mp (List.mem_of_find?_eq_some hfound)
    constructor
    · apply List.mem_map.mpr ⟨f, hf, rfl⟩
    · rfl
  · right
    constructor
    · intro hmem
      obtain ⟨f, hf, heq⟩ := List.mem_map.mp hmem
      simp only [Prod.mk.injEq, true_and] at heq
      have hother := List.find?_eq_none.mp hnone _ (List.mem_map_of_mem hf)
      rw [decide_eq_true_eq, sortKey_eq_iff] at hother
      apply hother heq
    · obtain ⟨declared, hdecl, hb⟩ := Option.bind_eq_some_iff.mp
        (Option.mem_toList.mp (List.mem_of_find?_eq_some hdeclared))
      use declared, hdecl
      rw [declaredBlocker] at hb
      split at hb
      case isTrue => cases hb
      case isFalse =>
          cases hb
          exact ⟨rfl, rfl, rfl⟩

/-- Every blocker that was found is reported. -/
theorem exists_mem_blockersAt (age : LatchKey → ℤ) {key : WorkspaceKey} {kind : BlockerKind}
    {reason : String} (h : (key, kind, reason) ∈ i.foundOn key) :
  ∃ b ∈ i.blockersAt age key, b.kind = kind ∧ b.reason = reason
  := by
  obtain ⟨f, hf, heq⟩ := List.mem_map.mp h
  simp only [Prod.mk.injEq, true_and] at heq
  obtain ⟨rfl, rfl⟩ := heq
  let holds := downstreamCount i.resolved.members i.resolved.dependsOn key
  have hmem : f.aged key holds age ∈ i.candidates age key :=
    List.mem_append_left _ (List.mem_map_of_mem hf)
  cases hfirst : (i.candidates age key).find? fun c =>
      c.sortKey = (f.aged key holds age).sortKey with
  | none =>
    have := List.find?_eq_none.mp hfirst _ hmem
    simp at this
  | some b =>
    have hkey := List.find?_some hfirst
    rw [decide_eq_true_eq] at hkey
    use b
    constructor
    · rw [mem_blockersAt_iff, hkey, hfirst]
    · rwa [sortKey_eq_iff] at hkey

end Inputs

/-! ### Members are loaded -/

theorem mem_foldl_push {keys members : List WorkspaceKey} {key : WorkspaceKey} :
  key ∈ keys.foldl push members ↔ key ∈ members ∨ key ∈ keys
  := by
  induction keys generalizing members with
  | nil => simp
  | cons k keys ih =>
    rw [List.foldl_cons, ih, push]
    split
    case isTrue hk =>
        rw [List.mem_cons]
        constructor
        · tauto
        · rintro (h | rfl | h)
          · left
            apply h
          · left
            apply hk
          · right
            apply h
    case isFalse =>
        rw [List.mem_append, List.mem_singleton, List.mem_cons, or_assoc]

theorem loaded_isSome {workspaces : List Workspace} {ws : Workspace} (h : ws ∈ workspaces) :
  (loaded workspaces ws.key).isSome
  := by
  rw [loaded, lastOf, Option.isSome_map, List.find?_isSome]
  use (ws.key, ws)
  constructor
  · rw [List.mem_reverse]
    apply List.mem_map.mpr ⟨ws, h, rfl⟩
  · simp

theorem loaded_of_mem_membersOf {record : EpicRecord} {workspaces : List Workspace}
    {key : WorkspaceKey} (h : key ∈ membersOf record workspaces) :
  (loaded workspaces key).isSome
  := by
  rw [membersOf, mem_foldl_push, inOrder, inOrder] at h
  simp only [List.not_mem_nil, false_or, List.mem_append, List.mem_insertionSort] at h
  obtain (hlisted | hbelow) | htagged := h
  · simpa using (List.mem_filter.mp hlisted).2
  · cases hanchor : record.anchor with
    | none => simp [hanchor] at hbelow
    | some anchor =>
      rw [hanchor] at hbelow
      obtain ⟨ws, hws, rfl⟩ := List.mem_map.mp hbelow
      apply loaded_isSome (List.mem_filter.mp hws).1
  · obtain ⟨ws, hws, rfl⟩ := List.mem_map.mp htagged
    apply loaded_isSome (List.mem_filter.mp hws).1

namespace Inputs

variable (i : Inputs)

theorem mem_found_iff {key : WorkspaceKey} {kind : BlockerKind} {reason : String} :
  (key, kind, reason) ∈ i.found ↔ key ∈ i.resolved.members ∧ (key, kind, reason) ∈ i.foundOn key
  := by
  rw [found, List.mem_flatMap]
  constructor
  · rintro ⟨key', hmember, hk⟩
    obtain ⟨f, -, heq⟩ := List.mem_map.mp hk
    obtain rfl := congrArg Prod.fst heq
    exact ⟨hmember, hk⟩
  · rintro ⟨hmember, hk⟩
    use key

/-- A call reports what it finds. -/
theorem reported_of_mem_found (latch : SinceLatch) (now : ℤ) {key : WorkspaceKey}
    {kind : BlockerKind} {reason : String} (h : (key, kind, reason) ∈ i.found) :
  ∃ m ∈ (i.resolve latch now).1.members, m.key = key
    ∧ ∃ b ∈ m.blockers, b.kind = kind ∧ b.reason = reason
  := by
  obtain ⟨hmember, hk⟩ := i.mem_found_iff.mp h
  obtain ⟨ws, hws⟩ := Option.isSome_iff_exists.mp (loaded_of_mem_membersOf hmember)
  have hb := i.exists_mem_blockersAt (fun k => (latch k).getD now) hk
  use i.member key ws (i.blockersAt (fun k => (latch k).getD now) key)
  constructor
  · apply (i.mem_members_iff latch now _).mpr
    exact ⟨key, hmember, ws, hws, rfl⟩
  · constructor
    · rfl
    · apply hb

/-- What a call reports, it found, or it was declared. -/
theorem since_of_mem_members {latch : SinceLatch} {now : ℤ} {m : EpicMember} {b : Blocker}
    (hm : m ∈ (i.resolve latch now).1.members) (hb : b ∈ m.blockers) :
  ((m.key, b.kind, b.reason) ∈ i.found ∧ b.since = (latch (m.key, b.kind, b.reason)).getD now)
    ∨ ((m.key, b.kind, b.reason) ∉ i.found
      ∧ ∃ declared, i.declared m.key = some declared ∧ b.since = declared.since
        ∧ b.kind = declared.kind ∧ b.reason = String.ofList (trim declared.reason.toList))
  := by
  rw [mem_members_iff] at hm
  obtain ⟨key, hmember, ws, -, rfl⟩ := hm
  rw [member_blockers] at hb
  rw [member_key]
  obtain ⟨hfound, hsince⟩ | ⟨hfound, hdeclared⟩ := i.since_of_mem_blockersAt hb
  · left
    exact ⟨i.mem_found_iff.mpr ⟨hmember, hfound⟩, hsince⟩
  · right
    constructor
    · intro h
      apply hfound (i.mem_found_iff.mp h).2
    · apply hdeclared

end Inputs

/-! ### Runs -/

/-- A call of the resolver: what it is given, and when. -/
structure Call where
  inputs : Inputs
  now : ℤ

/-- The resolver of one epic, which keeps its latch from call to call. -/
def resolver : Machine SinceLatch Call EpicSnapshot :=
  ⟨fun latch call =>
    let (snapshot, latch) := call.inputs.resolve latch call.now
    (latch, [snapshot])⟩

/-- When the calls at the end of a run which find a blocker began. -/
def presentSince (k : LatchKey) (calls : List Call) : Option ℤ :=
  (calls.rtakeWhile fun call => k ∈ call.inputs.found).head?.map Call.now

theorem presentSince_concat (k : LatchKey) (calls : List Call) (call : Call) :
  presentSince k (calls ++ [call])
    = if k ∈ call.inputs.found then some ((presentSince k calls).getD call.now) else none
  := by
  rw [presentSince, presentSince, List.rtakeWhile_concat]
  by_cases hk : k ∈ call.inputs.found
  · simp only [hk, decide_true, if_true]
    cases calls.rtakeWhile fun call => k ∈ call.inputs.found
    all_goals rfl
  · simp [hk]

/-- The latch remembers since when the blockers of the last call have been there. -/
theorem final_latch (calls : List Call) (k : LatchKey) :
  resolver.final (fun _ => none) calls k = presentSince k calls
  := by
  induction calls using List.reverseRecOn with
  | nil => rfl
  | append_singleton calls call ih =>
    rw [Machine.final_append, presentSince_concat, ← ih]
    apply call.inputs.resolve_latch

/-- After every call of a run, the latch has the blockers the call found, and each of them is
reported.  The age of a reported blocker is the time of the first call of its presence, unless it
was declared and not found, when it has the age it was declared with. -/
theorem blockers_latched (calls : List Call) (call : Call) :
  (∀ k, (resolver.final (fun _ => none) (calls ++ [call]) k).isSome ↔ k ∈ call.inputs.found)
    ∧ ∃ snapshot, resolver.emit (resolver.final (fun _ => none) calls) call = [snapshot]
      ∧ (∀ key kind reason, (key, kind, reason) ∈ call.inputs.found →
        ∃ m ∈ snapshot.members, m.key = key
          ∧ ∃ b ∈ m.blockers, b.kind = kind ∧ b.reason = reason)
      ∧ ∀ m ∈ snapshot.members, ∀ b ∈ m.blockers,
        some b.since = presentSince (m.key, b.kind, b.reason) (calls ++ [call])
          ∨ ((m.key, b.kind, b.reason) ∉ call.inputs.found
            ∧ ∃ declared, call.inputs.declared m.key = some declared ∧ b.since = declared.since
              ∧ b.kind = declared.kind ∧ b.reason = String.ofList (trim declared.reason.toList))
  := by
  constructor
  · intro k
    rw [final_latch, presentSince_concat]
    split
    case isTrue hk => simp [hk]
    case isFalse hk => simp [hk]
  · use (call.inputs.resolve (resolver.final (fun _ => none) calls) call.now).1, rfl
    constructor
    · intro key kind reason h
      apply call.inputs.reported_of_mem_found _ _ h
    · intro m hm b hb
      obtain ⟨hfound, hsince⟩ | declared := call.inputs.since_of_mem_members hm hb
      · left
        rw [hsince, presentSince_concat, if_pos hfound, final_latch]
      · right
        apply declared

/-- An epic of one workspace, which declared a blocker at the time 5. -/
def declaredOnly : Inputs where
  record := ⟨"epic", "epic", none, [⟨"github-1"⟩], true⟩
  workspaces := [⟨⟨"github-1"⟩, "one", none, [], []⟩]
  agentStates := fun _ => none
  declared := fun key => some ⟨key, "legal", .decision, .operator, 5⟩
  latches := ⟨fun _ => none, []⟩

/-- A declared blocker is reported with its own age, and the latch does not have it. -/
theorem declared_not_latched :
  ∃ m ∈ (declaredOnly.resolve (fun _ => none) 10).1.members, ∃ b ∈ m.blockers,
    b.since ≠ 10
      ∧ (declaredOnly.resolve (fun _ => none) 10).2 (m.key, b.kind, b.reason) = none
  := by
  have hmembers :
      (declaredOnly.resolve (fun _ => none) 10).1.members
        = [⟨⟨"github-1"⟩, 0, .blocked, [], [], [⟨.decision, "legal", .operator, 5, 0⟩], none⟩] := by
    decide +kernel
  have hlatch :
      (declaredOnly.resolve (fun _ => none) 10).2 (⟨"github-1"⟩, .decision, "legal") = none := by
    decide +kernel
  generalize declaredOnly.resolve (fun _ => none) 10 = result at hmembers hlatch
  simp only [hmembers, List.mem_singleton, exists_eq_left, hlatch]
  decide

end Lazybox.Epics
