import Lazybox.Epics.Waves

/-!
# Who is blamed for a cycle

The resolver reports a cycle on every member the leveling leaves undrained.  Those are the members
on a cycle and the members that depend on one, directly or not.  A worker or a label may report one
as well.
-/

namespace Lazybox.Epics

open Dependency

namespace Inputs

variable (i : Inputs)

/-- A label on a task of the member, or the worker of the member, reports a cycle with a reason. -/
def DeclaresCycle (key : WorkspaceKey) : Prop :=
  (∃ ws, i.resolved.byKey key = some ws ∧ ∃ task ∈ tasksOf ws, declaredKind task = some .cycle
      ∧ ∃ reason, task.blockedOn = some reason ∧ trim reason.toList ≠ [])
    ∨ ∃ declared, i.declared key = some declared ∧ declared.kind = .cycle
      ∧ trim declared.reason.toList ≠ []

variable {key : WorkspaceKey}

/-- Of each kind of candidate one is reported. -/
theorem exists_kind_blockersAt_iff (age : LatchKey → ℤ) {kind : BlockerKind} :
  (∃ b ∈ i.blockersAt age key, b.kind = kind) ↔ ∃ c ∈ i.candidates age key, c.kind = kind
  := by
  constructor
  · rintro ⟨b, hb, hkind⟩
    rw [mem_blockersAt_iff] at hb
    exact ⟨b, List.mem_of_find?_eq_some hb, hkind⟩
  · rintro ⟨c, hc, hkind⟩
    cases hfirst : (i.candidates age key).find? fun b => b.sortKey = c.sortKey with
    | none =>
      have := List.find?_eq_none.mp hfirst c hc
      simp at this
    | some b =>
      have hkey := List.find?_some hfirst
      rw [decide_eq_true_eq] at hkey
      refine ⟨b, ?_, (sortKey_eq_iff.mp hkey).1.trans hkind⟩
      rw [mem_blockersAt_iff, hkey, hfirst]

/-- The declared blocker of a kind is a candidate when it gives a reason. -/
theorem exists_declaredBlocker_iff
    {holds : ℕ} {declared : Option DeclaredBlocker} {kind : BlockerKind} :
  (∃ c ∈ (declared.bind (declaredBlocker holds)).toList, c.kind = kind)
    ↔ ∃ d, declared = some d ∧ d.kind = kind ∧ trim d.reason.toList ≠ []
  := by
  cases declared with
  | none => simp
  | some d =>
    rw [Option.bind_some, declaredBlocker]
    by_cases hreason : trim d.reason.toList = []
    · simp [hreason]
    · simp [hreason]

/-- A cycle is found on a member that is undrained, or that a label reports one on. -/
theorem exists_cycle_findBlockers_iff
    {resolved : Resolved} {inCycle : Bool} {published : Option (List WorkspaceKey)} :
  (∃ f ∈ findBlockers key resolved inCycle published, f.kind = .cycle)
    ↔ inCycle = true ∨ ∃ ws, resolved.byKey key = some ws ∧ ∃ task ∈ tasksOf ws,
      declaredKind task = some .cycle
        ∧ ∃ reason, task.blockedOn = some reason ∧ trim reason.toList ≠ []
  := by
  simp only [findBlockers, List.mem_append, or_and_right, exists_or]
  constructor
  · rintro ((((⟨f, hf, -⟩ | ⟨f, hf, hkind⟩) | ⟨f, hf, hkind⟩) | ⟨f, hf, hkind⟩) | ⟨f, hf, hkind⟩)
    · left
      by_contra hnot
      simp [hnot] at hf
    · obtain ⟨dep, -, rfl⟩ := List.mem_map.mp hf
      cases hkind
    · obtain ⟨producer, -, rfl⟩ := List.mem_map.mp hf
      cases hkind
    · obtain ⟨ext, -, rfl⟩ := List.mem_map.mp hf
      cases hkind
    · right
      obtain ⟨task, htask, hmap⟩ := List.mem_filterMap.mp hf
      obtain ⟨ws, hws, htask⟩ := List.mem_flatMap.mp htask
      obtain ⟨reason, hreason, rfl⟩ := Option.map_eq_some_iff.mp hmap
      obtain ⟨hblocked, htrim⟩ := Option.filter_eq_some_iff.mp hreason
      refine ⟨ws, Option.mem_toList.mp hws, task, htask, ?_, reason, hblocked, by simpa using htrim⟩
      cases hlabel : declaredKind task with
      | none =>
        rw [hlabel] at hkind
        cases hkind
      | some kind =>
        rw [hlabel] at hkind
        exact congrArg some hkind
  · rintro (hcycle | ⟨ws, hws, task, htask, hlabel, reason, hblocked, htrim⟩)
    · refine .inl (.inl (.inl (.inl ⟨⟨.cycle, "dependency cycle", .operator⟩, ?_, rfl⟩)))
      simp [hcycle]
    · refine .inr ⟨⟨.cycle, reason, .operator⟩, ?_, rfl⟩
      apply List.mem_filterMap.mpr ⟨task, ?_, ?_⟩
      · apply List.mem_flatMap.mpr ⟨ws, Option.mem_toList.mpr hws, htask⟩
      · simp [hblocked, htrim, hlabel, Option.filter]

/-- A cycle is reported on the members the leveling leaves undrained, and on those it is declared
on. -/
theorem exists_cycle_blockersAt_iff (age : LatchKey → ℤ) (hkey : key ∈ i.resolved.members) :
  (∃ b ∈ i.blockersAt age key, b.kind = .cycle)
    ↔ LeadsToCycle i.resolved.dependsOn key ∨ i.DeclaresCycle key
  := by
  have hundrained : key ∈ i.leveling.2.2 ↔ LeadsToCycle i.resolved.dependsOn key :=
    undrained_iff_leadsToCycle (isGraph_resolvedGraph i.record i.workspaces) hkey
  have hfound (holds : ℕ) : (∃ c ∈ (i.blockersOn key).map (FoundBlocker.aged key holds age),
      c.kind = .cycle) ↔ ∃ f ∈ i.blockersOn key, f.kind = .cycle := by
    simp [FoundBlocker.aged]
  rw [exists_kind_blockersAt_iff, candidates]
  simp only [List.mem_append, or_and_right, exists_or]
  rw [exists_declaredBlocker_iff, hfound, blockersOn, exists_cycle_findBlockers_iff,
    decide_eq_true_eq, hundrained, or_assoc, DeclaresCycle]

/-- A cycle is reported on exactly the members on a cycle, when every other member leads to none and
has none declared on it; and only then. -/
theorem cycle_reported_iff (latch : SinceLatch) (now : ℤ) :
  (∀ m ∈ (i.resolve latch now).1.members,
      (∃ b ∈ m.blockers, b.kind = .cycle) ↔ OnCycle i.resolved.dependsOn m.key)
    ↔ ∀ key ∈ i.resolved.members, ¬ OnCycle i.resolved.dependsOn key →
      ¬ LeadsToCycle i.resolved.dependsOn key ∧ ¬ i.DeclaresCycle key
  := by
  have hreported {key : WorkspaceKey} (hkey : key ∈ i.resolved.members) :=
    i.exists_cycle_blockersAt_iff (fun k => (latch k).getD now) hkey
  constructor
  · intro h key hkey hoff
    obtain ⟨ws, hws⟩ := Option.isSome_iff_exists.mp (loaded_of_mem_membersOf hkey)
    have hmember := h _ ((i.mem_members_iff latch now _).mpr ⟨key, hkey, ws, hws, rfl⟩)
    rw [member_blockers, member_key, hreported hkey] at hmember
    rw [← not_or, hmember]
    exact hoff
  · intro h m hm
    obtain ⟨key, hkey, ws, hws, rfl⟩ := (i.mem_members_iff latch now m).mp hm
    rw [member_blockers, member_key, hreported hkey]
    constructor
    · intro hblamed
      by_contra hoff
      obtain ⟨hleads, hdeclares⟩ := h key hkey hoff
      apply hblamed.elim hleads hdeclares
    · intro hcycle
      exact .inl hcycle.leadsToCycle

end Inputs

/-- A pull request that waits for others. -/
def pullRequest (state : TaskState) (key : String) (blockedBy : List String) : Task where
  id := ⟨"github", key⟩
  parent := none
  labels := []
  state := state
  blockedOn := none
  blockedBy := blockedBy.map (⟨"github", ·⟩)
  mergeAfter := []
  contracts := []
  ci := .none
  review := .none
  mergeable := .unknown
  mergeBlocked := false

/-- Two members that wait for each other, and a third that waits for one of them. -/
def behindCycle : Inputs where
  record := ⟨"epic", "epic", none, [⟨"a"⟩, ⟨"b"⟩, ⟨"c"⟩], true⟩
  workspaces := [
    ⟨⟨"a"⟩, "a", some (pullRequest .opened "1" ["2"]), [], []⟩,
    ⟨⟨"b"⟩, "b", some (pullRequest .opened "2" ["1"]), [], []⟩,
    ⟨⟨"c"⟩, "c", some (pullRequest .opened "3" ["1"]), [], []⟩]
  agentStates := fun _ => none
  declared := fun _ => none
  latches := ⟨fun _ => none, []⟩

/-- The third member is reported to be on a cycle, and it is not. -/
theorem cycle_reported_behindCycle :
  ∃ m ∈ (behindCycle.resolve (fun _ => none) 0).1.members,
    (∃ b ∈ m.blockers, b.kind = .cycle) ∧ ¬ OnCycle behindCycle.resolved.dependsOn m.key
  := by
  have hgraph : behindCycle.resolved.dependsOn ⟨"a"⟩ = [⟨"b"⟩]
      ∧ behindCycle.resolved.dependsOn ⟨"b"⟩ = [⟨"a"⟩]
      ∧ behindCycle.resolved.dependsOn ⟨"c"⟩ = [⟨"a"⟩] := by
    decide +kernel
  obtain ⟨ha, hb, hc⟩ := hgraph
  have hreported : ∃ m ∈ (behindCycle.resolve (fun _ => none) 0).1.members, m.key = ⟨"c"⟩
      ∧ ∃ b ∈ m.blockers, b.kind = .cycle := by
    decide +kernel
  obtain ⟨m, hm, hkey, hblocker⟩ := hreported
  refine ⟨m, hm, hblocker, ?_⟩
  rw [hkey]
  intro hcycle
  -- the edges from the third member lead to the other two, and stay there
  have hstay : ∀ k, Relation.TransGen (Dependency.Edge behindCycle.resolved.dependsOn) ⟨"c"⟩ k →
      k = ⟨"a"⟩ ∨ k = ⟨"b"⟩ := by
    intro k hpath
    induction hpath with
    | single hedge =>
        rw [Dependency.Edge, hc, List.mem_singleton] at hedge
        exact .inl hedge
    | tail _ hedge ih =>
        obtain rfl | rfl := ih
        · rw [Dependency.Edge, ha, List.mem_singleton] at hedge
          exact .inr hedge
        · rw [Dependency.Edge, hb, List.mem_singleton] at hedge
          exact .inl hedge
  obtain heq | heq := hstay _ hcycle
  · revert heq
    decide
  · revert heq
    decide

end Lazybox.Epics
