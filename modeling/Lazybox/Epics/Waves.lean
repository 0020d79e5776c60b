import Lazybox.Epics.BlockerAges
import Lazybox.Library.Dependency

/-!
# The waves of an epic

The leveling drains a member once every member it depends on was drained.  What it drains are the
members from which no path leads into a cycle, each after those it depends on and on the wave of
the longest chain below it, up to the last wave there is.
-/

namespace Lazybox.Epics

open Dependency

/-- A graph as the resolver makes them: each member and each edge is listed once, and the edges stay
among the members. -/
structure IsGraph (members : List WorkspaceKey) (dependsOn : WorkspaceKey → List WorkspaceKey) :
    Prop where
  nodup : members.Nodup
  nodup_deps : ∀ m ∈ members, (dependsOn m).Nodup
  closed : ∀ m ∈ members, ∀ d ∈ dependsOn m, d ∈ members

namespace Leveling

variable (members : List WorkspaceKey) (dependsOn : WorkspaceKey → List WorkspaceKey)

/-- Nothing is drained yet. -/
def start : Leveling where
  queue := members.filter fun m => (dependsOn m).length = 0
  wave := fun _ => 0
  indegree := fun m => (dependsOn m).length
  order := []

/-- As many rounds as there are members. -/
def drained : Leveling := (drain members dependsOn)^[members.length] (start members dependsOn)

/-- The waves that the drained ones among the dependencies of a member put it on at least. -/
def waveBounds (s : Leveling) (m : WorkspaceKey) : Set ℕ :=
  insert 0 ((fun d => min (s.wave d + 1) 65535) '' {d | d ∈ dependsOn m ∧ d ∈ s.order})

/-- What holds between two rounds. -/
structure Drains (s : Leveling) : Prop where
  nodup : (s.order ++ s.queue).Nodup
  mem_members : ∀ m ∈ s.order ++ s.queue, m ∈ members
  /-- The indegree counts the dependencies that are not drained. -/
  indegree : ∀ m ∈ members, s.indegree m = (dependsOn m).countP (· ∉ s.order)
  /-- A member is drained or in the queue once its indegree is zero. -/
  released : ∀ m ∈ members, m ∈ s.order ++ s.queue ↔ s.indegree m = 0
  ordered : Ordered dependsOn s.order
  wave : ∀ m ∈ members, IsGreatest (waveBounds dependsOn s m) (s.wave m)

variable {members dependsOn}

/-! ### Releasing the dependents -/

/-- Releasing members, each of them once. -/
theorem foldl_release {released : List WorkspaceKey} (h : released.Nodup) (wave : ℕ)
    (s : Leveling) :
  let s' := released.foldl (release wave) s
  s'.order = s.order
    ∧ (∀ m, s'.wave m = if m ∈ released then max (s.wave m) (min (wave + 1) 65535) else s.wave m)
    ∧ (∀ m, s'.indegree m = if m ∈ released then s.indegree m - 1 else s.indegree m)
    ∧ s'.queue = s.queue ++ released.filter fun m => s.indegree m - 1 = 0
  := by
  induction released generalizing s with
  | nil => simp
  | cons r released ih =>
    obtain ⟨hr, hnodup⟩ := List.nodup_cons.mp h
    obtain ⟨horder, hwave, hindegree, hqueue⟩ := ih hnodup (release wave s r)
    refine ⟨horder, ?_, ?_, ?_⟩
    · intro m
      rw [List.foldl_cons, hwave]
      by_cases hm : m = r
      · subst hm
        simp [hr, release]
      · simp [hm, release]
    · intro m
      rw [List.foldl_cons, hindegree]
      by_cases hm : m = r
      · subst hm
        simp [hr, release]
      · simp [hm, release]
    · have hsame : (released.filter fun m => (release wave s r).indegree m - 1 = 0)
          = released.filter fun m => s.indegree m - 1 = 0 := by
        apply List.filter_congr
        intro m hm
        have hne : m ≠ r := by
          rintro rfl
          apply hr hm
        simp [release, hne]
      rw [List.foldl_cons, hqueue, hsame, List.filter_cons]
      by_cases hzero : s.indegree r - 1 = 0
      · simp [release, hzero]
      · simp [release, hzero]

variable {x : WorkspaceKey}

variable {m : WorkspaceKey}

theorem mem_dependents :
  m ∈ dependents members dependsOn x ↔ m ∈ members ∧ x ∈ dependsOn m
  := by
  rw [dependents, List.mem_filter, decide_eq_true_eq]

/-- What is not drained before a member is drained after it, or it is that member. -/
theorem countP_not_mem_concat {order : List WorkspaceKey} (hx : x ∉ order)
    (deps : List WorkspaceKey) :
  deps.countP (· ∉ order) = deps.countP (· ∉ order ++ [x]) + deps.count x
  := by
  induction deps with
  | nil => rfl
  | cons d deps ih =>
    rw [List.countP_cons, List.countP_cons, List.count_cons, ih]
    by_cases hdx : d = x
    · subst hdx
      simp [hx]
      omega
    · by_cases hd : d ∈ order
      · simp [hd, hdx]
      · simp [hd, hdx]
        omega

/-! ### One round -/

variable {s : Leveling}

theorem drain_nil (h : s.queue = []) :
  drain members dependsOn s = s
  := by
  rw [drain, h]

variable {queue : List WorkspaceKey}

/-- A round drains the member that heads the queue, and releases those that depend on it. -/
theorem drain_cons (dependsOn : WorkspaceKey → List WorkspaceKey) (hmembers : members.Nodup)
    (hqueue : s.queue = x :: queue) :
  let s' := drain members dependsOn s
  let released := dependents members dependsOn x
  s'.order = s.order ++ [x]
    ∧ (∀ m, s'.wave m
        = if m ∈ released then max (s.wave m) (min (s.wave x + 1) 65535) else s.wave m)
    ∧ (∀ m, s'.indegree m = if m ∈ released then s.indegree m - 1 else s.indegree m)
    ∧ s'.queue = queue ++ released.filter fun m => s.indegree m - 1 = 0
  := by
  intro s' released
  have hs' : s' = released.foldl (release (s.wave x))
      { s with queue := queue, order := s.order ++ [x] } := by
    change drain members dependsOn s = _
    rw [drain, hqueue]
  rw [hs']
  apply foldl_release (hmembers.filter _)

/-- What heads the queue was not drained before, and all it depends on was. -/
theorem Drains.head (hs : Drains members dependsOn s) (hqueue : s.queue = x :: queue) :
  x ∈ members ∧ x ∉ s.order ∧ ∀ d ∈ dependsOn x, d ∈ s.order
  := by
  have hin : x ∈ s.order ++ s.queue := by simp [hqueue]
  have hx := hs.mem_members x hin
  refine ⟨hx, ?_, ?_⟩
  · intro hmem
    apply (List.nodup_append.mp hs.nodup).2.2 x hmem x (by simp [hqueue]) rfl
  · intro d hd
    have hzero := (hs.released x hx).mp hin
    rw [hs.indegree x hx, List.countP_eq_zero] at hzero
    simpa using hzero d hd

/-- The wave bounds after a round: one more for those that depend on the drained member. -/
theorem waveBounds_concat {s' : Leveling} (horder : s'.order = s.order ++ [x])
    (hwave : ∀ d ∈ s.order ++ [x], s'.wave d = s.wave d) :
  waveBounds dependsOn s' m
    = if x ∈ dependsOn m then insert (min (s.wave x + 1) 65535) (waveBounds dependsOn s m)
      else waveBounds dependsOn s m
  := by
  have himage : (fun d => min (s'.wave d + 1) 65535) '' {d | d ∈ dependsOn m ∧ d ∈ s'.order}
      = (fun d => min (s.wave d + 1) 65535) '' {d | d ∈ dependsOn m ∧ d ∈ s.order ++ [x]} := by
    rw [horder]
    apply Set.image_congr
    intro d hd
    rw [hwave d hd.2]
  rw [waveBounds, himage, waveBounds]
  split
  · next hdep =>
      have hset : {d | d ∈ dependsOn m ∧ d ∈ s.order ++ [x]}
          = insert x {d | d ∈ dependsOn m ∧ d ∈ s.order} := by
        ext d
        simp only [List.mem_append, List.mem_singleton, Set.mem_ofPred_eq, Set.mem_insert_iff]
        constructor
        · rintro ⟨hd, hmem | rfl⟩
          · exact .inr ⟨hd, hmem⟩
          · exact .inl rfl
        · rintro (rfl | ⟨hd, hmem⟩)
          · exact ⟨hdep, .inr rfl⟩
          · exact ⟨hd, .inl hmem⟩
      rw [hset, Set.image_insert_eq, Set.insert_comm]
  · next hdep =>
      have hset : {d | d ∈ dependsOn m ∧ d ∈ s.order ++ [x]}
          = {d | d ∈ dependsOn m ∧ d ∈ s.order} := by
        ext d
        simp only [List.mem_append, List.mem_singleton, Set.mem_ofPred_eq]
        constructor
        · rintro ⟨hd, hmem | rfl⟩
          · exact ⟨hd, hmem⟩
          · exact absurd hd hdep
        · rintro ⟨hd, hmem⟩
          exact ⟨hd, .inl hmem⟩
      rw [hset]

theorem Drains.round (h : IsGraph members dependsOn) (hs : Drains members dependsOn s)
    (hqueue : s.queue = x :: queue) :
  Drains members dependsOn (drain members dependsOn s)
  := by
  obtain ⟨hx, hfresh, hdeps⟩ := hs.head hqueue
  obtain ⟨horder, hwave, hindegree, hqueue'⟩ :=
    drain_cons dependsOn h.nodup hqueue
  have hcount : ∀ m ∈ members, s.indegree m
      = (dependsOn m).countP (· ∉ s.order ++ [x]) + if x ∈ dependsOn m then 1 else 0 := by
    intro m hm
    rw [hs.indegree m hm, countP_not_mem_concat hfresh, (h.nodup_deps m hm).count]
  -- what is released now was neither drained nor in the queue
  have hreleased : ∀ m ∈ dependents members dependsOn x, m ∉ s.order ++ s.queue := by
    intro m hm
    rw [mem_dependents] at hm
    rw [hs.released m hm.1, hcount m hm.1, if_pos hm.2]
    omega
  have hordered : Ordered dependsOn (s.order ++ [x]) := ordered_concat.mpr ⟨hs.ordered, hdeps⟩
  have hkept : ∀ d ∈ s.order ++ [x], d ∉ dependents members dependsOn x := by
    intro d hd hmem
    apply hreleased d hmem
    rw [hqueue]
    simp only [List.mem_append, List.mem_cons] at hd ⊢
    tauto
  generalize drain members dependsOn s = s' at *
  have hin : ∀ m, m ∈ s'.order ++ s'.queue ↔ m ∈ s.order ++ s.queue
      ∨ m ∈ dependents members dependsOn x ∧ s.indegree m - 1 = 0 := by
    intro m
    rw [horder, hqueue', hqueue]
    simp only [List.mem_append, List.mem_cons, List.mem_filter, decide_eq_true_eq]
    tauto
  constructor
  · have happend : s'.order ++ s'.queue = (s.order ++ s.queue)
        ++ (dependents members dependsOn x).filter fun m => s.indegree m - 1 = 0 := by
      rw [horder, hqueue', hqueue]
      simp
    rw [happend, List.nodup_append]
    refine ⟨hs.nodup, (h.nodup.filter _).filter _, ?_⟩
    rintro m hm _ hm' rfl
    apply hreleased m (List.mem_filter.mp hm').1 hm
  · intro m hm
    obtain hm | ⟨hm, -⟩ := (hin m).mp hm
    · apply hs.mem_members m hm
    · apply (mem_dependents.mp hm).1
  · intro m hm
    rw [hindegree, horder]
    have := hcount m hm
    by_cases hdep : x ∈ dependsOn m
    · rw [if_pos (mem_dependents.mpr ⟨hm, hdep⟩)]
      rw [if_pos hdep] at this
      omega
    · rw [if_neg fun hmem => hdep (mem_dependents.mp hmem).2]
      rw [if_neg hdep] at this
      omega
  · intro m hm
    rw [hin, hs.released m hm, hindegree]
    have := hcount m hm
    by_cases hdep : x ∈ dependsOn m
    · have hmem := mem_dependents.mpr ⟨hm, hdep⟩
      rw [if_pos hdep] at this
      simp only [hmem, true_and, if_true]
      omega
    · have hmem : m ∉ dependents members dependsOn x :=
        fun hmem => hdep (mem_dependents.mp hmem).2
      simp [hmem]
  · rw [horder]
    apply hordered
  · intro m hm
    rw [waveBounds_concat horder fun d hd => by rw [hwave, if_neg (hkept d hd)], hwave]
    by_cases hdep : x ∈ dependsOn m
    · rw [if_pos hdep, if_pos (mem_dependents.mpr ⟨hm, hdep⟩), max_comm]
      apply (hs.wave m hm).insert
    · rw [if_neg hdep, if_neg fun hmem => hdep (mem_dependents.mp hmem).2]
      apply hs.wave m hm

/-! ### All rounds -/

theorem drains_start (h : IsGraph members dependsOn) :
  Drains members dependsOn (start members dependsOn)
  := by
  constructor
  · simpa [start] using h.nodup.filter _
  · intro m hm
    simp only [start, List.nil_append, List.mem_filter] at hm
    apply hm.1
  · intro m hm
    simp [start]
  · intro m hm
    simp [start, hm]
  · apply ordered_nil
  · intro m hm
    simp [start, waveBounds]

/-- Rounds go on until the queue is empty, and each of them drains a member. -/
theorem drains_rounds (h : IsGraph members dependsOn) (rounds : ℕ) :
  let s := (drain members dependsOn)^[rounds] (start members dependsOn)
  Drains members dependsOn s ∧ (s.queue = [] ∨ s.order.length = rounds)
  := by
  induction rounds with
  | zero => exact ⟨drains_start h, .inr rfl⟩
  | succ rounds ih =>
    rw [Function.iterate_succ_apply']
    obtain ⟨hs, hended⟩ := ih
    generalize (drain members dependsOn)^[rounds] (start members dependsOn) = s at *
    cases hqueue : s.queue with
    | nil =>
      rw [drain_nil hqueue]
      exact ⟨hs, .inl hqueue⟩
    | cons x queue =>
      refine ⟨hs.round h hqueue, .inr ?_⟩
      obtain hnil | hlength := hended
      · rw [hqueue] at hnil
        cases hnil
      · rw [(drain_cons dependsOn h.nodup hqueue).1, List.length_append, hlength]
        rfl

/-- As many rounds as there are members empty the queue. -/
theorem drained_queue (h : IsGraph members dependsOn) :
  (drained members dependsOn).queue = []
  := by
  obtain ⟨hs, hnil | hlength⟩ := drains_rounds h members.length
  · exact hnil
  · have hsub := (List.subperm_of_subset hs.nodup hs.mem_members).length_le
    rw [List.length_append, hlength] at hsub
    apply List.eq_nil_of_length_eq_zero
    rw [drained]
    omega

theorem drains_drained (h : IsGraph members dependsOn) :
  Drains members dependsOn (drained members dependsOn)
  := (drains_rounds h members.length).1

/-- A member is drained once all it depends on is. -/
theorem mem_drained_order_iff (h : IsGraph members dependsOn) (hm : m ∈ members) :
  m ∈ (drained members dependsOn).order ↔ (drained members dependsOn).indegree m = 0
  := by
  have hreleased := (drains_drained h).released m hm
  rwa [drained_queue h, List.append_nil] at hreleased

end Leveling

open Leveling

theorem waves_eq (members : List WorkspaceKey) (dependsOn : WorkspaceKey → List WorkspaceKey) :
  waves members dependsOn = ((drained members dependsOn).wave, (drained members dependsOn).order,
    members.filter fun m => 0 < (drained members dependsOn).indegree m)
  := rfl

section Waves

variable {members : List WorkspaceKey} {dependsOn : WorkspaceKey → List WorkspaceKey}

/-- The undrained members are those that were not drained. -/
theorem mem_undrained_iff (h : IsGraph members dependsOn) {m : WorkspaceKey} (hm : m ∈ members) :
  m ∈ (waves members dependsOn).2.2 ↔ m ∉ (waves members dependsOn).2.1
  := by
  rw [waves_eq, List.mem_filter, mem_drained_order_iff h hm, decide_eq_true_eq]
  simp [hm, Nat.pos_iff_ne_zero]

theorem ordered_waves (h : IsGraph members dependsOn) :
  Ordered dependsOn (waves members dependsOn).2.1
  := (drains_drained h).ordered

theorem undrained_iff_leadsToCycle (h : IsGraph members dependsOn) {m : WorkspaceKey}
    (hm : m ∈ members) :
  m ∈ (waves members dependsOn).2.2 ↔ LeadsToCycle dependsOn m
  := by
  rw [mem_undrained_iff h hm]
  refine (ordered_waves h).not_mem_iff h.closed ?_ hm
  intro m hm hdeps
  apply (mem_drained_order_iff h hm).mpr
  rw [(drains_drained h).indegree m hm, List.countP_eq_zero]
  intro d hd
  rw [decide_eq_true_eq, not_not]
  apply hdeps d hd

theorem perm_waves (h : IsGraph members dependsOn) :
  ((waves members dependsOn).2.1 ++ (waves members dependsOn).2.2).Perm members
  := by
  have hdrains := drains_drained h
  have horder : (waves members dependsOn).2.1.Nodup := hdrains.nodup.of_append_left
  have hsub : ∀ m ∈ (waves members dependsOn).2.1, m ∈ members :=
    fun m hm => hdrains.mem_members m (List.mem_append_left _ hm)
  rw [List.perm_ext_iff_of_nodup ?_ h.nodup]
  · intro m
    rw [List.mem_append]
    constructor
    · rintro (hm | hm)
      · apply hsub m hm
      · apply List.mem_of_mem_filter hm
    · intro hm
      rw [mem_undrained_iff h hm]
      apply em
  · rw [List.nodup_append]
    refine ⟨horder, h.nodup.filter _, ?_⟩
    rintro m hm _ hm' rfl
    apply (mem_undrained_iff h (hsub m hm)).mp hm' hm

/-- A drained member is on the wave of the longest chain below it, up to the last wave. -/
theorem wave_eq_depth (h : IsGraph members dependsOn) :
  ∀ m ∈ (waves members dependsOn).2.1,
    (waves members dependsOn).1 m = min (depth dependsOn m) 65535
  := by
  have hdrains := drains_drained h
  have hordered := hdrains.ordered
  have hcap : Monotone fun n => min n 65535 := fun _ _ hle => min_le_min_right _ hle
  suffices hall : ∀ m ∈ (drained members dependsOn).order, m ∈ (drained members dependsOn).order →
      (drained members dependsOn).wave m = min (depth dependsOn m) 65535 from
    fun m hm => hall m hm hm
  refine hordered.induction ?_
  intro m hdeps hm
  have hbounds : waveBounds dependsOn (drained members dependsOn) m
      = (fun n => min n 65535)
          '' insert 0 ((fun d => depth dependsOn d + 1) '' {d | d ∈ dependsOn m}) := by
    rw [waveBounds, Set.image_insert_eq, Set.image_image]
    congr 1
    ext n
    simp only [Set.mem_image, Set.mem_ofPred_eq]
    constructor
    · rintro ⟨d, ⟨hd, hmem⟩, rfl⟩
      refine ⟨d, hd, ?_⟩
      rw [hdeps d hd hmem]
      omega
    · rintro ⟨d, hd, rfl⟩
      have hmem := hordered.mem_of_mem_deps hm hd
      refine ⟨d, ⟨hd, hmem⟩, ?_⟩
      rw [hdeps d hd hmem]
      omega
  have hgreatest := hdrains.wave m (hdrains.mem_members m (List.mem_append_left _ hm))
  rw [hbounds] at hgreatest
  exact hgreatest.unique (hcap.map_isGreatest (hordered.isGreatest_insert hm))

/-- The rounds end; what is drained and what is not make up the members; each drained member comes
after those it depends on, and is on the wave of the longest chain below it, up to the last wave;
and undrained are the members from which a path leads into a cycle. -/
theorem waves_levels (h : IsGraph members dependsOn) :
  let (wave, order, cycle) := waves members dependsOn
  ((drain members dependsOn)^[members.length] (start members dependsOn)).queue = []
    ∧ (order ++ cycle).Perm members
    ∧ (∀ before m after, order = before ++ m :: after → ∀ d ∈ dependsOn m, d ∈ before)
    ∧ (∀ m ∈ order, ∃ longest,
        IsGreatest (chainLengths dependsOn m) longest ∧ wave m = min longest 65535)
    ∧ ∀ m ∈ members, m ∈ cycle ↔ LeadsToCycle dependsOn m
  := by
  refine ⟨drained_queue h, perm_waves h, ordered_waves h, ?_, ?_⟩
  · intro m hm
    exact ⟨_, (ordered_waves h).isGreatest_depth m hm, wave_eq_depth h m hm⟩
  · intro m hm
    apply undrained_iff_leadsToCycle h hm

end Waves

/-- Two members in a row, one that depends on itself, and one that depends on that. -/
theorem waves_levels_loop :
  let members : List WorkspaceKey := [⟨"d"⟩, ⟨"c"⟩, ⟨"b"⟩, ⟨"a"⟩]
  let dependsOn (m : WorkspaceKey) : List WorkspaceKey :=
    if m = ⟨"b"⟩ then [⟨"a"⟩]
    else if m = ⟨"c"⟩ then [⟨"b"⟩, ⟨"c"⟩]
    else if m = ⟨"d"⟩ then [⟨"c"⟩]
    else []
  (waves members dependsOn).2.1 = [⟨"a"⟩, ⟨"b"⟩]
    ∧ LeadsToCycle dependsOn ⟨"d"⟩
  := by
  intro members dependsOn
  have hgraph : IsGraph members dependsOn := ⟨by decide, by decide, by decide⟩
  have hundrained : (⟨"d"⟩ : WorkspaceKey) ∈ (waves members dependsOn).2.2 := by decide +kernel
  refine ⟨by decide +kernel, ?_⟩
  apply ((waves_levels hgraph).2.2.2.2 _ (by decide)).mp hundrained

/-! ### The graph of an epic -/

theorem nodup_foldl_push {keys members : List WorkspaceKey} (h : members.Nodup) :
  (keys.foldl push members).Nodup
  := by
  induction keys generalizing members with
  | nil => exact h
  | cons key keys ih =>
    rw [List.foldl_cons]
    apply ih
    rw [push]
    split
    · exact h
    · next hkey =>
        rw [List.nodup_append]
        refine ⟨h, List.nodup_singleton key, ?_⟩
        rintro m hm _ hm' rfl
        rw [List.mem_singleton] at hm'
        apply hkey (hm' ▸ hm)

theorem nodup_sortedKeys (keys : List WorkspaceKey) :
  (sortedKeys keys).Nodup
  := (List.perm_insertionSort _ _).nodup_iff.mpr keys.nodup_dedup

theorem mem_sortedKeys {keys : List WorkspaceKey} {key : WorkspaceKey} :
  key ∈ sortedKeys keys ↔ key ∈ keys
  := by
  rw [sortedKeys, List.mem_insertionSort, List.mem_dedup]

theorem edgeTo_internal {workspaces : List Workspace} {members : List WorkspaceKey}
    {key other : WorkspaceKey} {id : TaskId}
    (h : (edgeTo workspaces members key id).member? = some other) :
  other ∈ members
  := by
  rw [edgeTo] at h
  split at h
  · split at h
    · cases h
    · split at h
      · next hmem =>
          cases h
          exact hmem
      · cases h
  · cases h

/-- The resolver lists members and edges once, and keeps edges among the members. -/
theorem isGraph_resolvedGraph (record : EpicRecord) (workspaces : List Workspace) :
  IsGraph (resolvedGraph record workspaces).members (resolvedGraph record workspaces).dependsOn
  := by
  constructor
  · apply nodup_foldl_push List.nodup_nil
  · intro m _
    apply nodup_sortedKeys
  · intro m _ d hd
    obtain ⟨id, -, hid⟩ := List.mem_filterMap.mp (mem_sortedKeys.mp hd)
    apply edgeTo_internal hid

/-- So is the graph of the pull requests that are ordered for merging. -/
theorem isGraph_mergeOrder (record : EpicRecord) (workspaces : List Workspace) :
  let resolved := resolvedGraph record workspaces
  let prMembers := resolved.members.filter resolved.hasPr
  IsGraph prMembers fun m =>
    if m ∈ prMembers then (resolved.mergeAfter m).filter (· ∈ prMembers) else []
  := by
  intro resolved prMembers
  constructor
  · apply (nodup_foldl_push List.nodup_nil).filter
  · intro m hm
    rw [if_pos hm]
    apply (nodup_sortedKeys _).filter
  · intro m hm d hd
    rw [if_pos hm] at hd
    simpa using (List.mem_filter.mp hd).2

/-! ### The last wave -/

/-- A member that depends on the one below it, and so on down to the ground. -/
def tower (n : ℕ) : WorkspaceKey := ⟨String.ofList (List.replicate n 'a')⟩

def below (m : WorkspaceKey) : List WorkspaceKey :=
  match m.asStr.length with
  | 0 => []
  | n + 1 => [tower n]

theorem tower_injective :
  Function.Injective tower
  := by
  intro m n h
  have hlist := congrArg (fun k : WorkspaceKey => k.asStr.length) h
  simpa [tower] using hlist

theorem below_tower (n : ℕ) :
  below (tower (n + 1)) = [tower n]
  := by
  simp [below, tower]

theorem isGraph_tower (height : ℕ) :
  IsGraph ((List.range height).map tower) below
  := by
  constructor
  · apply List.nodup_range.map tower_injective
  · intro m _
    rw [below]
    split
    · apply List.nodup_nil
    · apply List.nodup_singleton
  · intro m hm d hd
    obtain ⟨n, hn, rfl⟩ := List.mem_map.mp hm
    cases n with
    | zero => simp [below, tower] at hd
    | succ n =>
      rw [below_tower, List.mem_singleton] at hd
      rw [List.mem_range] at hn
      apply List.mem_map.mpr ⟨n, List.mem_range.mpr (by omega), hd.symm⟩

theorem isGreatest_tower (n : ℕ) :
  IsGreatest (chainLengths below (tower n)) n
  := by
  induction n with
  | zero =>
    rw [chainLengths_eq]
    simp [below, tower]
  | succ n ih =>
    rw [chainLengths_eq, below_tower]
    simp only [List.mem_singleton, Set.iUnion_iUnion_eq_left]
    have hmono : Monotone Nat.succ := fun _ _ => Nat.succ_le_succ
    have hgreatest := (hmono.map_isGreatest ih).insert 0
    rwa [max_eq_right (Nat.zero_le _)] at hgreatest

theorem not_leadsToCycle_tower (n : ℕ) :
  ¬ LeadsToCycle below (tower n)
  := by
  induction n with
  | zero =>
    rw [leadsToCycle_iff]
    simp [below, tower]
  | succ n ih =>
    rw [leadsToCycle_iff, below_tower]
    simpa using ih

/-- Every level of a tower is drained, and on the wave of its height up to the last wave. -/
theorem wave_tower {n height : ℕ} (hn : n < height) :
  let w := waves ((List.range height).map tower) below
  tower n ∈ w.2.1 ∧ w.1 (tower n) = min n 65535
  := by
  intro w
  have hgraph := isGraph_tower height
  have hmem : tower n ∈ (List.range height).map tower :=
    List.mem_map_of_mem (List.mem_range.mpr hn)
  have hdrained : tower n ∈ w.2.1 := by
    by_contra hnot
    rw [← mem_undrained_iff hgraph hmem, undrained_iff_leadsToCycle hgraph hmem] at hnot
    apply not_leadsToCycle_tower n hnot
  have hdepth := (ordered_waves hgraph).isGreatest_depth _ hdrained
  refine ⟨hdrained, ?_⟩
  rw [wave_eq_depth hgraph _ hdrained, hdepth.unique (isGreatest_tower n)]

/-- A chain that is longer than there are waves: the top of it is on the last wave, one too low. -/
theorem waves_tower :
  let w := waves ((List.range 65537).map tower) below
  tower 65536 ∈ w.2.1
    ∧ IsGreatest (chainLengths below (tower 65536)) 65536
    ∧ w.1 (tower 65536) = 65535
  := by
  have hlt : 65536 < 65537 := by omega
  obtain ⟨hdrained, hwave⟩ := wave_tower hlt
  refine ⟨hdrained, isGreatest_tower 65536, ?_⟩
  rw [hwave]
  omega

end Lazybox.Epics
