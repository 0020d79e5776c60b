import Lazybox.Epics.CycleBlame

/-!
# The critical path of an epic

The resolver reads the longest chains off the topological order, and goes back along one of them
from the least of the members that longest chains end in.  Members that are done are on the path
like any others.
-/

namespace Lazybox.Epics

open Dependency

/-- What is known of the chains that end in a node: the node, how many nodes are on a longest one,
and which of them comes before the node. -/
abbrev PathEntry := WorkspaceKey × ℕ × Option WorkspaceKey

/-- The longest entry, and of several the least node, as the entries are visited. -/
def longestEnd (entries : List PathEntry) : Option (WorkspaceKey × ℕ) :=
  entries.foldl (fun found entry =>
    match found with
    | none => some (entry.1, entry.2.1)
    | some (node, len) =>
        if len < entry.2.1 ∨ (len = entry.2.1 ∧ entry.1.asStr < node.asStr) then
          some (entry.1, entry.2.1)
        else found) none

/-- The critical path, when the map of the entries is visited in the given order. -/
def criticalPathVisiting (visited : List PathEntry) (order : List WorkspaceKey)
    (dependsOn : WorkspaceKey → List WorkspaceKey) : List WorkspaceKey :=
  match longestEnd visited with
  | none => []
  | some (node, _) => (pathTo (bestPaths order dependsOn) order.length node).reverse

theorem criticalPath_eq (order : List WorkspaceKey) (dependsOn : WorkspaceKey → List WorkspaceKey) :
  criticalPath order dependsOn = criticalPathVisiting (bestPaths order dependsOn) order dependsOn
  := rfl

/-! ### The end of the path -/

/-- The node chains end in, and the length of the longest. -/
def ending (entry : PathEntry) : WorkspaceKey × ℕ := (entry.1, entry.2.1)

/-- An end is no shorter than another, and if as long has no greater node. -/
def EndsBetter (found other : WorkspaceKey × ℕ) : Prop :=
  other.2 < found.2 ∨ (other.2 = found.2 ∧ found.1.asStr ≤ other.1.asStr)

namespace EndsBetter

variable {a b c : WorkspaceKey × ℕ}

theorem refl (a : WorkspaceKey × ℕ) :
  EndsBetter a a
  := .inr ⟨rfl, le_refl _⟩

theorem trans (hab : EndsBetter a b) (hbc : EndsBetter b c) :
  EndsBetter a c
  := by
  obtain hlt | ⟨heq, hle⟩ := hab
  · left
    obtain hlt' | ⟨heq', -⟩ := hbc
    · omega
    · omega
  · obtain hlt' | ⟨heq', hle'⟩ := hbc
    · left
      omega
    · exact .inr ⟨heq'.trans heq, hle.trans hle'⟩

theorem antisymm (hab : EndsBetter a b) (hba : EndsBetter b a) :
  a = b
  := by
  obtain ⟨⟨key⟩, len⟩ := a
  obtain ⟨⟨key'⟩, len'⟩ := b
  obtain hlt | ⟨heq, hle⟩ := hab
  · obtain hlt' | ⟨heq', -⟩ := hba
    · exact absurd hlt' hlt.asymm
    · exact absurd heq' hlt.ne'
  · obtain hlt' | ⟨-, hle'⟩ := hba
    · exact absurd heq hlt'.ne'
    · obtain rfl : len' = len := heq
      obtain rfl : key = key' := le_antisymm hle hle'
      rfl

/-- An end is replaced by one that is longer, or as long with a lesser node. -/
theorem of_replaced (h : a.2 < b.2 ∨ (a.2 = b.2 ∧ b.1.asStr < a.1.asStr)) :
  EndsBetter b a
  := h.imp_right fun h => ⟨h.1, h.2.le⟩

theorem of_kept (h : ¬ (a.2 < b.2 ∨ (a.2 = b.2 ∧ b.1.asStr < a.1.asStr))) :
  EndsBetter a b
  := by
  push Not at h
  obtain hlt | heq := h.1.lt_or_eq
  · exact .inl hlt
  · exact .inr ⟨heq, h.2 heq.symm⟩

end EndsBetter

theorem longestEnd_concat (entries : List PathEntry) (entry : PathEntry) :
  longestEnd (entries ++ [entry]) = match longestEnd entries with
    | none => some (ending entry)
    | some found =>
        if found.2 < entry.2.1 ∨ (found.2 = entry.2.1 ∧ entry.1.asStr < found.1.asStr) then
          some (ending entry)
        else some found
  := by
  cases hfound : longestEnd entries with
  | none =>
    rw [longestEnd] at hfound
    rw [longestEnd, List.foldl_append, hfound]
    rfl
  | some found =>
    rw [longestEnd] at hfound
    rw [longestEnd, List.foldl_append, hfound]
    rfl

/-- The end that is found is that of an entry, and no entry is better. -/
theorem longestEnd_spec (entries : List PathEntry) :
  match longestEnd entries with
  | none => entries = []
  | some found =>
      found ∈ entries.map ending ∧ ∀ other ∈ entries.map ending, EndsBetter found other
  := by
  induction entries using List.reverseRecOn with
  | nil => rfl
  | append_singleton entries entry ih =>
    rw [longestEnd_concat, List.map_append, List.map_singleton]
    cases hfound : longestEnd entries with
    | none =>
      rw [hfound] at ih
      simp [ih, EndsBetter.refl]
    | some found =>
      rw [hfound] at ih
      obtain ⟨hmem, hbest⟩ := ih
      dsimp only
      by_cases hreplaced :
          found.2 < entry.2.1 ∨ (found.2 = entry.2.1 ∧ entry.1.asStr < found.1.asStr)
      · have hbetter : EndsBetter (ending entry) found := .of_replaced hreplaced
        rw [if_pos hreplaced]
        refine ⟨by simp, ?_⟩
        rw [List.forall_mem_append, List.forall_mem_singleton]
        exact ⟨fun other hother => hbetter.trans (hbest other hother), .refl _⟩
      · have hbetter : EndsBetter found (ending entry) := .of_kept hreplaced
        rw [if_neg hreplaced]
        refine ⟨List.mem_append_left _ hmem, ?_⟩
        rw [List.forall_mem_append, List.forall_mem_singleton]
        exact ⟨hbest, hbetter⟩

/-- Which end is found does not depend on how the entries are visited. -/
theorem longestEnd_perm {entries visited : List PathEntry} (h : visited.Perm entries) :
  longestEnd visited = longestEnd entries
  := by
  have hspec := longestEnd_spec entries
  have hspec' := longestEnd_spec visited
  have hends := h.map ending
  cases hend : longestEnd entries with
  | none =>
    rw [hend] at hspec
    subst hspec
    rw [h.eq_nil]
    rfl
  | some found =>
    rw [hend] at hspec
    cases hend' : longestEnd visited with
    | none =>
      rw [hend'] at hspec'
      subst hspec'
      rw [h.symm.eq_nil] at hspec
      cases hspec.1
    | some found' =>
      rw [hend'] at hspec'
      congr 1
      apply (hspec'.2 found (hends.mem_iff.mpr hspec.1)).antisymm
      apply hspec.2 found' (hends.mem_iff.mp hspec'.1)

/-! ### The entries -/

/-- A fold that replaces what it found by whatever is longer ends with something as long as
anything it went over. -/
theorem foldl_longest (len : WorkspaceKey → ℕ) (deps : List WorkspaceKey)
    (start : ℕ × Option WorkspaceKey) :
  let found := deps.foldl (fun found dep =>
    if found.1 < len dep then (len dep, some dep) else found) start
  (found = start ∨ ∃ dep ∈ deps, found = (len dep, some dep))
    ∧ start.1 ≤ found.1 ∧ ∀ dep ∈ deps, len dep ≤ found.1
  := by
  induction deps generalizing start with
  | nil => simp
  | cons dep deps ih =>
    dsimp only at ih ⊢
    rw [List.foldl_cons, List.forall_mem_cons]
    by_cases hlonger : start.1 < len dep
    · rw [if_pos hlonger]
      obtain ⟨hfound, hstart, hdeps⟩ := ih (len dep, some dep)
      refine ⟨.inr ?_, hlonger.le.trans hstart, hstart, hdeps⟩
      obtain heq | ⟨dep', hmem, heq⟩ := hfound
      · exact ⟨dep, List.mem_cons_self, heq⟩
      · exact ⟨dep', List.mem_cons_of_mem _ hmem, heq⟩
    · rw [if_neg hlonger]
      obtain ⟨hfound, hstart, hdeps⟩ := ih start
      refine ⟨?_, hstart, (Nat.le_of_not_lt hlonger).trans hstart, hdeps⟩
      obtain heq | ⟨dep', hmem, heq⟩ := hfound
      · exact .inl heq
      · exact .inr ⟨dep', List.mem_cons_of_mem _ hmem, heq⟩

/-- What was listed last for a key was listed. -/
theorem exists_lastOf {κ ν : Type} [DecidableEq κ] {entries : List (κ × ν)} {key : κ}
    (h : key ∈ entries.map Prod.fst) :
  ∃ value, lastOf entries key = some value ∧ (key, value) ∈ entries
  := by
  rw [lastOf]
  cases hfind : entries.reverse.find? fun entry => entry.1 = key with
  | none =>
    obtain ⟨entry, hmem, hkey⟩ := List.mem_map.mp h
    have := List.find?_eq_none.mp hfind entry (List.mem_reverse.mpr hmem)
    rw [decide_eq_true_eq] at this
    exact absurd hkey this
  | some entry =>
    obtain ⟨key', value⟩ := entry
    have hkey := List.find?_some hfind
    rw [decide_eq_true_eq] at hkey
    obtain rfl : key' = key := hkey
    exact ⟨value, rfl, List.mem_reverse.mp (List.mem_of_find?_eq_some hfind)⟩

theorem bestPaths_concat (order : List WorkspaceKey) (node : WorkspaceKey)
    (dependsOn : WorkspaceKey → List WorkspaceKey) :
  bestPaths (order ++ [node]) dependsOn = bestPaths order dependsOn
    ++ [(node, (dependsOn node).foldl (fun (found : ℕ × Option WorkspaceKey) dep =>
      let cand := ((lastOf (bestPaths order dependsOn) dep).map Prod.fst).getD 0 + 1
      if found.1 < cand then (cand, some dep) else found) (1, none))]
  := by
  rw [bestPaths, List.foldl_append]
  rfl

/-- An entry of a node: one node more than the node is deep, and the node before it one less
deep. -/
structure EntryOf (dependsOn : WorkspaceKey → List WorkspaceKey) (node : WorkspaceKey)
    (entry : ℕ × Option WorkspaceKey) : Prop where
  length : entry.1 = depth dependsOn node + 1
  before : match entry.2 with
    | none => dependsOn node = []
    | some dep => dep ∈ dependsOn node ∧ depth dependsOn node = depth dependsOn dep + 1

variable {dependsOn : WorkspaceKey → List WorkspaceKey}

/-- The entry that is computed for a node from those of the nodes it depends on. -/
theorem entryOf_foldl {order : List WorkspaceKey} (h : Ordered dependsOn order)
    {node : WorkspaceKey} (hnode : node ∈ order) {len : WorkspaceKey → ℕ}
    (hlen : ∀ dep ∈ dependsOn node, len dep = depth dependsOn dep + 2) :
  EntryOf dependsOn node ((dependsOn node).foldl
    (fun found dep => if found.1 < len dep then (len dep, some dep) else found) (1, none))
  := by
  obtain ⟨hfound, -, hlongest⟩ := foldl_longest len (dependsOn node) (1, none)
  obtain ⟨hdepth, hbound⟩ := h.isGreatest_insert hnode
  generalize (dependsOn node).foldl
    (fun found dep => if found.1 < len dep then (len dep, some dep) else found) (1, none)
      = found at *
  obtain rfl | ⟨dep, hdep, rfl⟩ := hfound
  · have hnone : ∀ dep, dep ∉ dependsOn node := by
      intro dep hdep
      have := hlongest dep hdep
      rw [hlen dep hdep] at this
      omega
    have hnil : dependsOn node = [] := List.eq_nil_iff_forall_not_mem.mpr hnone
    refine ⟨?_, hnil⟩
    obtain hzero | ⟨dep, hdep, -⟩ := hdepth
    · rw [hzero]
    · exact absurd hdep (hnone dep)
  · have hdeeper : depth dependsOn node = depth dependsOn dep + 1 := by
      apply le_antisymm
      · obtain hzero | ⟨dep', hdep', heq⟩ := hdepth
        · rw [hzero]
          apply Nat.zero_le
        · have := hlongest dep' hdep'
          rw [hlen dep' hdep', hlen dep hdep] at this
          rw [← heq]
          dsimp only
          omega
      · apply hbound
        exact .inr ⟨dep, hdep, rfl⟩
    refine ⟨?_, hdep, hdeeper⟩
    rw [hlen dep hdep, hdeeper]

theorem bestPaths_spec {order : List WorkspaceKey} (h : Ordered dependsOn order) :
  (bestPaths order dependsOn).map Prod.fst = order
    ∧ ∀ entry ∈ bestPaths order dependsOn, EntryOf dependsOn entry.1 entry.2
  := by
  induction order using List.reverseRecOn with
  | nil => exact ⟨rfl, nofun⟩
  | append_singleton order last ih =>
    obtain ⟨horder, hdeps⟩ := ordered_concat.mp h
    obtain ⟨hkeys, hentries⟩ := ih horder
    rw [bestPaths_concat, List.map_append, hkeys, List.forall_mem_append,
      List.forall_mem_singleton]
    refine ⟨rfl, hentries, ?_⟩
    apply entryOf_foldl h (by simp)
    intro dep hdep
    have hkey : dep ∈ (bestPaths order dependsOn).map Prod.fst := by
      rw [hkeys]
      apply hdeps dep hdep
    obtain ⟨entry, hlast, hmem⟩ := exists_lastOf hkey
    rw [hlast, Option.map_some, Option.getD_some, (hentries _ hmem).length]

/-! ### The path -/

section Path

variable {order : List WorkspaceKey} {dependsOn : WorkspaceKey → List WorkspaceKey}

/-- Going back from a node: a longest chain that ends in it. -/
theorem pathTo_spec (h : Ordered dependsOn order) {fuel : ℕ} :
  ∀ node ∈ order, depth dependsOn node < fuel →
    ∃ earlier, pathTo (bestPaths order dependsOn) fuel node = node :: earlier
      ∧ earlier.length = depth dependsOn node
      ∧ (node :: earlier).IsChain (Dependency.Edge dependsOn)
      ∧ ∀ m ∈ node :: earlier, m ∈ order
  := by
  obtain ⟨hkeys, hentries⟩ := bestPaths_spec h
  induction fuel with
  | zero =>
    intro node _ hfuel
    cases hfuel
  | succ fuel ih =>
    intro node hnode hfuel
    rw [← hkeys] at hnode
    obtain ⟨⟨len, before⟩, hlast, hmem⟩ := exists_lastOf hnode
    obtain ⟨-, hbefore⟩ := hentries _ hmem
    rw [hkeys] at hnode
    rw [pathTo, hlast]
    cases before with
    | none =>
      refine ⟨[], rfl, ?_, List.isChain_singleton node, by simpa using hnode⟩
      obtain hzero | ⟨dep, hdep, -⟩ := (h.isGreatest_insert hnode).1
      · exact hzero.symm
      · rw [show dependsOn node = [] from hbefore] at hdep
        cases hdep
    | some dep =>
      obtain ⟨hdep, hdepth⟩ := hbefore
      dsimp only at hdep hdepth
      obtain ⟨earlier, hpath, hlength, hchain, hmem⟩ :=
        ih dep (h.mem_of_mem_deps hnode hdep) (by omega)
      refine ⟨dep :: earlier, ?_, ?_, ?_, ?_⟩
      · rw [← hpath]
      · rw [List.length_cons, hlength, hdepth]
      · rw [List.isChain_cons_cons]
        exact ⟨hdep, hchain⟩
      · rw [List.forall_mem_cons]
        exact ⟨hnode, hmem⟩

/-- The path of an order: the reverse of a longest chain of it. -/
theorem criticalPath_spec (h : Ordered dependsOn order) :
  (∀ m ∈ criticalPath order dependsOn, m ∈ order)
    ∧ (criticalPath order dependsOn).IsChain (fun dep m => dep ∈ dependsOn m)
    ∧ ∀ m ∈ order, depth dependsOn m < (criticalPath order dependsOn).length
  := by
  obtain ⟨hkeys, hentries⟩ := bestPaths_spec h
  have hspec := longestEnd_spec (bestPaths order dependsOn)
  rw [criticalPath_eq, criticalPathVisiting]
  cases hend : longestEnd (bestPaths order dependsOn) with
  | none =>
    rw [hend] at hspec
    rw [← hkeys, hspec]
    simp
  | some found =>
    rw [hend] at hspec
    obtain ⟨hmem, hbest⟩ := hspec
    obtain ⟨entry, hentry, rfl⟩ := List.mem_map.mp hmem
    have hnode : entry.1 ∈ order := by
      rw [← hkeys]
      apply List.mem_map_of_mem hentry
    obtain ⟨earlier, hpath, hlength, hchain, hsub⟩ :=
      pathTo_spec h entry.1 hnode (h.depth_lt_length _ hnode)
    dsimp only [ending]
    rw [hpath]
    refine ⟨fun m hm => hsub m (List.mem_reverse.mp hm), ?_, ?_⟩
    · rw [List.isChain_reverse]
      exact hchain
    · intro m hm
      rw [List.length_reverse, List.length_cons, hlength]
      rw [← hkeys] at hm
      obtain ⟨other, hother, rfl⟩ := List.mem_map.mp hm
      have hlen := (hentries _ hother).length
      have hlen' := (hentries _ hentry).length
      obtain hlt | ⟨heq, -⟩ := hbest _ (List.mem_map_of_mem hother)
      · dsimp only [ending] at hlt
        omega
      · dsimp only [ending] at heq
        omega

end Path

namespace Inputs

variable (i : Inputs)

/-- On an epic without a cycle the critical path is made of members, leads from dependency to
dependent, and is as long as any such chain.  It is the same however the map of its entries is
visited.  Where every member leads into a cycle it is empty. -/
theorem criticalPath_longest (latch : SinceLatch) (now : ℤ) :
  let members := i.resolved.members
  let dependsOn := i.resolved.dependsOn
  let path := (i.resolve latch now).1.criticalPath
  ((∀ m ∈ members, ¬ OnCycle dependsOn m) →
      (∀ m ∈ path, m ∈ members)
        ∧ path.IsChain (fun dep m => dep ∈ dependsOn m)
        ∧ ∀ chain : List WorkspaceKey, (∀ m ∈ chain, m ∈ members) →
          chain.IsChain (fun dep m => dep ∈ dependsOn m) → chain.length ≤ path.length)
    ∧ (∀ visited : List PathEntry, visited.Perm (bestPaths i.leveling.2.1 dependsOn) →
        criticalPathVisiting visited i.leveling.2.1 dependsOn = path)
    ∧ ((∀ m ∈ members, LeadsToCycle dependsOn m) → path = [])
  := by
  intro members dependsOn path
  have hgraph : IsGraph members dependsOn := isGraph_resolvedGraph i.record i.workspaces
  have hordered : Ordered dependsOn i.leveling.2.1 := ordered_waves hgraph
  obtain ⟨hmem, hchain, hdepth⟩ := criticalPath_spec hordered
  have hsub : ∀ m ∈ i.leveling.2.1, m ∈ members :=
    fun m hm => (perm_waves hgraph).subset (List.mem_append_left _ hm)
  refine ⟨?_, ?_, ?_⟩
  · intro hacyclic
    refine ⟨fun m hm => hsub m (hmem m hm), hchain, ?_⟩
    intro chain hmembers hlinked
    obtain rfl | ⟨earlier, last, rfl⟩ := chain.eq_nil_or_concat'
    · apply Nat.zero_le
    · have hlast : last ∈ members := hmembers last (by simp)
      have hdrained : last ∈ i.leveling.2.1 := by
        by_contra hnot
        have hleads := (undrained_iff_leadsToCycle hgraph hlast).mp
          ((mem_undrained_iff hgraph hlast).mpr hnot)
        obtain ⟨c, hc, hcycle⟩ := hleads.exists_mem hgraph.closed hlast
        apply hacyclic c hc hcycle
      have hback : (last :: earlier.reverse).IsChain (Dependency.Edge dependsOn) := by
        rw [← List.reverse_concat, List.isChain_reverse]
        exact hlinked
      have hlength := (hordered.isGreatest_depth last hdrained).2 ⟨_, hback, rfl⟩
      rw [List.length_append, List.length_singleton]
      rw [List.length_reverse] at hlength
      apply hlength.trans_lt (hdepth last hdrained)
  · intro visited hvisited
    rw [criticalPathVisiting, longestEnd_perm hvisited]
    rfl
  · intro hcyclic
    apply List.eq_nil_iff_forall_not_mem.mpr
    intro m hm
    apply hordered.not_leadsToCycle m (hmem m hm)
    apply hcyclic m (hsub m (hmem m hm))

end Inputs

/-- A member whose pull request landed, and one that waited for it. -/
def afterLanded : Inputs where
  record := ⟨"epic", "epic", none, [⟨"a"⟩, ⟨"b"⟩], true⟩
  workspaces := [
    ⟨⟨"a"⟩, "a", some (pullRequest .merged "1" []), [], []⟩,
    ⟨⟨"b"⟩, "b", some (pullRequest .opened "2" ["1"]), [], []⟩]
  agentStates := fun _ => none
  declared := fun _ => none
  latches := ⟨fun _ => none, []⟩

/-- The path of an epic without a cycle begins with the member that is done. -/
theorem criticalPath_afterLanded :
  (afterLanded.resolve (fun _ => none) 0).1.criticalPath = [⟨"a"⟩, ⟨"b"⟩]
    ∧ (∀ m ∈ afterLanded.resolved.members, ¬ OnCycle afterLanded.resolved.dependsOn m)
    ∧ afterLanded.resolved.done ⟨"a"⟩ = true
  := by
  refine ⟨by decide +kernel, ?_, by decide +kernel⟩
  intro m hm hcycle
  have hnone : afterLanded.leveling.2.2 = [] := by decide +kernel
  have hundrained := (undrained_iff_leadsToCycle
    (isGraph_resolvedGraph afterLanded.record afterLanded.workspaces) hm).mpr hcycle.leadsToCycle
  change m ∈ afterLanded.leveling.2.2 at hundrained
  rw [hnone] at hundrained
  cases hundrained

end Lazybox.Epics
