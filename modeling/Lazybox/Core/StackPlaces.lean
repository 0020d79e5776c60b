import Lazybox.Core.Stack

/-!
# The places in a stack

When no two open pull requests have the same id, or the same head branch in a repository, the
parents and the children are those the branches say, and every linked pull request gets a place.
It is at most as far up as its stack is high.  Away from cycles it is one above its parent, and the
height of the stack is the place that is furthest up.
-/

namespace Lazybox.Stack

open MapM
open ParentLinks (SitsOn SameTree Rooted)
open Dependency (LeadsToCycle)

/-- The base branch of the first pull request is the head branch of the second one. -/
def StackedOn (tasks : List Task) (id below : TaskId) : Prop :=
  ∃ pr ∈ openPrs tasks, ∃ base ∈ openPrs tasks, pr.id = id ∧ base.id = below ∧ below ≠ id
    ∧ pr.repo = base.repo ∧ pr.baseBranch = base.branch

/-- No links lead from the pull request into a cycle. -/
def Acyclic (tasks : List Task) (id : TaskId) : Prop :=
  ∀ below, Relation.ReflTransGen (StackedOn tasks) id below →
    ¬ Relation.TransGen (StackedOn tasks) below below

/-- Links connect the two pull requests. -/
def SameStack (tasks : List Task) : TaskId → TaskId → Prop :=
  Relation.EqvGen (StackedOn tasks)

structure LaidOut (tasks : List Task) (out : TaskId → Option StackPosition) : Prop where
  /-- Exactly the linked ones appear. -/
  appears : ∀ id, (out id).isSome
    ↔ (∃ below, StackedOn tasks id below) ∨ ∃ above, StackedOn tasks above id
  parent : ∀ id place, out id = some place →
    ∀ below, place.parent = some below ↔ StackedOn tasks id below
  children : ∀ id place, out id = some place →
    place.children.Nodup ∧ ∀ above, above ∈ place.children ↔ StackedOn tasks above id
  inverse : ∀ below above, (∃ place, out above = some place ∧ place.parent = some below)
    ↔ ∃ place, out below = some place ∧ above ∈ place.children
  bounds : ∀ id place, out id = some place → 1 ≤ place.position ∧ place.position ≤ place.depth
  bottom : ∀ id place, out id = some place → place.parent = none → place.position = 1
  next : ∀ id below place place', Acyclic tasks id → out id = some place →
    place.parent = some below → out below = some place' → place.position = place'.position + 1
  depth_eq : ∀ id id' place place', Acyclic tasks id → SameStack tasks id id' →
    out id = some place → out id' = some place' → place.depth = place'.depth
  depth_greatest : ∀ id place, Acyclic tasks id → out id = some place →
    IsGreatest {k | ∃ id' place', SameStack tasks id id' ∧ out id' = some place'
      ∧ place'.position = k} place.depth

/-! ### Links -/

section Links

variable {prs : List Task} {pr : Task} {id below above : TaskId}

theorem mem_heads {repo head : String} :
  ((repo, head), id) ∈ heads prs
    ↔ ∃ pr ∈ prs, pr.repo = some repo ∧ pr.branch = some head ∧ pr.id = id
  := by
  simp only [heads, List.mem_filterMap, Option.bind_eq_bind, Option.bind_eq_some_iff]
  constructor
  · rintro ⟨pr, hpr, _, hrepo, _, hhead, heq⟩
    cases heq
    exact ⟨pr, hpr, hrepo, hhead, rfl⟩
  · rintro ⟨pr, hpr, hrepo, hhead, rfl⟩
    exact ⟨pr, hpr, repo, hrepo, head, hhead, rfl⟩

theorem parentOf_eq_some :
  parentOf prs pr = some below
    ↔ ∃ repo base, pr.repo = some repo ∧ pr.baseBranch = some base
      ∧ Keyed.last (heads prs) (repo, base) = some below ∧ below ≠ pr.id
  := by
  simp only [parentOf, Option.bind_eq_bind, Option.bind_eq_some_iff]
  constructor
  · rintro ⟨repo, hrepo, base, hbase, parentId, hlast, hne⟩
    split at hne
    · next hother =>
        cases hne
        exact ⟨repo, base, hrepo, hbase, hlast, hother⟩
    · cases hne
  · rintro ⟨repo, base, hrepo, hbase, hlast, hother⟩
    exact ⟨repo, hrepo, base, hbase, below, hlast, if_pos hother⟩

theorem mem_links :
  (id, below) ∈ links prs ↔ ∃ pr ∈ prs, pr.id = id ∧ parentOf prs pr = some below
  := by
  simp only [links, List.mem_filterMap, Option.map_eq_some_iff, Prod.mk.injEq]
  constructor
  · rintro ⟨pr, hpr, _, hparent, rfl, rfl⟩
    exact ⟨pr, hpr, rfl, hparent⟩
  · rintro ⟨pr, hpr, rfl, hparent⟩
    exact ⟨pr, hpr, below, hparent, rfl, rfl⟩

/-- Both ends of a link are listed. -/
theorem mem_ids_of_mem_links (h : (id, below) ∈ links prs) :
  id ∈ prs.map (·.id) ∧ below ∈ prs.map (·.id)
  := by
  obtain ⟨pr, hpr, rfl, hparent⟩ := mem_links.mp h
  obtain ⟨repo, base, -, -, hlast, -⟩ := parentOf_eq_some.mp hparent
  obtain ⟨other, hother, -, -, rfl⟩ := mem_heads.mp (Keyed.mem_of_last hlast)
  exact ⟨List.mem_map_of_mem hpr, List.mem_map_of_mem hother⟩

section Distinct

variable (distinct : (prs.map (·.id)).Nodup)
include distinct

theorem nodup_links :
  ((links prs).map Prod.fst).Nodup
  := by
  apply List.Nodup.sublist _ distinct
  apply Keyed.sublist_map_filterMap
  intro pr _ link hlink
  obtain ⟨below, -, rfl⟩ := Option.map_eq_some_iff.mp hlink
  rfl

theorem parent_eq_some :
  parent prs id = some below ↔ (id, below) ∈ links prs
  := (Keyed.Single.of_nodup (nodup_links distinct) id).last_eq_some_iff

theorem mem_children :
  above ∈ children prs id ↔ SitsOn (parent prs) above id
  := by
  rw [children, Ranking.mem_sortBy, SitsOn, parent_eq_some distinct]
  simp

theorem nodup_children :
  (children prs id).Nodup
  := by
  rw [children, (Ranking.sortBy_perm _ _).nodup_iff]
  apply (nodup_links distinct).sublist (List.filter_sublist.map _)

end Distinct

end Links

/-! ### One place -/

section Place

variable {parent : TaskId → Option TaskId} {children : TaskId → List TaskId} {nodes : List TaskId}
  {fuel : ℕ} {id : TaskId}

/-- What the walks from a node find: the nodes above it up to where the walk stops, and the longest
path down from there. -/
structure Found (parent : TaskId → Option TaskId) (children : TaskId → List TaskId) (fuel : ℕ)
    (id : TaskId) (position depth : ℕ) : Prop where
  position_eq : positionFromBottom parent fuel id = some position
  depth_eq : chainDepth parent children fuel id = some depth
  walks : ∃ above, Climb parent [id] id above ∧ position = 1 + above.length
    ∧ IsGreatest {k | ∃ path, Descent parent []
        ((id :: above).getLast (List.cons_ne_nil id above)) path ∧ k = path.length + 1} depth

theorem Climb.nodup_cons {above : List TaskId} (h : Climb parent [id] id above) :
  (id :: above).Nodup
  := by
  rw [List.nodup_cons]
  refine ⟨?_, h.nodup⟩
  intro hid
  apply h.fresh id hid (List.mem_singleton_self id)

/-- Walked back, a walk up is a path down. -/
theorem Climb.descent {above : List TaskId} (h : Climb parent [id] id above) :
  ∃ path, Descent parent [] ((id :: above).getLast (List.cons_ne_nil id above)) path
    ∧ path.length = above.length
  := by
  have hreverse : (id :: above).reverse
      = (id :: above).getLast (List.cons_ne_nil id above) :: (id :: above).dropLast.reverse := by
    rw [← List.reverse_concat, List.dropLast_append_getLast]
  use (id :: above).dropLast.reverse
  constructor
  · constructor
    · rw [← hreverse, List.isChain_reverse]
      exact h.chain
    · rw [← hreverse, List.nodup_reverse]
      exact h.nodup_cons
    · intro a _
      exact List.not_mem_nil
  · simp

theorem Found.position_le_depth {position depth : ℕ}
    (h : Found parent children fuel id position depth) :
  1 ≤ position ∧ position ≤ depth
  := by
  obtain ⟨above, climb, rfl, -, hbound⟩ := h.walks
  obtain ⟨path, descent, hlength⟩ := climb.descent
  have hle := hbound ⟨path, descent, rfl⟩
  omega

/-- Away from cycles, the position is how far up from the root the node is. -/
theorem Found.rooted {position depth : ℕ} (h : Found parent children fuel id position depth)
    (acyclic : ¬ LeadsToCycle (fun a => (parent a).toList) id) :
  ∃ root, Rooted parent root position id
    ∧ IsGreatest {k | ∃ above, Rooted parent root k above} depth
  := by
  obtain ⟨above, climb, rfl, hgreatest⟩ := h.walks
  set root := (id :: above).getLast (List.cons_ne_nil id above)
  have htop : parent root = none := by
    cases hroot : parent root with
    | none => rfl
    | some p =>
      exfalso
      apply acyclic
      apply ParentLinks.leadsToCycle_of_chain climb.chain _ hroot
      simpa using climb.ends p hroot
  have hrooted : Rooted parent root (1 + above.length) id :=
    Rooted.of_chain climb.chain (.root htop)
  use root, hrooted
  convert hgreatest using 1
  ext k
  constructor
  · rintro ⟨z, hz⟩
    obtain ⟨way, hchain, hlast, rfl⟩ := hz.exists_chain
    have hclimb : Climb parent [z] z way := by
      have hnodup := List.nodup_cons.mp (hz.nodup_chain hchain)
      refine ⟨hchain, hnodup.2, ?_, ?_⟩
      · rintro a ha hmem
        rw [List.mem_singleton] at hmem
        apply hnodup.1 (hmem ▸ ha)
      · intro p hp
        rw [hlast, SitsOn, htop] at hp
        cases hp
    obtain ⟨path, descent, hlength⟩ := hclimb.descent
    rw [hlast] at descent
    use path, descent
    rw [hlength]
  · rintro ⟨path, descent, rfl⟩
    obtain ⟨z, way, hway⟩ := List.exists_cons_of_ne_nil
      (mt List.reverse_eq_nil_iff.mp (List.cons_ne_nil root path))
    have hchain : (z :: way).IsChain (SitsOn parent) := by
      rw [← hway, List.isChain_reverse]
      exact descent.chain
    have hlast : (z :: way).getLast (List.cons_ne_nil z way) = root := by
      rw [List.getLast_eq_iff_getLast?_eq_some, ← hway]
      simp
    have hlength : path.length = way.length := by
      have hcons := congrArg List.length hway
      simpa using hcons
    use z
    rw [hlength, Nat.add_comm]
    apply Rooted.of_chain hchain
    rw [hlast]
    exact .root htop

/-- With a bound above the number of nodes, both walks end. -/
theorem exists_found (closed : ∀ a p, SitsOn parent a p → a ∈ nodes ∧ p ∈ nodes)
    (inverse : ∀ a c, c ∈ children a ↔ SitsOn parent c a) (hfuel : nodes.length < fuel)
    (hid : id ∈ nodes) :
  ∃ position depth, Found parent children fuel id position depth
  := by
  have hless : ∀ seen, unseen nodes seen < fuel := by
    intro seen
    apply Nat.lt_of_le_of_lt (List.length_filter_le _ _) hfuel
  obtain ⟨above, climb, hcount, hroot⟩ :=
    exists_climb (fun a p hp => (closed a p hp).2) (hless [id]) id 1
  set root := (id :: above).getLast (List.cons_ne_nil id above)
  have hmem : root ∈ nodes := by
    have hreach : Relation.ReflTransGen (SitsOn parent) id root :=
      (ParentLinks.reaches_of_chain climb.chain List.mem_cons_self).2
    obtain heq | ⟨c, -, hlink⟩ := hreach.cases_tail
    · rwa [heq]
    · apply (closed c root hlink).2
  obtain ⟨depth, hdepth⟩ :=
    exists_subtreeHeight (fun a c hc => (closed c a ((inverse a c).mp hc)).1) (hless []) hmem
  use 1 + above.length, depth
  refine ⟨hcount, ?_, above, climb, rfl, ?_⟩
  · rw [chainDepth, hroot]
    exact hdepth
  · apply isGreatest_subtreeHeight inverse hdepth List.not_mem_nil

end Place

/-! ### Every place -/

section Places

variable {prs : List Task} {fuel : ℕ} {id : TaskId}

def Linked (prs : List Task) (id : TaskId) : Prop :=
  (∃ below, (id, below) ∈ links prs) ∨ ∃ above, (above, id) ∈ links prs

theorem linked_iff (distinct : (prs.map (·.id)).Nodup) :
  ((parent prs id).isSome || !(children prs id).isEmpty) = true ↔ Linked prs id
  := by
  simp only [Bool.or_eq_true, Option.isSome_iff_exists, Bool.not_eq_true',
    List.isEmpty_eq_false_iff_exists_mem, parent_eq_some distinct, mem_children distinct, SitsOn,
    Linked]

theorem Linked.mem_ids (h : Linked prs id) :
  id ∈ prs.map (·.id)
  := by
  obtain ⟨below, hlink⟩ | ⟨above, hlink⟩ := h
  · apply (mem_ids_of_mem_links hlink).1
  · apply (mem_ids_of_mem_links hlink).2

theorem exists_found_of_mem (distinct : (prs.map (·.id)).Nodup) (hfuel : prs.length < fuel)
    (hid : id ∈ prs.map (·.id)) :
  ∃ position depth, Found (parent prs) (children prs) fuel id position depth
  := by
  apply exists_found _ (fun a c => mem_children distinct) _ hid
  · intro a p hlink
    apply mem_ids_of_mem_links ((parent_eq_some distinct).mp hlink)
  · rwa [List.length_map]

/-- Exactly the linked pull requests have a place, which is what the walks find. -/
def Places (prs : List Task) (fuel : ℕ) (out : TaskId → Option StackPosition) : Prop :=
  ∀ id place, out id = some place ↔ Linked prs id
    ∧ ∃ position depth, Found (parent prs) (children prs) fuel id position depth
      ∧ place = ⟨parent prs id, children prs id, position, depth⟩

/-- With a bound above the number of open pull requests, the places are found. -/
theorem exists_detectStacks {tasks : List Task}
    (distinct : ((openPrs tasks).map (·.id)).Nodup) (hfuel : (openPrs tasks).length < fuel) :
  ∃ out, detectStacks fuel tasks = some out ∧ Places (openPrs tasks) fuel out
  := by
  set prs := openPrs tasks
  choose! position depth hfound using
    fun id (hid : id ∈ prs.map (·.id)) => exists_found_of_mem distinct hfuel hid
  let placeOf (id : TaskId) : StackPosition :=
    ⟨parent prs id, children prs id, position id, depth id⟩
  set linked := prs.filter fun pr => (parent prs pr.id).isSome || !(children prs pr.id).isEmpty
    with hlinked
  set entries := linked.map fun pr => (pr.id, placeOf pr.id) with hentries
  have hplace : linked.mapM (place prs fuel) = some entries := by
    rw [mapM_eq_some, List.forall₂_map_right_iff, List.forall₂_same]
    intro pr hpr
    have hmem := List.mem_map_of_mem (f := fun pr : Task => pr.id) (List.mem_filter.mp hpr).1
    rw [place, (hfound pr.id hmem).position_eq, (hfound pr.id hmem).depth_eq]
    rfl
  have hmem : ∀ id p, (id, p) ∈ entries ↔ Linked prs id ∧ p = placeOf id := by
    intro id p
    rw [hentries, List.mem_map]
    constructor
    · rintro ⟨pr, hpr, heq⟩
      obtain ⟨rfl, rfl⟩ := Prod.mk.inj heq
      exact ⟨(linked_iff distinct).mp (List.mem_filter.mp hpr).2, rfl⟩
    · rintro ⟨hlink, rfl⟩
      obtain ⟨pr, hpr, rfl⟩ := List.mem_map.mp hlink.mem_ids
      use pr, List.mem_filter.mpr ⟨hpr, (linked_iff distinct).mpr hlink⟩
  use Keyed.last entries
  refine ⟨?_, ?_⟩
  · rw [detectStacks, ← hlinked, hplace]
    rfl
  · intro id p
    have hsingle : Keyed.Single entries id := by
      intro v v' hv hv'
      rw [((hmem id v).mp hv).2, ((hmem id v').mp hv').2]
    rw [hsingle.last_eq_some_iff, hmem]
    apply and_congr_right
    intro hlink
    have hid := hfound id hlink.mem_ids
    constructor
    · rintro rfl
      use position id, depth id, hid
    · rintro ⟨n, m, found, rfl⟩
      obtain rfl := Option.some.inj (found.position_eq.symm.trans hid.position_eq)
      obtain rfl := Option.some.inj (found.depth_eq.symm.trans hid.depth_eq)
      rfl

namespace Places

variable {out : TaskId → Option StackPosition} {p : StackPosition} (h : Places prs fuel out)
include h

theorem found (hout : out id = some p) :
  Found (parent prs) (children prs) fuel id p.position p.depth
  := by
  obtain ⟨-, position, depth, hfound, rfl⟩ := (h id p).mp hout
  exact hfound

theorem parent_eq (hout : out id = some p) :
  p.parent = parent prs id
  := by
  obtain ⟨-, position, depth, -, rfl⟩ := (h id p).mp hout
  rfl

theorem children_eq (hout : out id = some p) :
  p.children = children prs id
  := by
  obtain ⟨-, position, depth, -, rfl⟩ := (h id p).mp hout
  rfl

variable (distinct : (prs.map (·.id)).Nodup) (hfuel : prs.length < fuel)
include distinct hfuel

theorem exists_iff :
  (∃ p, out id = some p) ↔ Linked prs id
  := by
  constructor
  · rintro ⟨p, hout⟩
    exact ((h id p).mp hout).1
  · intro hlink
    obtain ⟨position, depth, hfound⟩ := exists_found_of_mem distinct hfuel hlink.mem_ids
    use ⟨parent prs id, children prs id, position, depth⟩
    rw [h id]
    exact ⟨hlink, position, depth, hfound, rfl⟩

theorem inverse (above below : TaskId) :
  (∃ p, out above = some p ∧ p.parent = some below)
    ↔ ∃ p, out below = some p ∧ above ∈ p.children
  := by
  have hlink : (∃ p, out above = some p ∧ p.parent = some below)
      ↔ (above, below) ∈ links prs := by
    constructor
    · rintro ⟨p, hout, hparent⟩
      rwa [h.parent_eq hout, parent_eq_some distinct] at hparent
    · intro hmem
      obtain ⟨p, hout⟩ := (h.exists_iff distinct hfuel).mpr (Or.inl ⟨below, hmem⟩)
      use p, hout
      rwa [h.parent_eq hout, parent_eq_some distinct]
  rw [hlink]
  constructor
  · intro hmem
    obtain ⟨p, hout⟩ := (h.exists_iff distinct hfuel).mpr (Or.inr ⟨above, hmem⟩)
    use p, hout
    rwa [h.children_eq hout, mem_children distinct, SitsOn, parent_eq_some distinct]
  · rintro ⟨p, hout, hmem⟩
    rwa [h.children_eq hout, mem_children distinct, SitsOn, parent_eq_some distinct] at hmem

/-- Whatever is in the tree of a linked pull request is linked. -/
theorem exists_of_sameTree {id' : TaskId} (hsame : SameTree (parent prs) id id')
    (hout : ∃ p, out id = some p) :
  ∃ p, out id' = some p
  := by
  have hends : id = id' ∨ Linked prs id ∧ Linked prs id' := by
    clear hout
    induction hsame with
    | rel a b hlink =>
      right
      rw [SitsOn, parent_eq_some distinct] at hlink
      exact ⟨.inl ⟨b, hlink⟩, .inr ⟨a, hlink⟩⟩
    | refl a =>
      left
      rfl
    | symm a b _ ih => exact ih.imp Eq.symm And.symm
    | trans a b c _ _ ihab ihbc =>
      obtain rfl | ⟨ha, hb⟩ := ihab
      · exact ihbc
      · obtain rfl | ⟨-, hc⟩ := ihbc
        · exact Or.inr ⟨ha, hb⟩
        · exact Or.inr ⟨ha, hc⟩
  obtain rfl | ⟨-, hlinked⟩ := hends
  · exact hout
  · apply (h.exists_iff distinct hfuel).mpr hlinked

/-- Away from cycles, the stack is as high as its place furthest up. -/
theorem isGreatest_depth (hout : out id = some p)
    (acyclic : ¬ LeadsToCycle (fun a => (parent prs a).toList) id) :
  IsGreatest {k | ∃ id' p', SameTree (parent prs) id id' ∧ out id' = some p' ∧ p'.position = k}
    p.depth
  := by
  obtain ⟨root, hrooted, hgreatest⟩ := (h.found hout).rooted acyclic
  convert hgreatest using 1
  ext k
  constructor
  · rintro ⟨id', p', hsame, hout', rfl⟩
    use id'
    obtain ⟨m, hm⟩ := hrooted.sameTree_iff.mp hsame
    obtain ⟨root', hroot', -⟩ := (h.found hout').rooted hm.not_leadsToCycle
    obtain ⟨rfl, -⟩ := hm.unique hroot'
    exact hroot'
  · rintro ⟨id', hid'⟩
    have hsame := hrooted.sameTree_iff.mpr ⟨k, hid'⟩
    obtain ⟨p', hout'⟩ := h.exists_of_sameTree distinct hfuel hsame ⟨p, hout⟩
    obtain ⟨root', hroot', -⟩ := (h.found hout').rooted hid'.not_leadsToCycle
    obtain ⟨-, hk⟩ := hid'.unique hroot'
    use id', p', hsame, hout', hk.symm

end Places

end Places

/-! ### Branches -/

theorem mem_openPrs {tasks : List Task} {pr : Task} (h : pr ∈ openPrs tasks) :
  ∃ repo head, pr.repo = some repo ∧ pr.branch = some head
  := by
  have hfields := (List.mem_filter.mp h).2
  simp only [Bool.and_eq_true, Option.isSome_iff_exists] at hfields
  obtain ⟨⟨-, repo, hrepo⟩, head, hhead⟩ := hfields
  use repo, head

section Branches

variable {tasks : List Task} {id below : TaskId}
  (heads_distinct : ((openPrs tasks).map fun pr => (pr.repo, pr.branch)).Nodup)
include heads_distinct

theorem single_heads (key : String × String) :
  Keyed.Single (heads (openPrs tasks)) key
  := by
  intro a a' ha ha'
  obtain ⟨pr, hpr, hrepo, hhead, rfl⟩ := mem_heads.mp ha
  obtain ⟨pr', hpr', hrepo', hhead', rfl⟩ := mem_heads.mp ha'
  have hsame := List.inj_on_of_nodup_map heads_distinct hpr hpr'
    (by rw [hrepo, hhead, hrepo', hhead'])
  rw [hsame]

theorem stackedOn_iff :
  StackedOn tasks id below ↔ (id, below) ∈ links (openPrs tasks)
  := by
  rw [mem_links]
  constructor
  · rintro ⟨pr, hpr, base, hbase, rfl, rfl, hne, hrepo, hbranch⟩
    obtain ⟨repo, head, hrepo', hhead⟩ := mem_openPrs hbase
    refine ⟨pr, hpr, rfl, ?_⟩
    rw [parentOf_eq_some]
    refine ⟨repo, head, hrepo.trans hrepo', hbranch.trans hhead, ?_, hne⟩
    rw [(single_heads heads_distinct _).last_eq_some_iff, mem_heads]
    exact ⟨base, hbase, hrepo', hhead, rfl⟩
  · rintro ⟨pr, hpr, rfl, hparent⟩
    obtain ⟨repo, head, hrepo, hbranch, hlast, hne⟩ := parentOf_eq_some.mp hparent
    obtain ⟨base, hbase, hrepo', hhead, rfl⟩ := mem_heads.mp (Keyed.mem_of_last hlast)
    exact ⟨pr, hpr, base, hbase, rfl, rfl, hne, hrepo.trans hrepo'.symm, hbranch.trans hhead.symm⟩

variable (distinct : ((openPrs tasks).map (·.id)).Nodup)
include distinct

theorem stackedOn_eq :
  StackedOn tasks = SitsOn (parent (openPrs tasks))
  := by
  ext id below
  rw [stackedOn_iff heads_distinct, SitsOn, parent_eq_some distinct]

theorem Acyclic.not_leadsToCycle (h : Acyclic tasks id) :
  ¬ LeadsToCycle (fun a => (parent (openPrs tasks) a).toList) id
  := by
  rw [Acyclic, stackedOn_eq heads_distinct distinct] at h
  rw [LeadsToCycle]
  simp only [Dependency.OnCycle, ParentLinks.edge_eq_sitsOn]
  rintro ⟨c, hpath, hcycle⟩
  apply h c hpath hcycle

/-- The walks end, and the places are consistent, whatever shape the base branches form. -/
theorem detectStacks_laidOut {fuel : ℕ} (hfuel : (openPrs tasks).length < fuel) :
  ∃ out, detectStacks fuel tasks = some out ∧ LaidOut tasks out
  := by
  obtain ⟨out, hout, hplaces⟩ := exists_detectStacks distinct hfuel
  refine ⟨out, hout, ?_⟩
  have hlinks := stackedOn_eq heads_distinct distinct
  constructor
  · intro id
    rw [Option.isSome_iff_exists, hplaces.exists_iff distinct hfuel, Linked]
    simp only [stackedOn_iff heads_distinct]
  · intro id p hid below
    rw [hplaces.parent_eq hid, hlinks, SitsOn]
  · intro id p hid
    rw [hplaces.children_eq hid]
    refine ⟨nodup_children distinct, ?_⟩
    intro above
    rw [mem_children distinct, hlinks]
  · intro below above
    apply hplaces.inverse distinct hfuel
  · intro id p hid
    apply (hplaces.found hid).position_le_depth
  · intro id p hid hbottom
    rw [hplaces.parent_eq hid] at hbottom
    have hroot : Rooted (parent (openPrs tasks)) id 1 id := .root hbottom
    obtain ⟨root, hrooted, -⟩ := (hplaces.found hid).rooted hroot.not_leadsToCycle
    exact (hrooted.unique hroot).2
  · intro id below p p' acyclic hid hbelow hid'
    obtain ⟨root, hrooted, -⟩ :=
      (hplaces.found hid).rooted (acyclic.not_leadsToCycle heads_distinct distinct)
    rw [hplaces.parent_eq hid] at hbelow
    obtain ⟨n, hn, hnext⟩ := hrooted.of_link hbelow
    obtain ⟨root', hrooted', -⟩ := (hplaces.found hid').rooted hnext.not_leadsToCycle
    rw [hn, (hnext.unique hrooted').2]
  · intro id id' p p' acyclic hsame hid hid'
    rw [SameStack, hlinks] at hsame
    obtain ⟨root, hrooted, hgreatest⟩ :=
      (hplaces.found hid).rooted (acyclic.not_leadsToCycle heads_distinct distinct)
    obtain ⟨m, hm⟩ := hrooted.sameTree_iff.mp hsame
    obtain ⟨root', hrooted', hgreatest'⟩ := (hplaces.found hid').rooted hm.not_leadsToCycle
    obtain ⟨rfl, -⟩ := hm.unique hrooted'
    apply hgreatest.unique hgreatest'
  · intro id p acyclic hid
    rw [SameStack, hlinks]
    apply hplaces.isGreatest_depth distinct hfuel hid
    apply acyclic.not_leadsToCycle heads_distinct distinct

end Branches

def openPr (key head base : String) : Task where
  id := ⟨"github", key⟩
  kind := some .pr
  url := ""
  nodeId := none
  repo := some "o/r"
  state := .opened
  branch := some head
  baseBranch := some base

/-- A stack that branches, and two pull requests that are based on each other. -/
theorem detectStacks_laidOut_branching :
  let tasks := [openPr "o/r#1" "a" "main", openPr "o/r#2" "b" "a", openPr "o/r#3" "c" "a",
    openPr "o/r#4" "d" "c", openPr "o/r#5" "e" "f", openPr "o/r#6" "f" "e"]
  ∃ out, detectStacks 7 tasks = some out ∧ LaidOut tasks out
  := detectStacks_laidOut (by decide) (by decide) (by decide)

end Lazybox.Stack
