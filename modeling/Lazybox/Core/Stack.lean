import Lazybox.Library.Keyed
import Lazybox.Library.MapM
import Lazybox.Library.ParentLinks
import Lazybox.Library.Ranking
import Lazybox.Library.Search
import Lazybox.Polling.WriteTargets
import Mathlib.Data.Prod.Lex
import Mathlib.Data.String.Basic

/-!
# Stacked pull requests

An open pull request is stacked on the one whose head branch is its base branch, in the same
repository.  Every pull request that is linked to another one gets its place: the one it sits on,
those that sit on it, how far up it is from the bottom, and how high its stack is.

The walks over the links keep the pull requests they have seen, so that they end on cyclic bases
too; here they take a bound on how often they go on, and have no result when it is not enough.
-/

namespace Lazybox.Stack

/-- What is read of a task. -/
structure Task extends Link where
  state : TaskState
  branch : Option String
  baseBranch : Option String
deriving DecidableEq, Repr

structure StackPosition where
  parent : Option TaskId
  /-- In order of their ids. -/
  children : List TaskId
  /-- Counted from the bottom, which is at `1`. -/
  position : ℕ
  /-- How many pull requests are on the longest chain of the stack. -/
  depth : ℕ
deriving DecidableEq, Repr

/-- An open pull request did not reach a terminal state. -/
def isOpenPr (task : Task) : Bool :=
  task.isPr && match task.state with
    | .opened | .inProgress | .inReview | .draft => true
    | .closed | .merged => false

/-- The open pull requests that have the fields to match on. -/
def openPrs (tasks : List Task) : List Task :=
  tasks.filter fun t => isOpenPr t && t.repo.isSome && t.branch.isSome

/-- The head branches, each with the pull request it is the head of. -/
def heads (prs : List Task) : List ((String × String) × TaskId) :=
  prs.filterMap fun pr => do
    let repo ← pr.repo
    let head ← pr.branch
    return ((repo, head), pr.id)

/-- The pull request whose head is the base of another one. -/
def parentOf (prs : List Task) (pr : Task) : Option TaskId := do
  let repo ← pr.repo
  let base ← pr.baseBranch
  let parentId ← Keyed.last (heads prs) (repo, base)
  if parentId ≠ pr.id then some parentId else none

/-- Each linked pull request, with the one it sits on. -/
def links (prs : List Task) : List (TaskId × TaskId) :=
  prs.filterMap fun pr => (parentOf prs pr).map (pr.id, ·)

def parent (prs : List Task) : TaskId → Option TaskId := Keyed.last (links prs)

def compareIds : TaskId → TaskId → Ordering :=
  compareLex (compareOn TaskId.source) (compareOn TaskId.key)

def children (prs : List Task) (id : TaskId) : List TaskId :=
  Ranking.sortBy compareIds (((links prs).filter fun link => link.2 = id).map Prod.fst)

/-- Go on to the parent, and count, until there is none or it was seen. -/
def countUp (parent : TaskId → Option TaskId) : ℕ → List TaskId → TaskId → ℕ → Option ℕ
  | 0, _, _, _ => none
  | fuel + 1, seen, cur, pos =>
      match parent cur with
      | none => some pos
      | some p => if p ∈ seen then some pos else countUp parent fuel (p :: seen) p (pos + 1)

def positionFromBottom (parent : TaskId → Option TaskId) (fuel : ℕ) (id : TaskId) : Option ℕ :=
  countUp parent fuel [id] id 1

/-- Go on to the parent until there is none or it was seen. -/
def walkToRoot (parent : TaskId → Option TaskId) : ℕ → List TaskId → TaskId → Option TaskId
  | 0, _, _ => none
  | fuel + 1, seen, root =>
      match parent root with
      | none => some root
      | some p => if p ∈ seen then some root else walkToRoot parent fuel (p :: seen) p

/-- How many pull requests are on the longest chain up from one, itself included. -/
def subtreeHeight (children : TaskId → List TaskId) : ℕ → List TaskId → TaskId → Option ℕ
  | 0, _, _ => none
  | fuel + 1, seen, id =>
      if id ∈ seen then some 0
      else do
        let heights ← (children id).mapM (subtreeHeight children fuel (id :: seen))
        return 1 + heights.max?.getD 0

def chainDepth (parent : TaskId → Option TaskId) (children : TaskId → List TaskId) (fuel : ℕ)
    (id : TaskId) : Option ℕ := do
  let root ← walkToRoot parent fuel [id] id
  subtreeHeight children fuel [] root

/-- The place of a pull request. -/
def place (prs : List Task) (fuel : ℕ) (pr : Task) : Option (TaskId × StackPosition) := do
  let position ← positionFromBottom (parent prs) fuel pr.id
  let depth ← chainDepth (parent prs) (children prs) fuel pr.id
  return (pr.id, ⟨parent prs pr.id, children prs pr.id, position, depth⟩)

/-- The places of the pull requests that are part of a stack. -/
def detectStacks (fuel : ℕ) (tasks : List Task) : Option (TaskId → Option StackPosition) :=
  let prs := openPrs tasks
  let linked := prs.filter fun pr =>
    (parent prs pr.id).isSome || !(children prs pr.id).isEmpty
  (linked.mapM (place prs fuel)).map Keyed.last

/-! ### Walks -/

section Walks

open MapM
open ParentLinks (SitsOn)

variable {parent : TaskId → Option TaskId} {children : TaskId → List TaskId} {nodes : List TaskId}

/-- How many nodes a walk did not see yet. -/
def unseen (nodes seen : List TaskId) : ℕ := (nodes.filter (· ∉ seen)).length

variable {seen : List TaskId}

theorem unseen_cons_lt {a : TaskId} (ha : a ∈ nodes) (hseen : a ∉ seen) :
  unseen nodes (a :: seen) < unseen nodes seen
  := by
  rw [unseen, unseen, Search.filter_notMem_cons]
  apply List.length_filter_lt_length_iff_exists.mpr
  use a
  simp [ha, hseen]

/-- The nodes a walk up goes on to, having seen some. -/
structure Climb (parent : TaskId → Option TaskId) (seen : List TaskId) (cur : TaskId)
    (above : List TaskId) : Prop where
  chain : (cur :: above).IsChain (SitsOn parent)
  nodup : above.Nodup
  fresh : ∀ a ∈ above, a ∉ seen
  /-- The walk ends at a node without a parent, or with one that was seen. -/
  ends : ∀ p, SitsOn parent ((cur :: above).getLast (List.cons_ne_nil cur above)) p →
    p ∈ seen ∨ p ∈ above

variable {fuel : ℕ}

/-- With a bound above the number of nodes that were not seen, a walk up ends. -/
theorem exists_climb (closed : ∀ a p, SitsOn parent a p → p ∈ nodes)
    (hfuel : unseen nodes seen < fuel) (cur : TaskId) (pos : ℕ) :
  ∃ above, Climb parent seen cur above
    ∧ countUp parent fuel seen cur pos = some (pos + above.length)
    ∧ walkToRoot parent fuel seen cur
      = some ((cur :: above).getLast (List.cons_ne_nil cur above))
  := by
  induction fuel generalizing seen cur pos with
  | zero => cases hfuel
  | succ fuel ih =>
    rw [countUp, walkToRoot]
    cases hparent : parent cur with
    | none =>
      use []
      refine ⟨⟨List.isChain_singleton cur, List.nodup_nil, by simp, ?_⟩, rfl, rfl⟩
      intro p hlink
      cases hparent.symm.trans hlink
    | some p =>
      by_cases hseen : p ∈ seen
      · use []
        simp only [if_pos hseen]
        refine ⟨⟨List.isChain_singleton cur, List.nodup_nil, by simp, ?_⟩, rfl, rfl⟩
        intro q hlink
        rw [List.getLast_singleton, SitsOn, hparent, Option.some.injEq] at hlink
        rw [← hlink]
        left
        exact hseen
      · have hless : unseen nodes (p :: seen) < fuel := by
          have hlt := unseen_cons_lt (closed cur p hparent) hseen
          omega
        obtain ⟨above, climb, hcount, hroot⟩ := ih hless p (pos + 1)
        use p :: above
        simp only [if_neg hseen, hcount, hroot, List.length_cons]
        rw [List.getLast_cons (List.cons_ne_nil p above)]
        refine ⟨⟨?_, ?_, ?_, ?_⟩, by rw [Nat.add_assoc, Nat.add_comm 1], rfl⟩
        · rw [List.isChain_cons_cons]
          exact ⟨hparent, climb.chain⟩
        · rw [List.nodup_cons]
          refine ⟨?_, climb.nodup⟩
          intro hp
          apply climb.fresh p hp List.mem_cons_self
        · intro a ha
          obtain rfl | ha := List.mem_cons.mp ha
          · exact hseen
          · intro hmem
            apply climb.fresh a ha (List.mem_cons_of_mem p hmem)
        · intro q hlink
          rw [List.getLast_cons (List.cons_ne_nil p above)] at hlink
          have hq := climb.ends q hlink
          rw [List.mem_cons] at hq ⊢
          tauto

/-- A path down the links that meets no node twice, and none that was seen. -/
structure Descent (parent : TaskId → Option TaskId) (seen : List TaskId) (id : TaskId)
    (above : List TaskId) : Prop where
  chain : (id :: above).IsChain (flip (SitsOn parent))
  nodup : (id :: above).Nodup
  fresh : ∀ a ∈ id :: above, a ∉ seen

variable {id : TaskId}

/-- A path goes on from a child, having seen the parent. -/
theorem Descent.child {c : TaskId} {above : List TaskId} (h : Descent parent seen id (c :: above)) :
  SitsOn parent c id ∧ c ∉ id :: seen ∧ Descent parent (id :: seen) c above
  := by
  obtain ⟨hchain, hnodup, hfresh⟩ := h
  rw [List.isChain_cons_cons] at hchain
  rw [List.nodup_cons] at hnodup
  have hunseen : ∀ a ∈ c :: above, a ∉ id :: seen := by
    intro a ha hmem
    obtain rfl | hmem := List.mem_cons.mp hmem
    · apply hnodup.1 ha
    · apply hfresh a (List.mem_cons_of_mem id ha) hmem
  exact ⟨hchain.1, hunseen c List.mem_cons_self, hchain.2, hnodup.2, hunseen⟩

theorem Descent.of_child {c : TaskId} {above : List TaskId}
    (h : Descent parent (id :: seen) c above) (hlink : SitsOn parent c id) (hseen : id ∉ seen) :
  Descent parent seen id (c :: above)
  := by
  obtain ⟨hchain, hnodup, hfresh⟩ := h
  constructor
  · rw [List.isChain_cons_cons]
    exact ⟨hlink, hchain⟩
  · rw [List.nodup_cons]
    refine ⟨?_, hnodup⟩
    intro hid
    apply hfresh id hid List.mem_cons_self
  · intro a ha hmem
    obtain rfl | ha := List.mem_cons.mp ha
    · apply hseen hmem
    · apply hfresh a ha (List.mem_cons_of_mem id hmem)

/-- With a bound above the number of nodes that were not seen, a height is found. -/
theorem exists_subtreeHeight (closed : ∀ a, ∀ c ∈ children a, c ∈ nodes)
    (hfuel : unseen nodes seen < fuel) (hid : id ∈ nodes) :
  ∃ n, subtreeHeight children fuel seen id = some n
  := by
  induction fuel generalizing seen id with
  | zero => cases hfuel
  | succ fuel ih =>
    rw [subtreeHeight]
    by_cases hseen : id ∈ seen
    · use 0
      rw [if_pos hseen]
    · have hless : unseen nodes (id :: seen) < fuel := by
        have hlt := unseen_cons_lt hid hseen
        omega
      choose! height hheight using fun c (hc : c ∈ children id) => ih hless (closed id c hc)
      have hall : (children id).mapM (subtreeHeight children fuel (id :: seen))
          = some ((children id).map height) := by
        rw [mapM_eq_some, List.forall₂_map_right_iff, List.forall₂_same]
        exact hheight
      use 1 + ((children id).map height).max?.getD 0
      rw [if_neg hseen, hall]
      rfl

theorem subtreeHeight_of_mem {n : ℕ} (h : subtreeHeight children fuel seen id = some n)
    (hseen : id ∈ seen) :
  n = 0
  := by
  cases fuel with
  | zero => cases h
  | succ fuel =>
    rw [subtreeHeight, if_pos hseen] at h
    exact (Option.some.inj h).symm

theorem le_max?_getD {hs : List ℕ} {n : ℕ} (h : n ∈ hs) :
  n ≤ hs.max?.getD 0
  := by
  cases hmax : hs.max? with
  | none =>
    rw [List.max?_eq_none_iff.mp hmax] at h
    cases h
  | some m => exact (List.max?_eq_some_iff.mp hmax).2 n h

theorem max?_getD_mem {hs : List ℕ} :
  hs.max?.getD 0 = 0 ∨ hs.max?.getD 0 ∈ hs
  := by
  cases hmax : hs.max? with
  | none =>
    left
    rfl
  | some m =>
    right
    exact (List.max?_eq_some_iff.mp hmax).1

/-- A height is the length of the longest path down. -/
theorem isGreatest_subtreeHeight (inverse : ∀ a c, c ∈ children a ↔ SitsOn parent c a) {n : ℕ}
    (h : subtreeHeight children fuel seen id = some n) (hseen : id ∉ seen) :
  IsGreatest {k | ∃ above, Descent parent seen id above ∧ k = above.length + 1} n
  := by
  induction fuel generalizing seen id n with
  | zero => cases h
  | succ fuel ih =>
    rw [subtreeHeight, if_neg hseen] at h
    obtain ⟨heights, hall, hn⟩ := Option.bind_eq_some_iff.mp h
    obtain rfl : 1 + heights.max?.getD 0 = n := Option.some.inj hn
    obtain ⟨hheight, hchild⟩ := mem_of_mapM hall
    constructor
    · by_cases hzero : heights.max?.getD 0 = 0
      · use [], ⟨List.isChain_singleton id, List.nodup_singleton id, by simpa using hseen⟩
        rw [hzero]
        rfl
      · obtain ⟨c, hc, hcheight⟩ := hchild _ (max?_getD_mem.resolve_left hzero)
        have hcseen : c ∉ id :: seen := by
          intro hmem
          apply hzero (subtreeHeight_of_mem hcheight hmem)
        obtain ⟨above, descent, hlength⟩ := (ih hcheight hcseen).1
        use c :: above, descent.of_child ((inverse id c).mp hc) hseen
        rw [hlength, List.length_cons, Nat.add_comm]
    · rintro k ⟨above, descent, rfl⟩
      cases above with
      | nil =>
        rw [List.length_nil, Nat.add_comm]
        apply Nat.add_le_add_left (Nat.zero_le _)
      | cons c above =>
        obtain ⟨hlink, hcseen, descent⟩ := descent.child
        obtain ⟨height, hmem, hcheight⟩ := hheight c ((inverse id c).mpr hlink)
        have hle := (ih hcheight hcseen).2 ⟨above, descent, rfl⟩
        have hmax := le_max?_getD hmem
        rw [List.length_cons]
        omega

end Walks

end Lazybox.Stack
