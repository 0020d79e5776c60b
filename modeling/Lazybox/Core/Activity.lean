import Mathlib.Data.List.Sort
import Mathlib.Data.List.DropRight
import Mathlib.Data.Finset.Option
import Mathlib.Data.Finset.Union
import Mathlib.Order.Interval.Finset.Nat
import Lazybox.Core.ProviderOps

/-!
# The activity of a workspace

The feed of a workspace is its activity, the newest item first.  What the user has seen of it is
kept by position: the oldest items up to a count, and a set of indices above them.  A merge brings
items anywhere into the feed, and finds what was read by the contents of the items.
-/

namespace Lazybox.Feed

/-- An item of the feed. -/
structure Activity where
  author : String
  body : String
  createdAt : Instant
  nodeId : Option String
deriving DecidableEq, Repr

abbrev Content := String × String × Instant

def Activity.content (a : Activity) : Content := (a.author, a.body, a.createdAt)

/-- A content, and how many items before it have it. -/
abbrev ActivityIdentity := Content × ℕ

def identitiesFrom (seen : Content → ℕ) : List Activity → List ActivityIdentity
  | [] => []
  | a :: rest =>
      (a.content, seen a.content)
        :: identitiesFrom (Function.update seen a.content (seen a.content + 1)) rest

def activityIdentities (list : List Activity) : List ActivityIdentity :=
  identitiesFrom (fun _ => 0) list

def maxActivityItems : ℕ := 500

def sortActivity (list : List Activity) : List Activity :=
  list.insertionSort fun a b => b.createdAt ≤ a.createdAt

/-! ### Merging feeds -/

/-- The positions of the items of a content. -/
def positions (list : List Activity) (c : Content) : List ℕ :=
  (list.zipIdx.filter fun p => p.1.content = c).map Prod.snd

/-- Where the item of a node is. -/
def positionOfNode (list : List Activity) (nodeId : Option String) : Option ℕ :=
  nodeId.bind fun nid => list.findIdx? fun a => a.nodeId = some nid

/-- Put an incoming item in place.  The second component counts the items of each content that
have been put in place by their content. -/
def upsertActivity (s : List Activity × (Content → ℕ)) (act : Activity) :
    List Activity × (Content → ℕ) :=
  match positionOfNode s.1 act.nodeId with
  | some i => (s.1.set i act, s.2)
  | none =>
      (match (positions s.1 act.content)[s.2 act.content]? with
        | some i => s.1.set i act
        | none => s.1 ++ [act],
        Function.update s.2 act.content (s.2 act.content + 1))

def mergeFeed (list incoming : List Activity) : List Activity :=
  (sortActivity (incoming.foldl upsertActivity (list, fun _ => 0)).1).take maxActivityItems

/-! ### What was read -/

structure Workspace where
  activity : List Activity
  seenCount : ℕ
  readIndices : Finset ℕ
deriving DecidableEq

namespace Workspace

variable (ws : Workspace)

/-- Where the tail of the items that were seen starts. -/
def seenStart : ℕ := ws.activity.length - ws.seenCount

def isActivityUnread (index : ℕ) : Bool := index < ws.seenStart && index ∉ ws.readIndices

def unreadActivityIndices : List ℕ :=
  (List.range ws.seenStart).filter fun i => i ∉ ws.readIndices

def unreadCount : ℕ := ws.unreadActivityIndices.length

def readKeys : Finset ActivityIdentity :=
  ws.readIndices.biUnion fun i => (activityIdentities ws.activity)[i]?.toFinset

def seenKeys : Finset ActivityIdentity :=
  ((activityIdentities ws.activity).drop ws.seenStart).toFinset

def mergeActivity (incoming : List Activity) : Workspace :=
  if incoming = [] then ws
  else
    let activity := mergeFeed ws.activity incoming
    let identities := activityIdentities activity
    let suffix := (identities.rtakeWhile fun id => id ∈ ws.seenKeys).length
    let above := (identities.take (activity.length - suffix)).zipIdx
    { activity := activity
      seenCount := suffix
      readIndices :=
        ((above.filter fun p => p.1 ∈ ws.readKeys ∨ p.1 ∈ ws.seenKeys).map Prod.snd).toFinset }

def markReadAll : Workspace := { ws with seenCount := ws.activity.length, readIndices := ∅ }

def markActivityRead (index : ℕ) : Workspace :=
  if index < ws.activity.length then { ws with readIndices := insert index ws.readIndices } else ws

/-- The tail ends above the index, and what was above the index in the tail is marked. -/
def unmarkActivityRead (index : ℕ) : Workspace :=
  let unmarked := { ws with readIndices := ws.readIndices.erase index }
  if ws.seenStart ≤ index then
    { unmarked with
      seenCount := ws.activity.length - (index + 1)
      readIndices := unmarked.readIndices ∪ Finset.Ico ws.seenStart index }
  else unmarked

/-- The items the user has not seen, in the order of the feed. -/
def unreadItems : List Activity := ws.unreadActivityIndices.filterMap (ws.activity[·]?)

/-- The contents of the items are distinct. -/
def Distinct : Prop := (ws.activity.map Activity.content).Nodup

instance : Decidable ws.Distinct := inferInstanceAs (Decidable (List.Nodup _))

end Workspace

/-! ### Identities -/

@[simp]
theorem length_identitiesFrom (seen : Content → ℕ) (list : List Activity) :
  (identitiesFrom seen list).length = list.length
  := by
  induction list generalizing seen with
  | nil => rfl
  | cons a rest ih => rw [identitiesFrom, List.length_cons, ih, List.length_cons]

@[simp]
theorem length_activityIdentities (list : List Activity) :
  (activityIdentities list).length = list.length
  := length_identitiesFrom _ list

theorem identitiesFrom_eq_map {list : List Activity} (h : (list.map Activity.content).Nodup)
    {seen : Content → ℕ} (fresh : ∀ a ∈ list, seen a.content = 0) :
  identitiesFrom seen list = list.map fun a => (a.content, 0)
  := by
  induction list generalizing seen with
  | nil => rfl
  | cons a rest ih =>
    rw [List.map_cons, List.nodup_cons] at h
    have hrest : ∀ b ∈ rest, b.content ≠ a.content := by
      intro b hb hba
      apply h.1
      rw [← hba]
      apply List.mem_map_of_mem hb
    rw [identitiesFrom, fresh a List.mem_cons_self, List.map_cons, ih h.2]
    intro b hb
    rw [Function.update_of_ne (hrest b hb)]
    apply fresh b (List.mem_cons_of_mem _ hb)

/-- Items with distinct contents are the first of theirs. -/
theorem activityIdentities_eq_map {list : List Activity} (h : (list.map Activity.content).Nodup) :
  activityIdentities list = list.map fun a => (a.content, 0)
  := by
  apply identitiesFrom_eq_map h
  intro a _
  rfl

end Lazybox.Feed
