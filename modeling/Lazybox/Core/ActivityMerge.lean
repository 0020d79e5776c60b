import Lazybox.Library.Keyed
import Lazybox.Core.ActivityUnread

/-!
# What a merge of feeds keeps

The items of a provider carry the nodes they are about.  A merge of a batch is to hold each node
once, in the version of the batch when there is one.  An item whose node is not in the feed is put
in place by its contents, and takes the place of an item with the same contents even when that one
is about another node.  The other node is then lost, unless the rest of the batch brings it again.
-/

namespace Lazybox.Feed

/-- The nodes of the items. -/
def nodes (list : List Activity) : List (Option String) := list.map Activity.nodeId

def NewestFirst (list : List Activity) : Prop := list.Pairwise fun a b => b.createdAt ≤ a.createdAt

instance (list : List Activity) : Decidable (NewestFirst list) :=
  inferInstanceAs (Decidable (List.Pairwise _ _))

/-- A feed with each node of the stored feed and of the batch once, as the batch has it when it
does. -/
structure Merged (stored incoming merged : List Activity) : Prop where
  once : (nodes merged).Nodup
  union : ∀ n, n ∈ nodes merged ↔ n ∈ nodes stored ∨ n ∈ nodes incoming
  ofIncoming : ∀ a ∈ incoming, a ∈ merged
  ofStored : ∀ a ∈ stored, a.nodeId ∉ nodes incoming → a ∈ merged
  newestFirst : NewestFirst merged

/-- The item of another node that loses its place to an incoming item of the same content. -/
def replaced (s : List Activity × (Content → ℕ)) (act : Activity) : Option Activity :=
  match positionOfNode s.1 act.nodeId with
  | some _ => none
  | none => (positions s.1 act.content)[s.2 act.content]?.bind (s.1[·]?)

/-- Whenever an item of the batch takes the place of another one, the rest of the batch has the
node of the other. -/
def SparesNodesFrom : List Activity × (Content → ℕ) → List Activity → Prop
  | _, [] => True
  | s, act :: rest =>
      (∀ a ∈ replaced s act, a.nodeId ∈ nodes rest) ∧ SparesNodesFrom (upsertActivity s act) rest

def SparesNodes (stored incoming : List Activity) : Prop :=
  SparesNodesFrom (stored, fun _ => 0) incoming

def decidableSparesNodesFrom :
    (s : List Activity × (Content → ℕ)) → (incoming : List Activity) →
      Decidable (SparesNodesFrom s incoming)
  | _, [] => inferInstanceAs (Decidable True)
  | s, act :: rest =>
      have := decidableSparesNodesFrom (upsertActivity s act) rest
      inferInstanceAs (Decidable (_ ∧ _))

instance (stored incoming : List Activity) : Decidable (SparesNodes stored incoming) :=
  decidableSparesNodesFrom _ incoming

/-! ### One item -/

variable {list : List Activity}

theorem positionOfNode_some {n : Option String} {i : ℕ} (h : positionOfNode list n = some i) :
  ∃ a, list[i]? = some a ∧ a.nodeId = n
  := by
  rw [positionOfNode, Option.bind_eq_some_iff] at h
  obtain ⟨nid, rfl, hi⟩ := h
  obtain ⟨hlt, hnode, -⟩ := List.findIdx?_eq_some_iff_getElem.mp hi
  use list[i], List.getElem?_eq_getElem hlt
  apply of_decide_eq_true hnode

theorem positionOfNode_none {n : Option String} (hn : n.isSome) (h : positionOfNode list n = none) :
  n ∉ nodes list
  := by
  obtain ⟨nid, rfl⟩ := Option.isSome_iff_exists.mp hn
  rw [positionOfNode, Option.bind_some, List.findIdx?_eq_none_iff] at h
  intro hmem
  obtain ⟨a, ha, hnode⟩ := List.mem_map.mp hmem
  apply absurd (h a ha)
  simpa using hnode

theorem mem_of_positions {c : Content} {k i : ℕ} (h : (positions list c)[k]? = some i) :
  ∃ a, list[i]? = some a
  := by
  have hmem := List.mem_of_getElem? h
  rw [positions, List.mem_map] at hmem
  obtain ⟨⟨a, j⟩, hfilter, rfl⟩ := hmem
  use a
  apply List.mem_zipIdx_iff_getElem?.mp (List.mem_of_mem_filter hfilter)

section Step

variable {s : List Activity × (Content → ℕ)} {act : Activity}

/-- An incoming item takes the place of the item of its node, or that of an item of its content,
or a new one. -/
theorem upsertActivity_cases (hact : act.nodeId.isSome) :
  (∃ i a, s.1[i]? = some a ∧ a.nodeId = act.nodeId ∧ replaced s act = none
      ∧ (upsertActivity s act).1 = s.1.set i act)
    ∨ (act.nodeId ∉ nodes s.1 ∧ ∃ i a, s.1[i]? = some a ∧ replaced s act = some a
      ∧ (upsertActivity s act).1 = s.1.set i act)
    ∨ (act.nodeId ∉ nodes s.1 ∧ replaced s act = none ∧ (upsertActivity s act).1 = s.1 ++ [act])
  := by
  cases hnode : positionOfNode s.1 act.nodeId with
  | some i =>
    left
    obtain ⟨a, ha, hid⟩ := positionOfNode_some hnode
    use i, a, ha, hid
    rw [replaced, upsertActivity, hnode]
    exact ⟨rfl, rfl⟩
  | none =>
    right
    have hfresh := positionOfNode_none hact hnode
    rw [replaced, upsertActivity, hnode]
    cases hposition : (positions s.1 act.content)[s.2 act.content]? with
    | some i =>
      left
      obtain ⟨a, ha⟩ := mem_of_positions hposition
      exact ⟨hfresh, i, a, ha, ha, rfl⟩
    | none =>
      right
      exact ⟨hfresh, rfl, rfl⟩

theorem mem_replaced {a : Activity} (hact : act.nodeId.isSome) (h : replaced s act = some a) :
  a ∈ s.1 ∧ a.nodeId ≠ act.nodeId
  := by
  rcases upsertActivity_cases (s := s) hact with
    ⟨i, b, -, -, hnone, -⟩ | ⟨hfresh, i, b, hb, hsome, -⟩ | ⟨-, hnone, -⟩
  · rw [h] at hnone
    cases hnone
  · rw [h, Option.some.injEq] at hsome
    subst hsome
    have hmem := List.mem_of_getElem? hb
    use hmem
    intro hid
    apply hfresh
    rw [← hid]
    apply List.mem_map_of_mem hmem
  · rw [h] at hnone
    cases hnone

variable (distinct : (nodes s.1).Nodup) (hact : act.nodeId.isSome)
include distinct hact

theorem nodup_upsertActivity :
  (nodes (upsertActivity s act).1).Nodup
  := by
  rcases upsertActivity_cases (s := s) hact with
    ⟨i, a, ha, hid, -, heq⟩ | ⟨hfresh, i, a, ha, -, heq⟩ | ⟨hfresh, -, heq⟩
  · rw [heq]
    apply Keyed.nodup_map_set distinct ha
    intro x _ hx
    rw [hx, hid]
  · rw [heq]
    apply Keyed.nodup_map_set distinct ha
    intro x hx hxid
    exact absurd (hxid ▸ List.mem_map_of_mem hx) hfresh
  · rw [heq, nodes, List.map_append, List.map_singleton, ← List.concat_eq_append,
      List.nodup_concat]
    exact ⟨hfresh, distinct⟩

/-- An incoming item leaves the items of other nodes, but the one it takes the place of. -/
theorem mem_upsertActivity {x : Activity} :
  x ∈ (upsertActivity s act).1
    ↔ x = act ∨ x ∈ s.1 ∧ x.nodeId ≠ act.nodeId ∧ replaced s act ≠ some x
  := by
  rcases upsertActivity_cases (s := s) hact with
    ⟨i, a, ha, hid, hnone, heq⟩ | ⟨hfresh, i, a, ha, hsome, heq⟩ | ⟨hfresh, hnone, heq⟩
  · rw [heq, Keyed.mem_set_iff distinct ha, hid, hnone]
    simp
  · have hne : ∀ x ∈ s.1, x.nodeId ≠ act.nodeId := by
      intro x hx hxid
      exact hfresh (hxid ▸ List.mem_map_of_mem hx)
    rw [heq, Keyed.mem_set_iff distinct ha, hsome, ne_eq, ne_eq, ne_eq, Option.some.injEq]
    apply or_congr_right
    apply and_congr_right
    intro hx
    constructor
    · intro hxa
      use hne x hx
      rintro rfl
      exact hxa rfl
    · rintro ⟨-, hax⟩ hxa
      apply hax
      apply List.inj_on_of_nodup_map distinct (List.mem_of_getElem? ha) hx hxa.symm
  · rw [heq, hnone, List.mem_append, List.mem_singleton, or_comm]
    apply or_congr_right
    constructor
    · intro hx
      use hx
      constructor
      · intro hxid
        exact hfresh (hxid ▸ List.mem_map_of_mem hx)
      · intro h
        cases h
    · rintro ⟨hx, -⟩
      apply hx

end Step

/-! ### The loop -/

section Loop

variable {s : List Activity × (Content → ℕ)} {incoming : List Activity}
  (distinct : (nodes s.1).Nodup) (hnodes : ∀ a ∈ incoming, a.nodeId.isSome)
include distinct hnodes

theorem nodup_foldl :
  (nodes (incoming.foldl upsertActivity s).1).Nodup
  := by
  induction incoming generalizing s with
  | nil => apply distinct
  | cons act rest ih =>
    rw [List.forall_mem_cons] at hnodes
    apply ih (nodup_upsertActivity distinct hnodes.1) hnodes.2

/-- What is in the list after the batch came with the batch, or it was there and the batch does
not have its node. -/
theorem of_mem_foldl {x : Activity} (h : x ∈ (incoming.foldl upsertActivity s).1) :
  x ∈ incoming ∨ x ∈ s.1 ∧ x.nodeId ∉ nodes incoming
  := by
  induction incoming generalizing s with
  | nil =>
    right
    exact ⟨h, List.not_mem_nil⟩
  | cons act rest ih =>
    rw [List.forall_mem_cons] at hnodes
    rcases ih (nodup_upsertActivity distinct hnodes.1) hnodes.2 h with hx | ⟨hx, hrest⟩
    · left
      apply List.mem_cons_of_mem _ hx
    · rcases (mem_upsertActivity distinct hnodes.1).mp hx with rfl | ⟨hx, hne, -⟩
      · left
        apply List.mem_cons_self
      · right
        use hx
        rw [nodes, List.map_cons, List.mem_cons, not_or]
        exact ⟨hne, hrest⟩

/-- All of it is in the list exactly if the batch spares the other nodes. -/
theorem sparesNodesFrom_iff (hincoming : (nodes incoming).Nodup) :
  SparesNodesFrom s incoming
    ↔ ∀ x, x ∈ incoming ∨ x ∈ s.1 ∧ x.nodeId ∉ nodes incoming →
      x ∈ (incoming.foldl upsertActivity s).1
  := by
  induction incoming generalizing s with
  | nil => simp [SparesNodesFrom, nodes]
  | cons act rest ih =>
    rw [List.forall_mem_cons] at hnodes
    rw [nodes, List.map_cons, List.nodup_cons] at hincoming
    have hstep := nodup_upsertActivity distinct hnodes.1
    have hmem := @mem_upsertActivity s act distinct hnodes.1
    rw [SparesNodesFrom, ih hstep hnodes.2 hincoming.2, List.foldl_cons]
    constructor
    · rintro ⟨hspare, hall⟩ x (hx | ⟨hx, hnode⟩)
      · rcases List.mem_cons.mp hx with rfl | hx
        · apply hall
          right
          exact ⟨hmem.mpr (Or.inl rfl), hincoming.1⟩
        · apply hall
          left
          apply hx
      · rw [nodes, List.map_cons, List.mem_cons, not_or] at hnode
        apply hall
        right
        use hmem.mpr (Or.inr ⟨hx, hnode.1, fun h => hnode.2 (hspare x h)⟩)
        apply hnode.2
    · intro hall
      constructor
      · intro a ha
        -- an item that lost its place stays away unless the rest brings its node
        by_contra hrest
        obtain ⟨has, hne⟩ := mem_replaced hnodes.1 ha
        have hfinal := hall a (Or.inr ⟨has, fun h => (List.mem_cons.mp h).elim hne hrest⟩)
        rcases of_mem_foldl hstep hnodes.2 hfinal with hin | ⟨hstay, -⟩
        · apply hrest
          apply List.mem_map_of_mem hin
        · rcases hmem.mp hstay with rfl | ⟨-, -, hnot⟩
          · exact hne rfl
          · exact hnot ha
      · rintro x (hx | ⟨hx, hnode⟩)
        · apply hall
          left
          apply List.mem_cons_of_mem _ hx
        · apply hall
          rcases hmem.mp hx with rfl | ⟨hxs, hne, -⟩
          · left
            apply List.mem_cons_self
          · right
            use hxs
            rw [nodes, List.map_cons, List.mem_cons, not_or]
            exact ⟨hne, hnode⟩

/-- A batch that is in the list leaves it as it is. -/
theorem foldl_of_subset (hsubset : ∀ a ∈ incoming, a ∈ s.1) :
  incoming.foldl upsertActivity s = s
  := by
  induction incoming generalizing s with
  | nil => rfl
  | cons act rest ih =>
    rw [List.forall_mem_cons] at hnodes hsubset
    have hstep : upsertActivity s act = s := by
      cases hnode : positionOfNode s.1 act.nodeId with
      | none => exact absurd (List.mem_map_of_mem hsubset.1) (positionOfNode_none hnodes.1 hnode)
      | some i =>
        obtain ⟨a, ha, hid⟩ := positionOfNode_some hnode
        have haact : a = act :=
          List.inj_on_of_nodup_map distinct (List.mem_of_getElem? ha) hsubset.1 hid
        subst haact
        obtain ⟨hi, rfl⟩ := List.getElem?_eq_some_iff.mp ha
        rw [upsertActivity, hnode]
        ext1
        · apply List.set_getElem_self
        · rfl
    rw [List.foldl_cons, hstep]
    apply ih distinct hnodes.2 hsubset.2

end Loop

/-! ### The feed -/

theorem mem_sortActivity {a : Activity} :
  a ∈ sortActivity list ↔ a ∈ list
  := List.mem_insertionSort _

theorem newestFirst_sortActivity (list : List Activity) :
  NewestFirst (sortActivity list)
  := by
  have : Std.Total fun a b : Activity => b.createdAt ≤ a.createdAt :=
    ⟨fun a b => le_total b.createdAt a.createdAt⟩
  have : IsTrans Activity fun a b => b.createdAt ≤ a.createdAt :=
    ⟨fun a b c hab hbc => le_trans hbc hab⟩
  apply List.pairwise_insertionSort

theorem sortActivity_of_newestFirst (h : NewestFirst list) :
  sortActivity list = list
  := List.Pairwise.insertionSort_eq h

section Feed

variable {stored incoming : List Activity}
  (distinct : (nodes stored).Nodup) (hnodes : ∀ a ∈ incoming, a.nodeId.isSome)
  (fits : ((nodes stored).toFinset ∪ (nodes incoming).toFinset).card ≤ maxActivityItems)
include distinct hnodes fits

/-- Within the cap nothing is cut off. -/
theorem mergeFeed_eq :
  mergeFeed stored incoming
    = sortActivity (incoming.foldl upsertActivity (stored, fun _ => 0)).1
  := by
  rw [mergeFeed, List.take_of_length_le]
  rw [sortActivity, List.length_insertionSort]
  apply le_trans _ fits
  have hnodup := nodup_foldl (s := (stored, fun _ => 0)) distinct hnodes
  rw [← List.length_map Activity.nodeId, ← nodes, ← List.toFinset_card_of_nodup hnodup]
  apply Finset.card_le_card
  intro n hn
  obtain ⟨x, hx, rfl⟩ := List.mem_map.mp (List.mem_toFinset.mp hn)
  rw [Finset.mem_union, List.mem_toFinset, List.mem_toFinset]
  rcases of_mem_foldl (s := (stored, fun _ => 0)) distinct hnodes hx with hx | ⟨hx, -⟩
  · right
    apply List.mem_map_of_mem hx
  · left
    apply List.mem_map_of_mem hx

theorem merged_mergeFeed_iff (hincoming : (nodes incoming).Nodup) :
  Merged stored incoming (mergeFeed stored incoming) ↔ SparesNodes stored incoming
  := by
  have hnodup := nodup_foldl (s := (stored, fun _ => 0)) distinct hnodes
  rw [mergeFeed_eq distinct hnodes fits, SparesNodes,
    sparesNodesFrom_iff distinct hnodes hincoming]
  constructor
  · rintro merged x (hx | ⟨hx, hnode⟩)
    · apply mem_sortActivity.mp (merged.ofIncoming x hx)
    · apply mem_sortActivity.mp (merged.ofStored x hx hnode)
  · intro hall
    have hnotin : ∀ a ∈ stored, a.nodeId ∈ nodes incoming ∨
        a ∈ (incoming.foldl upsertActivity (stored, fun _ => 0)).1 := by
      intro a ha
      by_cases hnode : a.nodeId ∈ nodes incoming
      · left
        apply hnode
      · right
        apply hall a (Or.inr ⟨ha, hnode⟩)
    have hin : ∀ n ∈ nodes incoming, n ∈ nodes
        (sortActivity (incoming.foldl upsertActivity (stored, fun _ => 0)).1) := by
      intro n hn
      obtain ⟨a, ha, rfl⟩ := List.mem_map.mp hn
      apply List.mem_map_of_mem (mem_sortActivity.mpr (hall a (Or.inl ha)))
    constructor
    · apply ((List.perm_insertionSort _ _).map _).nodup_iff.mpr hnodup
    · intro n
      constructor
      · intro hn
        obtain ⟨x, hx, rfl⟩ := List.mem_map.mp hn
        rcases of_mem_foldl distinct hnodes (mem_sortActivity.mp hx) with hx | ⟨hx, -⟩
        · right
          apply List.mem_map_of_mem hx
        · left
          apply List.mem_map_of_mem hx
      · rintro (hn | hn)
        · obtain ⟨a, ha, rfl⟩ := List.mem_map.mp hn
          rcases hnotin a ha with hnode | hmem
          · apply hin _ hnode
          · apply List.mem_map_of_mem (mem_sortActivity.mpr hmem)
        · apply hin n hn
    · intro a ha
      apply mem_sortActivity.mpr (hall a (Or.inl ha))
    · intro a ha hnode
      apply mem_sortActivity.mpr (hall a (Or.inr ⟨ha, hnode⟩))
    · apply newestFirst_sortActivity

end Feed

/-! ### Merging again -/

theorem mem_identitiesFrom
    {seen : Content → ℕ} {id : ActivityIdentity} (h : id ∈ identitiesFrom seen list) :
  seen id.1 ≤ id.2
  := by
  induction list generalizing seen with
  | nil => cases h
  | cons a rest ih =>
    rw [identitiesFrom, List.mem_cons] at h
    rcases h with rfl | h
    · apply le_rfl
    · have hle := ih h
      by_cases hcontent : id.1 = a.content
      · rw [hcontent, Function.update_self] at hle
        rw [hcontent]
        omega
      · rwa [Function.update_of_ne hcontent] at hle

theorem nodup_identitiesFrom (seen : Content → ℕ) (list : List Activity) :
  (identitiesFrom seen list).Nodup
  := by
  induction list generalizing seen with
  | nil => apply List.nodup_nil
  | cons a rest ih =>
    rw [identitiesFrom, List.nodup_cons]
    constructor
    · intro h
      have hle := mem_identitiesFrom h
      rw [Function.update_self] at hle
      omega
    · apply ih

theorem nodup_activityIdentities (list : List Activity) :
  (activityIdentities list).Nodup
  := nodup_identitiesFrom _ list

/-- Of distinct elements, those of an end of the list are the longest end of them. -/
theorem rtakeWhile_of_nodup {α : Type*} {l : List α} (distinct : l.Nodup) {k : ℕ} {p : α → Bool}
    (hp : ∀ a, p a = true ↔ a ∈ l.drop k) :
  l.rtakeWhile p = l.drop k
  := by
  have hsplit := List.take_append_drop k l
  have hreverse : l.reverse = (l.drop k).reverse ++ (l.take k).reverse := by
    rw [← List.reverse_append, hsplit]
  rw [← hsplit, List.nodup_append] at distinct
  rw [List.rtakeWhile, List.reverse_eq_iff, hreverse, List.takeWhile_append_of_pos,
    List.append_right_eq_self]
  · cases htake : (l.take k).reverse with
    | nil => rfl
    | cons a rest =>
      rw [List.takeWhile_cons_of_neg]
      intro ha
      apply distinct.2.2 a _ a ((hp a).mp ha) rfl
      rw [← List.mem_reverse, htake]
      apply List.mem_cons_self
  · intro a ha
    apply (hp a).mpr (List.mem_reverse.mp ha)

namespace Workspace

variable {ws : Workspace}

variable {incoming : List Activity}

theorem activity_mergeActivity (h : incoming ≠ []) :
  (ws.mergeActivity incoming).activity = mergeFeed ws.activity incoming
  := by
  rw [mergeActivity, if_neg h]

/-- The marks of a workspace lie above its tail, and the tail lies in its feed. -/
structure Marked (ws : Workspace) : Prop where
  above : ∀ i ∈ ws.readIndices, i < ws.seenStart
  inside : ws.seenCount ≤ ws.activity.length

theorem marked_mergeActivity (h : incoming ≠ []) :
  (ws.mergeActivity incoming).Marked
  := by
  rw [mergeActivity, if_neg h]
  constructor
  · intro i hi
    obtain ⟨⟨id, j⟩, hmem, rfl⟩ := List.mem_map.mp (List.mem_toFinset.mp hi)
    have hj := List.mem_zipIdx_iff_getElem?.mp (List.mem_of_mem_filter hmem)
    obtain ⟨hlt, -⟩ := List.getElem?_eq_some_iff.mp hj
    apply lt_of_lt_of_le hlt
    apply List.length_take_le
  · rw [← length_activityIdentities]
    apply List.IsSuffix.length_le (List.rtakeWhile_suffix _ _)

/-- A merge that leaves the feed as it is leaves what was read as it is. -/
theorem mergeActivity_of_mergeFeed
    (marked : ws.Marked) (h : mergeFeed ws.activity incoming = ws.activity) :
  ws.mergeActivity incoming = ws
  := by
  rw [mergeActivity]
  split
  · rfl
  · have hnodup := nodup_activityIdentities ws.activity
    have hinj : ∀ {i j : ℕ} {id : ActivityIdentity},
        (activityIdentities ws.activity)[i]? = some id →
        (activityIdentities ws.activity)[j]? = some id → i = j := by
      intro i j id hi hj
      apply (List.getElem?_inj (List.getElem?_eq_some_iff.mp hi).1 hnodup).mp (hi.trans hj.symm)
    have hsuffix : ((activityIdentities ws.activity).rtakeWhile
        fun id => id ∈ ws.seenKeys).length = ws.seenCount := by
      have hinside := marked.inside
      rw [rtakeWhile_of_nodup hnodup (k := ws.seenStart), List.length_drop,
        length_activityIdentities, seenStart]
      · omega
      · intro id
        rw [decide_eq_true_eq, seenKeys, List.mem_toFinset]
    simp only [h, hsuffix]
    congr 1
    ext i
    rw [List.mem_toFinset, List.mem_map]
    constructor
    · rintro ⟨⟨id, j⟩, hmem, rfl⟩
      rw [List.mem_filter, List.mem_zipIdx_iff_getElem?, List.getElem?_take] at hmem
      obtain ⟨hid, hkeys⟩ := hmem
      split at hid
      · next hj =>
          rcases of_decide_eq_true hkeys with hread | hseen
          · obtain ⟨k, hk, hkid⟩ := mem_readKeys.mp hread
            rw [hinj hid hkid]
            apply hk
          · obtain ⟨k, hk, hkid⟩ := mem_seenKeys.mp hseen
            rw [hinj hid hkid] at hj
            exact absurd hj (not_lt.mpr hk)
      · cases hid
    · intro hi
      have habove := marked.above i hi
      have hlt : i < (activityIdentities ws.activity).length := by
        rw [length_activityIdentities]
        apply lt_of_lt_of_le habove (Nat.sub_le _ _)
      have hid := List.getElem?_eq_getElem hlt
      refine ⟨((activityIdentities ws.activity)[i], i), ?_, rfl⟩
      rw [List.mem_filter, List.mem_zipIdx_iff_getElem?]
      use Eq.trans (List.getElem?_take_of_lt habove) hid
      apply decide_eq_true
      left
      apply mem_readKeys.mpr ⟨i, hi, hid⟩

/-- A merge holds each node once, and is the same when it is made again, exactly if the batch
spares the other nodes; an empty batch leaves the feed in the order it has. -/
theorem mergeActivity_merged_iff
    {incoming : List Activity} (distinct : (nodes ws.activity).Nodup)
    (hnodes : ∀ a ∈ incoming, a.nodeId.isSome) (hincoming : (nodes incoming).Nodup)
    (fits : ((nodes ws.activity).toFinset ∪ (nodes incoming).toFinset).card
      ≤ maxActivityItems) :
  Merged ws.activity incoming (ws.mergeActivity incoming).activity
      ∧ (ws.mergeActivity incoming).mergeActivity incoming = ws.mergeActivity incoming
    ↔ SparesNodes ws.activity incoming ∧ (incoming = [] → NewestFirst ws.activity)
  := by
  by_cases hempty : incoming = []
  · subst hempty
    constructor
    · rintro ⟨merged, -⟩
      exact ⟨trivial, fun _ => merged.newestFirst⟩
    · rintro ⟨-, hsorted⟩
      constructor
      · constructor
        · apply distinct
        · intro n
          simp [mergeActivity, nodes]
        · intro a ha
          cases ha
        · intro a ha _
          apply ha
        · apply hsorted rfl
      · rfl
  · rw [activity_mergeActivity hempty, merged_mergeFeed_iff distinct hnodes fits hincoming]
    constructor
    · rintro ⟨hspares, -⟩
      exact ⟨hspares, fun h => absurd h hempty⟩
    · rintro ⟨hspares, -⟩
      use hspares
      have merged := (merged_mergeFeed_iff distinct hnodes fits hincoming).mpr hspares
      apply mergeActivity_of_mergeFeed (marked_mergeActivity hempty)
      rw [activity_mergeActivity hempty, mergeFeed,
        foldl_of_subset merged.once hnodes merged.ofIncoming,
        sortActivity_of_newestFirst merged.newestFirst, List.take_of_length_le]
      apply List.length_take_le

end Workspace

/-- A feed of one item. -/
def onePing : Workspace where
  activity := [⟨"bot", "ping", 1, some "a"⟩]
  seenCount := 0
  readIndices := ∅

/-- The item, edited, and its twin. -/
def pingAgain : List Activity :=
  [⟨"bot", "ping, edited", 1, some "a"⟩, ⟨"bot", "ping", 1, some "b"⟩]

theorem mergeActivity_merged_pingAgain :
  Merged onePing.activity pingAgain (onePing.mergeActivity pingAgain).activity
      ∧ (onePing.mergeActivity pingAgain).mergeActivity pingAgain
        = onePing.mergeActivity pingAgain
    ↔ SparesNodes onePing.activity pingAgain ∧ (pingAgain = [] → NewestFirst onePing.activity)
  := Workspace.mergeActivity_merged_iff (by decide) (by decide) (by decide) (by decide)

/-- A twin of the stored item comes alone, and the stored item is lost. -/
theorem twin_takes_place :
  ¬ (Merged onePing.activity [⟨"bot", "ping", 1, some "b"⟩]
        (onePing.mergeActivity [⟨"bot", "ping", 1, some "b"⟩]).activity
      ∧ (onePing.mergeActivity [⟨"bot", "ping", 1, some "b"⟩]).mergeActivity
          [⟨"bot", "ping", 1, some "b"⟩]
        = onePing.mergeActivity [⟨"bot", "ping", 1, some "b"⟩])
  := by
  rintro ⟨merged, -⟩
  have hmem := (merged.union (some "a")).mpr (Or.inl (by decide))
  revert hmem
  decide +kernel

end Lazybox.Feed
