import Lazybox.Library.Run
import Lazybox.Core.Activity

/-!
# What is unread follows the contents

The feed is also kept with one flag for each content, which says whether it was read.  A merge
keeps the flags of the contents that were in the feed, and the other marks set or clear the flag of
the item they are about.  As long as the contents in the feed are distinct, the positions say the
same as the flags.
-/

namespace Lazybox.Feed

inductive FeedAct where
  | merge (incoming : List Activity)
  | mark (index : ℕ)
  | unmark (index : ℕ)
  | markAll

namespace Workspace

def step (ws : Workspace) : FeedAct → Workspace
  | .merge incoming => ws.mergeActivity incoming
  | .mark index => ws.markActivityRead index
  | .unmark index => ws.unmarkActivityRead index
  | .markAll => ws.markReadAll

def machine : Machine Workspace FeedAct Empty := ⟨fun ws a => (ws.step a, [])⟩

end Workspace

/-- A feed, and for each content whether it was read. -/
structure Flagged where
  activity : List Activity
  read : Content → Bool

namespace Flagged

variable (s : Flagged)

def holds (c : Content) : Bool := c ∈ s.activity.map Activity.content

/-- Set the flag of the item at an index. -/
def flag (index : ℕ) (value : Bool) : Flagged :=
  match s.activity[index]? with
  | some a => { s with read := Function.update s.read a.content value }
  | none => s

/-- What was in the feed stays as it was, and what was not is unread. -/
def merge (incoming : List Activity) : Flagged :=
  if incoming = [] then s
  else { activity := mergeFeed s.activity incoming, read := fun c => s.holds c && s.read c }

def step : FeedAct → Flagged
  | .merge incoming => s.merge incoming
  | .mark index => s.flag index true
  | .unmark index => s.flag index false
  | .markAll => { s with read := s.holds }

def machine : Machine Flagged FeedAct Empty := ⟨fun s a => (s.step a, [])⟩

def unreadItems : List Activity := s.activity.filter fun a => !s.read a.content

variable {s}

theorem flag_of_some {index : ℕ} {value : Bool} {a : Activity} (h : s.activity[index]? = some a) :
  s.flag index value = { s with read := Function.update s.read a.content value }
  := by
  rw [flag, h]

theorem flag_of_none {index : ℕ} {value : Bool} (h : s.activity[index]? = none) :
  s.flag index value = s
  := by
  rw [flag, h]

end Flagged

/-- The flags of a workspace. -/
def Workspace.flagged (ws : Workspace) : Flagged where
  activity := ws.activity
  read := fun c => ws.activity.zipIdx.any fun p => p.1.content = c && !ws.isActivityUnread p.2

/-! ### What a merge finds -/

namespace Workspace

variable {ws : Workspace}

theorem isActivityUnread_iff {index : ℕ} :
  ws.isActivityUnread index = true ↔ index < ws.seenStart ∧ index ∉ ws.readIndices
  := by
  simp [isActivityUnread]

variable {id : ActivityIdentity}

theorem mem_readKeys :
  id ∈ ws.readKeys ↔ ∃ i ∈ ws.readIndices, (activityIdentities ws.activity)[i]? = some id
  := by
  simp [readKeys]

theorem mem_seenKeys :
  id ∈ ws.seenKeys ↔ ∃ i, ws.seenStart ≤ i ∧ (activityIdentities ws.activity)[i]? = some id
  := by
  rw [seenKeys, List.mem_toFinset, List.mem_iff_getElem?]
  constructor
  · rintro ⟨i, hi⟩
    use ws.seenStart + i, Nat.le_add_right _ _
    rwa [List.getElem?_drop] at hi
  · rintro ⟨i, hstart, hi⟩
    use i - ws.seenStart
    rwa [List.getElem?_drop, Nat.add_sub_cancel' hstart]

/-- The keys a merge finds are those of the items that are not unread. -/
theorem mem_keys_iff :
  id ∈ ws.readKeys ∨ id ∈ ws.seenKeys
    ↔ ∃ i, (activityIdentities ws.activity)[i]? = some id ∧ ws.isActivityUnread i = false
  := by
  have hread : ∀ i, ws.isActivityUnread i = false ↔ i ∈ ws.readIndices ∨ ws.seenStart ≤ i := by
    intro i
    rw [← Bool.not_eq_true, isActivityUnread_iff, not_and_or, not_lt, not_not, or_comm]
  rw [mem_readKeys, mem_seenKeys]
  constructor
  · rintro (⟨i, hi, hid⟩ | ⟨i, hi, hid⟩)
    · use i, hid
      rw [hread]
      left
      apply hi
    · use i, hid
      rw [hread]
      right
      apply hi
  · rintro ⟨i, hid, hi⟩
    rw [hread] at hi
    cases hi with
    | inl hi =>
      left
      use i
    | inr hi =>
      right
      use i

/-- What is found in the longest end of a list that meets a condition meets it. -/
theorem of_rtakeWhile {α : Type*} {p : α → Bool} {l : List α} {i : ℕ} {a : α} (ha : l[i]? = some a)
    (hi : l.length - (l.rtakeWhile p).length ≤ i) :
  p a
  := by
  apply List.mem_rtakeWhile_imp (l := l)
  have hsplit : l.rdropWhile p ++ l.rtakeWhile p = l := List.rdropWhile_append_rtakeWhile
  have hlength : (l.rdropWhile p).length + (l.rtakeWhile p).length = l.length := by
    rw [← List.length_append, hsplit]
  rw [← hsplit, List.getElem?_append_right (by omega)] at ha
  apply List.mem_of_getElem? ha

/-- After a merge an item is unread if its identity is none of those that were found. -/
theorem isActivityUnread_mergeActivity {incoming : List Activity} (h : incoming ≠ []) {i : ℕ}
    (hid : (activityIdentities (ws.mergeActivity incoming).activity)[i]? = some id) :
  (ws.mergeActivity incoming).isActivityUnread i = true
    ↔ ¬ (id ∈ ws.readKeys ∨ id ∈ ws.seenKeys)
  := by
  rw [isActivityUnread_iff, seenStart]
  rw [mergeActivity, if_neg h] at hid ⊢
  obtain ⟨hi, -⟩ := List.getElem?_eq_some_iff.mp hid
  rw [length_activityIdentities] at hi
  constructor
  · rintro ⟨hstart, hread⟩ hkeys
    apply hread
    rw [List.mem_toFinset, List.mem_map]
    refine ⟨(id, i), ?_, rfl⟩
    rw [List.mem_filter, List.mem_zipIdx_iff_getElem?, List.getElem?_take_of_lt hstart]
    exact ⟨hid, decide_eq_true hkeys⟩
  · intro hkeys
    constructor
    · by_contra hstart
      apply hkeys
      right
      apply of_decide_eq_true
      apply of_rtakeWhile hid
      rw [length_activityIdentities]
      apply not_lt.mp hstart
    · intro hread
      rw [List.mem_toFinset, List.mem_map] at hread
      obtain ⟨⟨id', j⟩, hmem, rfl⟩ := hread
      rw [List.mem_filter, List.mem_zipIdx_iff_getElem?] at hmem
      obtain ⟨hid', hkeys'⟩ := hmem
      rw [List.getElem?_take] at hid'
      split at hid'
      · rw [hid, Option.some.injEq] at hid'
        subst hid'
        apply hkeys (of_decide_eq_true hkeys')
      · cases hid'

end Workspace

/-! ### The positions follow the flags -/

/-- The positions say what the flags say. -/
structure Follows (ws : Workspace) (s : Flagged) : Prop where
  activity : s.activity = ws.activity
  distinct : ws.Distinct
  unread : ∀ i a, ws.activity[i]? = some a → ws.isActivityUnread i = !s.read a.content

namespace Workspace

variable {ws : Workspace}

/-- In a feed of distinct contents, an item is found at one index only. -/
theorem Distinct.index_eq (h : ws.Distinct) {i j : ℕ} {a b : Activity}
    (ha : ws.activity[i]? = some a) (hb : ws.activity[j]? = some b) (hab : a.content = b.content) :
  i = j
  := by
  obtain ⟨hi, -⟩ := List.getElem?_eq_some_iff.mp ha
  apply (List.getElem?_inj (by simpa using hi) h).mp
  rw [List.getElem?_map, List.getElem?_map, ha, hb, Option.map_some, Option.map_some, hab]

theorem Distinct.identity (h : ws.Distinct) {i : ℕ} {id : ActivityIdentity} :
  (activityIdentities ws.activity)[i]? = some id
    ↔ ∃ a, ws.activity[i]? = some a ∧ (a.content, 0) = id
  := by
  rw [activityIdentities_eq_map h, List.getElem?_map, Option.map_eq_some_iff]

theorem read_flagged {c : Content} :
  ws.flagged.read c = true
    ↔ ∃ i a, ws.activity[i]? = some a ∧ a.content = c ∧ ws.isActivityUnread i = false
  := by
  simp [flagged, List.mem_zipIdx_iff_getElem?]
  tauto

theorem follows_flagged (h : ws.Distinct) :
  Follows ws ws.flagged
  := by
  constructor
  · rfl
  · apply h
  · intro i a ha
    have hread : ws.flagged.read a.content = true ↔ ws.isActivityUnread i = false := by
      rw [read_flagged]
      constructor
      · rintro ⟨j, b, hb, hcontent, hread⟩
        rw [h.index_eq ha hb hcontent.symm]
        apply hread
      · intro hread
        use i, a
    rw [Bool.eq_iff_iff, Bool.not_eq_true', ← Bool.not_eq_true, hread, Bool.not_eq_false]

end Workspace

namespace Follows

variable {ws : Workspace} {s : Flagged} (follows : Follows ws s)
include follows

theorem read_iff {i : ℕ} {a : Activity} (ha : ws.activity[i]? = some a) :
  s.read a.content = true ↔ ws.isActivityUnread i = false
  := by
  rw [follows.unread i a ha, Bool.not_eq_false']

/-- What a merge keeps of the flags is what it finds by the positions. -/
theorem mem_keys_iff {c : Content} :
  (c, 0) ∈ ws.readKeys ∨ (c, 0) ∈ ws.seenKeys ↔ (s.holds c && s.read c) = true
  := by
  rw [Workspace.mem_keys_iff, Bool.and_eq_true, Flagged.holds, decide_eq_true_eq,
    follows.activity, List.mem_map]
  constructor
  · rintro ⟨i, hid, hread⟩
    obtain ⟨a, ha, hac⟩ := follows.distinct.identity.mp hid
    obtain ⟨rfl, -⟩ := Prod.mk.inj hac
    constructor
    · use a, List.mem_of_getElem? ha
    · apply (follows.read_iff ha).mpr hread
  · rintro ⟨⟨a, ha, rfl⟩, hread⟩
    obtain ⟨i, ha⟩ := List.mem_iff_getElem?.mp ha
    use i
    constructor
    · apply follows.distinct.identity.mpr
      use a
    · apply (follows.read_iff ha).mp hread

theorem merge {incoming : List Activity} (distinct : (ws.mergeActivity incoming).Distinct) :
  Follows (ws.mergeActivity incoming) (s.merge incoming)
  := by
  by_cases h : incoming = []
  · rw [Workspace.mergeActivity, if_pos h, Flagged.merge, if_pos h]
    apply follows
  · constructor
    · rw [Workspace.mergeActivity, if_neg h, Flagged.merge, if_neg h, follows.activity]
    · apply distinct
    · intro i a ha
      have hid := distinct.identity.mpr ⟨a, ha, rfl⟩
      rw [Bool.eq_iff_iff, Workspace.isActivityUnread_mergeActivity h hid,
        follows.mem_keys_iff, Flagged.merge, if_neg h, Bool.not_eq_true, Bool.not_eq_true']

/-- A mark that is about one item does what the flag of its content says. -/
theorem flag {ws' : Workspace} {index : ℕ} {value : Bool} (activity : ws'.activity = ws.activity)
    (own : index < ws.activity.length → ws'.isActivityUnread index = !value)
    (others : ∀ i < ws.activity.length, i ≠ index → ws'.isActivityUnread i = ws.isActivityUnread i)
    :
  Follows ws' (s.flag index value)
  := by
  have distinct : ws'.Distinct := by
    rw [Workspace.Distinct, activity]
    apply follows.distinct
  cases hindex : ws.activity[index]? with
  | none =>
    rw [Flagged.flag_of_none (by rwa [follows.activity])]
    constructor
    · rw [activity, follows.activity]
    · apply distinct
    · intro i a ha
      rw [activity] at ha
      obtain ⟨hi, -⟩ := List.getElem?_eq_some_iff.mp ha
      rw [others i hi, follows.unread i a ha]
      rintro rfl
      rw [hindex] at ha
      cases ha
  | some b =>
    rw [Flagged.flag_of_some (by rwa [follows.activity])]
    constructor
    · apply Eq.trans follows.activity activity.symm
    · apply distinct
    · intro i a ha
      rw [activity] at ha
      obtain ⟨hi, -⟩ := List.getElem?_eq_some_iff.mp ha
      by_cases hne : i = index
      · subst hne
        rw [hindex, Option.some.injEq] at ha
        rw [own hi, ha]
        dsimp only
        rw [Function.update_self]
      · rw [others i hi hne, follows.unread i a ha]
        dsimp only
        rw [Function.update_of_ne]
        intro hab
        apply hne (follows.distinct.index_eq ha hindex hab)

theorem markRead (index : ℕ) :
  Follows (ws.markActivityRead index) (s.flag index true)
  := by
  rw [Workspace.markActivityRead]
  split
  · apply follows.flag
    · rfl
    · intro _
      simp [Workspace.isActivityUnread]
    · intro i _ hne
      rw [Bool.eq_iff_iff, Workspace.isActivityUnread_iff, Workspace.isActivityUnread_iff]
      simp [Workspace.seenStart, hne]
  · next hlength =>
      apply follows.flag
      · rfl
      · intro hindex
        apply absurd hindex hlength
      · intro i _ _
        rfl

/-- An item which is unmarked in the tail becomes unread, and what is above it in the tail
stays read. -/
theorem unmarkRead (index : ℕ) :
  Follows (ws.unmarkActivityRead index) (s.flag index false)
  := by
  rw [Workspace.unmarkActivityRead]
  split
  · next htail =>
      apply follows.flag
      · rfl
      · intro hindex
        rw [Bool.not_false, Workspace.isActivityUnread_iff]
        constructor
        · simp only [Workspace.seenStart]
          omega
        · simp
      · intro i hi hne
        rw [Bool.eq_iff_iff, Workspace.isActivityUnread_iff, Workspace.isActivityUnread_iff]
        simp only [Workspace.seenStart, Finset.mem_union, Finset.mem_erase, Finset.mem_Ico] at *
        constructor
        · rintro ⟨hstart, hread⟩
          push Not at hread
          constructor
          · by_contra hseen
            have := hread.2 (not_lt.mp hseen)
            omega
          · apply hread.1 hne
        · rintro ⟨hstart, hread⟩
          constructor
          · omega
          · push Not
            constructor
            · intro _
              apply hread
            · intro hseen
              omega
  · next htail =>
      apply follows.flag
      · rfl
      · intro hindex
        rw [Bool.not_false, Workspace.isActivityUnread_iff]
        constructor
        · apply not_le.mp htail
        · simp
      · intro i _ hne
        rw [Bool.eq_iff_iff, Workspace.isActivityUnread_iff, Workspace.isActivityUnread_iff]
        simp [Workspace.seenStart, hne]

theorem markAll :
  Follows ws.markReadAll { s with read := s.holds }
  := by
  constructor
  · apply follows.activity
  · apply follows.distinct
  · intro i a ha
    have hholds : s.holds a.content = true := by
      rw [Flagged.holds, decide_eq_true_eq, follows.activity]
      apply List.mem_map_of_mem (List.mem_of_getElem? ha)
    dsimp only
    rw [hholds, Bool.not_true, ← Bool.not_eq_true, Workspace.isActivityUnread_iff]
    simp [Workspace.markReadAll, Workspace.seenStart]

theorem next {a : FeedAct} (distinct : (Workspace.machine.next ws a).Distinct) :
  Follows (Workspace.machine.next ws a) (Flagged.machine.next s a)
  := by
  cases a with
  | merge incoming => apply follows.merge distinct
  | mark index => apply follows.markRead
  | unmark index => apply follows.unmarkRead
  | markAll => apply follows.markAll

end Follows

/-! ### What is unread -/

/-- The indices at which a condition holds lead to the items that meet it. -/
theorem filterMap_range {α : Type*} (l : List α) (p : ℕ → Bool) (q : α → Bool)
    (h : ∀ i a, l[i]? = some a → p i = q a) :
  ((List.range l.length).filter p).filterMap (l[·]?) = l.filter q
  := by
  induction l using List.reverseRecOn with
  | nil => rfl
  | append_singleton l a ih =>
    have hbefore : ∀ i b, l[i]? = some b → p i = q b := by
      intro i b hb
      apply h
      obtain ⟨hi, -⟩ := List.getElem?_eq_some_iff.mp hb
      rwa [List.getElem?_append_left hi]
    have hlast : p l.length = q a := h _ _ List.getElem?_concat_length
    have hfirst : ((List.range l.length).filter p).filterMap ((l ++ [a])[·]?)
        = ((List.range l.length).filter p).filterMap (l[·]?) := by
      apply List.filterMap_congr
      intro i hi
      apply List.getElem?_append_left
      apply List.mem_range.mp (List.mem_filter.mp hi).1
    rw [List.length_append, List.length_singleton, List.range_succ, List.filter_append,
      List.filterMap_append, hfirst, ih hbefore, List.filter_append]
    congr 1
    by_cases hq : q a = true
    · rw [List.filter_cons_of_pos (hlast.trans hq), List.filter_cons_of_pos hq]
      simp
    · rw [← hlast] at hq
      rw [List.filter_cons_of_neg hq, List.filter_cons_of_neg (by rwa [← hlast])]
      rfl

theorem Workspace.unreadActivityIndices_eq (ws : Workspace) :
  ws.unreadActivityIndices = (List.range ws.activity.length).filter ws.isActivityUnread
  := by
  have hlength : ws.activity.length = ws.seenStart + (ws.activity.length - ws.seenStart) := by
    rw [seenStart]
    omega
  rw [hlength, List.range_add, List.filter_append, unreadActivityIndices]
  have htail : (List.map (ws.seenStart + ·)
      (List.range (ws.activity.length - ws.seenStart))).filter ws.isActivityUnread = [] := by
    rw [List.filter_eq_nil_iff]
    intro i hi
    obtain ⟨j, -, rfl⟩ := List.mem_map.mp hi
    simp [isActivityUnread]
  rw [htail, List.append_nil]
  apply List.filter_congr
  intro i hi
  simp [isActivityUnread, List.mem_range.mp hi]

theorem Follows.unreadItems {ws : Workspace} {s : Flagged} (follows : Follows ws s) :
  ws.unreadItems = s.unreadItems
  := by
  rw [Workspace.unreadItems, Workspace.unreadActivityIndices_eq, Flagged.unreadItems,
    follows.activity]
  apply filterMap_range
  apply follows.unread

/-- The items which are unread are those whose flags say so. -/
theorem unread_eq_flagged
    {ws : Workspace} {as : List FeedAct} (start : ws.Distinct)
    (distinct :
      Workspace.machine.Along (fun ws a => (Workspace.machine.next ws a).Distinct) ws as) :
  (Workspace.machine.final ws as).unreadItems
    = (Flagged.machine.final ws.flagged as).unreadItems
  := by
  apply Follows.unreadItems
  apply Workspace.machine.simulation_along (Workspace.follows_flagged start) _ distinct
  intro ws s a hdistinct follows
  apply follows.next hdistinct

/-- A comment that was read, and two that were not. -/
def comments : Workspace where
  activity := [⟨"ana", "third", 3, none⟩, ⟨"ben", "second", 2, some "node"⟩,
    ⟨"ana", "first", 1, none⟩]
  seenCount := 1
  readIndices := ∅

/-- The older of the two is marked, an older one than all is found, and the marked one is
edited. -/
def backfill : List FeedAct :=
  [.mark 1, .merge [⟨"cy", "zeroth", 0, none⟩], .unmark 2, .markAll,
    .merge [⟨"ben", "second, edited", 2, some "node"⟩]]

theorem unread_eq_flagged_backfill :
  (Workspace.machine.final comments backfill).unreadItems
    = (Flagged.machine.final comments.flagged backfill).unreadItems
  := unread_eq_flagged (by decide +kernel) (by decide +kernel)

end Lazybox.Feed
