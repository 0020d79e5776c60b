import Lazybox.Core.TileTerminals

/-!
# The divider a resize moves

A resize of a tile walks up to the nearest split on the axis of the arrow, and moves its divider.
Focus walks up to the nearest split on that axis that has the tile on its far side.  The two walks
stop at one split only when the nearest split on the axis has the tile on its far side.
-/

namespace Lazybox

def tileRatioMin : UInt8 := 10

def tileRatioMax : UInt8 := 90

/-- A value brought between two bounds. -/
def clamp {α : Type} [LT α] [DecidableLT α] (x lo hi : α) : α :=
  if x < lo then lo else if hi < x then hi else x

def TileDirection.signed (dir : TileDirection) (step : Int16) : Int16 :=
  if dir.wantFirst then -step else step

namespace TileTree

/-! ### Resizing -/

/-- The tree with the ratio of the split at a path replaced. -/
def withRatioAt : TileTree → TilePath → UInt8 → TileTree
  | leaf id, _, _ => leaf id
  | split axis first second _, [], ratio => split axis first second ratio
  | split axis first second old, step :: path, ratio =>
      if step = 0 then split axis (first.withRatioAt path ratio) second old
      else split axis first (second.withRatioAt path ratio) old

/-- Set the ratio of the split at a path, and tell whether it changed. -/
def setRatioAt (t : TileTree) (path : TilePath) (ratio : UInt8) : TileTree × Bool :=
  let clamped := clamp ratio tileRatioMin tileRatioMax
  match t.ratioAt path with
  | some r => if r = clamped then (t, false) else (t.withRatioAt path clamped, true)
  | none => (t, false)

/-- Move the divider of the split at a path, and tell which one it was if it did move. -/
def moveDivider (t : TileTree) (owner : TilePath) (signed : Int16) :
    TileTree × Option TilePath :=
  match t.ratioAt owner with
  | none => (t, none)
  | some ratio =>
      let current := ratio.toUInt16.toInt16
      let next := clamp (current + signed) tileRatioMin.toUInt16.toInt16
        tileRatioMax.toUInt16.toInt16
      let (t', changed) := t.setRatioAt owner next.toUInt16.toUInt8
      (t', if changed then some owner else none)

/-- The walk of `resizeToward` from the `i`th step of the path up. -/
def resizeFrom (t : TileTree) (path : TilePath) (dir : TileDirection) (signed : Int16) :
    ℕ → TileTree × Option TilePath
  | 0 => (t, none)
  | i + 1 =>
      match t.subtreeAt (path.take i) with
      | none => (t, none)
      | some node =>
          if node.isHSplit ≠ dir.wantHorizontal then t.resizeFrom path dir signed i
          else t.moveDivider (path.take i) signed

/-- Move the divider nearest to a leaf in the direction of an arrow.  The sum of the ratio and the
step wraps around where a build without overflow checks wraps. -/
def resizeToward (t : TileTree) (leafPath : TilePath) (dir : TileDirection) (step : Int16) :
    TileTree × Option TilePath :=
  t.resizeFrom leafPath dir (dir.signed step) leafPath.length

/-! ### The divider -/

/-- The path to the lowest node above both of two tiles. -/
def lca : TilePath → TilePath → TilePath
  | step :: p, step' :: q => if step = step' then step :: lca p q else []
  | _, _ => []

/-- Where the walk of a resize stops. -/
def dividerFrom (t : TileTree) (path : TilePath) (dir : TileDirection) : ℕ → Option TilePath
  | 0 => none
  | i + 1 =>
      match t.subtreeAt (path.take i) with
      | none => none
      | some node =>
          if node.isHSplit ≠ dir.wantHorizontal then t.dividerFrom path dir i
          else some (path.take i)

def divider (t : TileTree) (path : TilePath) (dir : TileDirection) : Option TilePath :=
  t.dividerFrom path dir path.length

/-- The nearest split above a tile on the axis of an arrow. -/
structure Nearest (t : TileTree) (path : TilePath) (dir : TileDirection) (d : TilePath) :
    Prop where
  above : d <+: path
  onAxis : t.axisAt d = some dir.axis
  nearest : ∀ q, q <+: path → d.length < q.length → t.axisAt q ≠ some dir.axis

section Divider

variable {t c : TileTree} {axis : TileAxis} {first second : TileTree} {ratio step : UInt8}
  {path rest d n : TilePath} {dir : TileDirection} {id : UInt64}

theorem resizeFrom_eq (t : TileTree) (path : TilePath) (dir : TileDirection) (signed : Int16)
    (i : ℕ) :
  t.resizeFrom path dir signed i
    = (t.dividerFrom path dir i).elim (t, none) fun d => t.moveDivider d signed
  := by
  induction i with
  | zero => rfl
  | succ i ih =>
    rw [resizeFrom, dividerFrom]
    cases t.subtreeAt (path.take i) with
    | none => rfl
    | some node =>
      dsimp only
      split
      · apply ih
      · rfl

/-- A resize moves the divider where its walk stops. -/
theorem resizeToward_eq (t : TileTree) (path : TilePath) (dir : TileDirection) (s : Int16) :
  t.resizeToward path dir s
    = (t.divider path dir).elim (t, none) fun d => t.moveDivider d (dir.signed s)
  := resizeFrom_eq t path dir (dir.signed s) path.length

theorem dividerFrom_succ (t : TileTree) (path : TilePath) (dir : TileDirection) (i : ℕ) :
  t.dividerFrom path dir (i + 1)
    = match t.subtreeAt (path.take i) with
      | none => none
      | some node =>
          if node.isHSplit ≠ dir.wantHorizontal then t.dividerFrom path dir i
          else some (path.take i)
  := rfl

/-- The walk up from a tile of a child goes through the child first. -/
theorem dividerFrom_cons (hchild : t.child step = some c) (hrest : (c.subtreeAt rest).isSome)
    (i : ℕ) :
  t.dividerFrom (step :: rest) dir (i + 1)
    = ((c.dividerFrom rest dir i).map (step :: ·)).or (t.dividerFrom (step :: rest) dir 1)
  := by
  induction i with
  | zero => rfl
  | succ i ih =>
    obtain ⟨node, hnode⟩ := Option.isSome_iff_exists.mp (isSome_subtreeAt_take hrest i)
    have hsame : t.subtreeAt ((step :: rest).take (i + 1)) = some node := by
      rw [List.take_succ_cons, subtreeAt_cons, hchild, Option.bind_some, hnode]
    rw [dividerFrom_succ t _ _ (i + 1), dividerFrom_succ c, hsame, hnode]
    dsimp only
    split
    · apply ih
    · rfl

/-- Above a tile of a child of a split, the split itself is the last to be walked to. -/
theorem divider_split (hchild : (split axis first second ratio).child step = some c)
    (hrest : (c.subtreeAt rest).isSome) :
  (split axis first second ratio).divider (step :: rest) dir
    = ((c.divider rest dir).map (step :: ·)).or (if axis = dir.axis then some [] else none)
  := by
  rw [divider, List.length_cons, dividerFrom_cons hchild hrest, divider]
  congr 1
  rw [dividerFrom_succ, List.take_zero, subtreeAt_nil]
  dsimp only
  by_cases haxis : axis = dir.axis
  · rw [if_neg (not_not.mpr (isHSplit_eq_iff.mpr haxis)), if_pos haxis]
  · rw [if_pos fun h => haxis (isHSplit_eq_iff.mp h), if_neg haxis]
    rfl

/-- A split above a tile of a child is the split at the top, or lies above the tile in the child. -/
theorem axisAt_cons (hchild : t.child step = some c) (q : TilePath) :
  t.axisAt (step :: q) = c.axisAt q
  := by
  rw [axisAt, subtreeAt_cons, hchild, Option.bind_some, axisAt]

theorem divider_eq_none (hpath : (t.subtreeAt path).isSome) (h : t.divider path dir = none)
    (q : TilePath) (hq : q <+: path) (hne : q ≠ path) :
  t.axisAt q ≠ some dir.axis
  := by
  induction path generalizing t q with
  | nil => exact absurd (List.prefix_nil.mp hq) hne
  | cons step rest ih =>
    obtain ⟨axis, first, second, ratio, c, rfl, hchild, hrest⟩ := exists_split_of_cons hpath
    rw [divider_split hchild hrest, Option.or_eq_none_iff, Option.map_eq_none_iff] at h
    cases q with
    | nil =>
      intro haxis
      rw [if_pos (Option.some.inj haxis)] at h
      cases h.2
    | cons s q =>
      obtain ⟨rfl, hbelow'⟩ := List.cons_prefix_cons.mp hq
      rw [axisAt_cons hchild]
      apply ih hrest h.1 q hbelow'
      rintro rfl
      apply hne rfl

/-- The walk of a resize stops at the nearest split on the axis. -/
theorem nearest_of_divider (hleaf : t.IsLeafPath path id) (h : t.divider path dir = some d) :
  Nearest t path dir d
  := by
  induction path generalizing t d with
  | nil => cases h
  | cons step rest ih =>
    obtain ⟨axis, first, second, ratio, c, rfl, hchild, -, hbelow⟩ := hleaf.exists_split
    have hpath := hbelow.isSome_subtreeAt
    rw [divider_split hchild hpath, Option.or_eq_some_iff, Option.map_eq_none_iff] at h
    obtain h | ⟨hnone, h⟩ := h
    · obtain ⟨d', hd', rfl⟩ := Option.map_eq_some_iff.mp h
      have nearest := ih hbelow hd'
      constructor
      · exact List.cons_prefix_cons.mpr ⟨rfl, nearest.above⟩
      · rw [axisAt_cons hchild, nearest.onAxis]
      · intro q hq hlen
        cases q with
        | nil => cases hlen
        | cons s q =>
          obtain ⟨rfl, hbelow'⟩ := List.cons_prefix_cons.mp hq
          rw [axisAt_cons hchild]
          apply nearest.nearest q hbelow' (Nat.lt_of_succ_lt_succ hlen)
    · obtain ⟨haxis, hd⟩ := Option.ite_none_right_eq_some.mp h
      obtain rfl := Option.some.inj hd
      constructor
      · apply List.nil_prefix
      · exact congrArg some haxis
      · intro q hq hlen
        cases q with
        | nil => cases hlen
        | cons s q =>
          obtain ⟨rfl, hbelow'⟩ := List.cons_prefix_cons.mp hq
          rw [axisAt_cons hchild]
          by_cases hend : q = rest
          · rw [hend, axisAt, hbelow.2]
            nofun
          · apply divider_eq_none hpath hnone q hbelow' hend

/-- There is one nearest split. -/
theorem Nearest.unique {d' : TilePath} (h : Nearest t path dir d) (h' : Nearest t path dir d') :
  d = d'
  := by
  obtain hlt | heq | hlt := Nat.lt_trichotomy d.length d'.length
  · exact absurd h'.onAxis (h.nearest d' h'.above hlt)
  · exact (List.prefix_of_prefix_length_le h.above h'.above heq.le).eq_of_length heq
  · exact absurd h.onAxis (h'.nearest d h.above hlt)

/-- Where the nearest split has the tile on its far side, focus moves. -/
theorem neighbor_isSome (hleaf : t.IsLeafPath path id) (h : t.divider path dir = some d)
    (hbehind : d ++ [dir.behind] <+: path) :
  (t.neighbor path dir).isSome
  := by
  induction path generalizing t d with
  | nil => cases h
  | cons step rest ih =>
    obtain ⟨axis, first, second, ratio, c, rfl, hchild, hstep, hbelow⟩ := hleaf.exists_split
    have hpath := hbelow.isSome_subtreeAt
    rw [divider_split hchild hpath, Option.or_eq_some_iff] at h
    rw [neighbor_split hstep hchild hpath, Option.isSome_or]
    obtain h | ⟨-, h⟩ := h
    · obtain ⟨d', hd', rfl⟩ := Option.map_eq_some_iff.mp h
      rw [List.cons_append, List.cons_prefix_cons] at hbehind
      rw [Option.isSome_map, ih hbelow hd' hbehind.2, Bool.true_or]
    · obtain ⟨haxis, hd⟩ := Option.ite_none_right_eq_some.mp h
      obtain rfl := Option.some.inj hd
      have hside : step = dir.behind := (List.cons_prefix_cons.mp hbehind).1.symm
      rw [if_pos ⟨haxis, hside⟩, Option.isSome_some, Bool.or_true]

/-- A resize and focus stop at one split where the tile is on the far side of the resize's. -/
theorem divider_eq_lca_iff (hleaf : t.IsLeafPath path id) (h : t.neighbor path dir = some n) :
  ∃ d, t.divider path dir = some d ∧ (d = lca path n ↔ d ++ [dir.behind] <+: path)
  := by
  induction path generalizing t n with
  | nil => cases h
  | cons step rest ih =>
    obtain ⟨axis, first, second, ratio, c, rfl, hchild, hstep, hbelow⟩ := hleaf.exists_split
    have hpath := hbelow.isSome_subtreeAt
    rw [neighbor_split hstep hchild hpath, Option.or_eq_some_iff,
      Option.map_eq_none_iff] at h
    rw [divider_split hchild hpath]
    obtain h | ⟨hnone, h⟩ := h
    · -- Focus stays below the split, and so does the divider.
      obtain ⟨n', hn', rfl⟩ := Option.map_eq_some_iff.mp h
      obtain ⟨d', hd', hiff⟩ := ih hbelow hn'
      use step :: d'
      rw [hd', lca, if_pos rfl, List.cons_append, List.cons_prefix_cons,
        List.cons_inj_right, hiff]
      exact ⟨rfl, fun hbehind => ⟨rfl, hbehind⟩, And.right⟩
    · -- Focus crosses the split, so that it is the lowest one above both tiles.
      obtain ⟨⟨haxis, rfl⟩, hn⟩ := Option.ite_none_right_eq_some.mp h
      obtain ⟨below, id', hdescends, -⟩ := exists_descendToLeaf axis first second ratio dir
      rw [hdescends] at hn
      obtain rfl := Option.some.inj hn
      rw [lca, if_neg dir.ahead_ne_behind.symm, if_pos haxis]
      cases hd : c.divider rest dir with
      | none =>
        use [], rfl
        simp
      | some d' =>
        use dir.behind :: d', rfl
        constructor
        · nofun
        · intro hbehind
          have hmoves := neighbor_isSome hbelow hd (List.cons_prefix_cons.mp hbehind).2
          rw [hnone] at hmoves
          cases hmoves

/-! ### Divider and focus -/

theorem moveDivider_owner (t : TileTree) (signed : Int16)
    (h : (t.moveDivider n signed).2 = some d) :
  n = d
  := by
  rw [moveDivider] at h
  split at h
  · cases h
  · dsimp only at h
    split at h
    · exact Option.some.inj h
    · cases h

/-- A split has a step that moves its divider. -/
theorem exists_moves (t : TileTree) (dir : TileDirection) (h : t.axisAt d = some dir.axis) :
  ∃ s, (t.moveDivider d (dir.signed s)).2 = some d
  := by
  obtain ⟨r, hr⟩ : ∃ r, t.ratioAt d = some r := by
    rw [axisAt] at h
    rw [ratioAt]
    split at h
    · exact ⟨_, rfl⟩
    · cases h
  obtain ⟨target, htarget, hclamp⟩ : ∃ target : UInt8, r ≠ target
      ∧ clamp target.toUInt16.toInt16 tileRatioMin.toUInt16.toInt16 tileRatioMax.toUInt16.toInt16
        = target.toUInt16.toInt16 ∧ target.toUInt16.toInt16.toUInt16.toUInt8 = target
      ∧ clamp target tileRatioMin tileRatioMax = target := by
    by_cases hmin : r = tileRatioMin
    · use tileRatioMax
      subst hmin
      decide
    · exact ⟨tileRatioMin, hmin, by decide⟩
  have hsum : ∃ s, dir.signed s = target.toUInt16.toInt16 - r.toUInt16.toInt16 := by
    by_cases hfirst : dir.wantFirst
    · use -(target.toUInt16.toInt16 - r.toUInt16.toInt16)
      rw [TileDirection.signed, if_pos hfirst, Int16.neg_neg]
    · use target.toUInt16.toInt16 - r.toUInt16.toInt16
      rw [TileDirection.signed, if_neg hfirst]
  obtain ⟨s, hs⟩ := hsum
  use s
  have hnext : r.toUInt16.toInt16 + (target.toUInt16.toInt16 - r.toUInt16.toInt16)
      = target.toUInt16.toInt16 := by
    rw [Int16.add_comm, Int16.sub_add_cancel]
  have hset : t.setRatioAt d target = (t.withRatioAt d target, true) := by
    rw [setRatioAt, hr, hclamp.2.2]
    apply if_neg htarget
  rw [moveDivider, hr, hs]
  dsimp only
  rw [hnext, hclamp.1, hclamp.2.1, hset]
  rfl

/-- Where focus moves, a resize moves the divider between the two tiles if and only if the nearest
split on the axis of the arrow has the tile on its far side. -/
theorem resizes_divider_focus_crosses_iff (hleaf : t.IsLeafPath path id)
    (h : t.neighbor path dir = some n) :
  (∀ s, t.resizeToward path dir s = t.moveDivider (lca path n) (dir.signed s))
    ↔ ∃ d, Nearest t path dir d ∧ d ++ [dir.behind] <+: path
  := by
  obtain ⟨d, hd, hiff⟩ := divider_eq_lca_iff hleaf h
  have nearest := nearest_of_divider hleaf hd
  have hmoves : ∀ s, t.resizeToward path dir s = t.moveDivider d (dir.signed s) := by
    intro s
    rw [resizeToward_eq, hd, Option.elim_some]
  constructor
  · intro hall
    obtain ⟨s, hs⟩ := exists_moves t dir nearest.onAxis
    rw [← hmoves, hall] at hs
    exact ⟨d, nearest, hiff.mp (moveDivider_owner t _ hs).symm⟩
  · rintro ⟨d', nearest', hbehind⟩
    obtain rfl := nearest.unique nearest'
    rw [← hiff.mpr hbehind]
    apply hmoves

/-- The right tile of two has the split on its left, where focus goes. -/
theorem resizes_divider_focus_crosses_pair :
  (hSplit (leaf 1) (leaf 2) 50).neighbor [1] .left = some [0]
    ∧ ∀ s, (hSplit (leaf 1) (leaf 2) 50).resizeToward [1] .left s
      = (hSplit (leaf 1) (leaf 2) 50).moveDivider (lca [1] [0]) (TileDirection.left.signed s)
  := by
  use by decide
  have hleaf : (hSplit (leaf 1) (leaf 2) 50).IsLeafPath [1] 2 := ⟨by decide, rfl⟩
  apply (resizes_divider_focus_crosses_iff hleaf (by decide)).mpr
  use []
  constructor
  · constructor
    · decide
    · decide
    · intro q hq hlen
      obtain ⟨s, hs⟩ := hq
      match q, hlen with
      | [s'], _ =>
          obtain rfl := (List.cons_eq_cons.mp hs).1
          decide
      | s' :: s'' :: q, _ =>
          cases (List.cons_eq_cons.mp hs).2
  · decide

/-- Of three tiles side by side, the middle one has a split of its own to its right, which a
resize to the left moves; focus goes to the left tile, across the outer split. -/
theorem resize_left_moves_right_divider :
  ∃ (t : TileTree) (path n : TilePath) (s : Int16), t.IsLeafPath path 2
    ∧ t.neighbor path .left = some n
    ∧ t.resizeToward path .left s
      = (hSplit (leaf 1) (hSplit (leaf 2) (leaf 3) 45) 50, some [1])
    ∧ lca path n = []
    ∧ t.resizeToward path .left s
      ≠ t.moveDivider (lca path n) (TileDirection.left.signed s)
  := by
  use hSplit (leaf 1) (hSplit (leaf 2) (leaf 3) 50) 50, [1, 0], [0], 5, ⟨by decide, rfl⟩
  decide

end Divider

end TileTree

end Lazybox
