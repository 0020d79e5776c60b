import Lazybox.Core.TileTree

/-!
# Tile trees keep their terminals

What the operations on a tile tree do to its terminals: a tree built over a list of terminals has
them as its leaves, in order and at the least depth there can be; a search leads to the terminal;
a removal takes out the leaves below a path, and nothing else; and focus moves to another leaf.
-/

namespace Lazybox.TileTree

variable {t : TileTree} {path : TilePath} {id : UInt64}

/-! ### Building -/

theorem exists_balancedAt {ids : List UInt64} (h : ids ≠ []) (depth : ℕ) :
  ∃ t, balancedAt ids depth = some t ∧ t.leaves = ids ∧ t.depth ≤ Nat.clog 2 ids.length
  := by
  induction hlen : ids.length using Nat.strong_induction_on generalizing ids depth with
  | _ n ih =>
    subst hlen
    match ids, h with
    | [only], _ =>
      use leaf only
      rw [balancedAt]
      exact ⟨rfl, rfl, Nat.zero_le _⟩
    | id :: id' :: rest, _ =>
      generalize hids : id :: id' :: rest = ids at ih ⊢
      have hlen : 2 ≤ ids.length := by
        rw [← hids]
        simp
      have htake : (ids.take ((ids.length + 1) / 2)).length = (ids.length + 1) / 2 := by
        rw [List.length_take]
        omega
      have hdrop : (ids.drop ((ids.length + 1) / 2)).length
          = ids.length - (ids.length + 1) / 2 := List.length_drop
      obtain ⟨first, hfirst, hleaves, hdepth⟩ := ih _ (by omega)
        (List.ne_nil_of_length_pos (by omega)) (depth + 1) htake
      obtain ⟨second, hsecond, hleaves', hdepth'⟩ := ih _ (by omega)
        (List.ne_nil_of_length_pos (by omega)) (depth + 1) hdrop
      have hlog : Nat.clog 2 ids.length = Nat.clog 2 ((ids.length + 1) / 2) + 1 :=
        Nat.clog_of_two_le (by decide) hlen
      have hlog' : Nat.clog 2 (ids.length - (ids.length + 1) / 2)
          ≤ Nat.clog 2 ((ids.length + 1) / 2) := Nat.clog_mono_right 2 (by omega)
      use if depth % 2 = 0 then hSplit first second 50 else vSplit first second 50
      constructor
      · rw [← hids] at hfirst hsecond ⊢
        rw [balancedAt, hfirst, hsecond]
      · have hdown : max first.depth second.depth + 1 ≤ Nat.clog 2 ids.length := by omega
        have hall : first.leaves ++ second.leaves = ids := by
          rw [hleaves, hleaves', List.take_append_drop]
        split
        · exact ⟨hall, hdown⟩
        · exact ⟨hall, hdown⟩

/-! ### Searching -/

theorem findPath_eq (t : TileTree) (id : UInt64) (before : TilePath) :
  findPath id t before = (t.pathTo id).map (before ++ ·)
  := by
  rw [pathTo]
  induction t generalizing before with
  | leaf id' =>
    rw [findPath, findPath]
    split
    · rw [Option.map_some, List.append_nil]
    · rfl
  | split axis first second ratio ih ih' =>
    rw [findPath, findPath, ih, ih', ih ([] ++ [0]), ih' ([] ++ [1])]
    cases findPath id first [] with
    | some found => simp
    | none =>
      cases findPath id second [] with
      | some found => simp
      | none => rfl

theorem pathTo_split {axis : TileAxis} {first second : TileTree} {ratio : UInt8} :
  (split axis first second ratio).pathTo id
    = ((first.pathTo id).map (0 :: ·)).or ((second.pathTo id).map (1 :: ·))
  := by
  rw [pathTo, findPath, findPath_eq, findPath_eq]
  cases first.pathTo id with
  | some found => rfl
  | none => rfl

/-- A search leads to the terminal. -/
theorem isLeafPath_of_pathTo (h : t.pathTo id = some path) :
  t.IsLeafPath path id
  := by
  induction t generalizing path with
  | leaf id' =>
    rw [pathTo, findPath] at h
    split at h
    · next heq =>
        obtain rfl := Option.some.inj h
        rw [heq]
        exact ⟨by nofun, rfl⟩
    · cases h
  | split axis first second ratio ih ih' =>
    rw [pathTo_split, Option.or_eq_some_iff] at h
    obtain h | ⟨-, h⟩ := h
    · obtain ⟨found, hfound, rfl⟩ := Option.map_eq_some_iff.mp h
      apply (isLeafPath_cons (Or.inl rfl) rfl).mpr (ih hfound)
    · obtain ⟨found, hfound, rfl⟩ := Option.map_eq_some_iff.mp h
      apply (isLeafPath_cons (Or.inr rfl) rfl).mpr (ih' hfound)

theorem pathTo_eq_none_iff :
  t.pathTo id = none ↔ id ∉ t.leaves
  := by
  induction t with
  | leaf id' =>
    rw [pathTo, findPath, leaves, List.mem_singleton, ite_eq_right_iff]
    constructor
    · intro h heq
      cases h heq.symm
    · intro hne heq
      exact absurd heq.symm hne
  | split axis first second ratio ih ih' =>
    rw [pathTo_split, Option.or_eq_none_iff, Option.map_eq_none_iff, Option.map_eq_none_iff, ih,
      ih', leaves, List.mem_append, not_or]

/-! ### Removing -/

/-- What is found at a path. -/
inductive Node where
  | leaf (terminalId : UInt64)
  | split (axis : TileAxis) (ratio : UInt8)
deriving DecidableEq, Repr

def node : TileTree → Node
  | leaf terminalId => .leaf terminalId
  | split axis _ _ ratio => .split axis ratio

def nodeAt (t : TileTree) (path : TilePath) : Option Node := (t.subtreeAt path).map node

/-- The step the code makes to the child a step leads to. -/
def sideOf (step : UInt8) : UInt8 := if step = 0 then 0 else 1

def otherSide (step : UInt8) : UInt8 := if step = 0 then 1 else 0

/-- Where a node was, before the tile at the path was removed: below the split of the tile, it was
below the other child. -/
def formerPath (path : TilePath) (q : TilePath) : TilePath :=
  let above := path.dropLast.map sideOf
  if above <+: q then above ++ otherSide (path.getLastD 0) :: q.drop above.length else q

/-- The tile at a path is removed from a tree: its leaves are no longer there, every other node is,
and focus is on a node. -/
structure Removed (t : TileTree) (path : TilePath) (t' : TileTree) (focus : TilePath) : Prop where
  leaves : ∃ removed before after, t.subtreeAt path = some removed
    ∧ t.leaves = before ++ removed.leaves ++ after ∧ t'.leaves = before ++ after
  nodes : ∀ q, Stepped q → t'.nodeAt q = t.nodeAt (formerPath path q)
  focus_eq : focus = path.dropLast
  focused : (t'.subtreeAt focus).isSome

theorem formerPath_singleton (step : UInt8) (q : TilePath) :
  formerPath [step] q = otherSide step :: q
  := by
  simp [formerPath]

theorem formerPath_cons_cons (head step : UInt8) (rest q : TilePath) :
  formerPath (head :: step :: rest) q
    = match q with
      | [] => []
      | s :: q => if s = sideOf head then s :: formerPath (step :: rest) q else s :: q
  := by
  cases q with
  | nil => simp [formerPath]
  | cons s q =>
    simp only [formerPath, List.dropLast_cons_cons, List.map_cons, List.cons_prefix_cons,
      List.getLastD_cons, List.length_cons, List.drop_succ_cons]
    by_cases hside : s = sideOf head
    · rw [if_pos hside, hside]
      split
      · next habove => rw [if_pos habove.2]; rfl
      · next habove => rw [if_neg fun h => habove ⟨rfl, h⟩]
    · rw [if_neg hside, if_neg fun h => hside h.1.symm]

section Nodes

variable {axis : TileAxis} {first second first' second' : TileTree} {ratio : UInt8} {step : UInt8}

@[simp]
theorem nodeAt_split_nil :
  (split axis first second ratio).nodeAt [] = some (.split axis ratio)
  := rfl

/-- The other child of a split takes its place. -/
theorem removed_child (head : UInt8) :
  Removed (split axis first second ratio) [head] (if head = 0 then second else first) []
  := by
  by_cases hhead : head = 0
  · subst hhead
    constructor
    · exact ⟨first, [], second.leaves, rfl, rfl, rfl⟩
    · intro q _
      rw [formerPath_singleton]
      rfl
    · rfl
    · rfl
  · rw [if_neg hhead]
    constructor
    · use second, first.leaves, [], subtreeAt_split_of_ne hhead
      rw [List.append_nil, List.append_nil]
      exact ⟨rfl, rfl⟩
    · intro q _
      rw [formerPath_singleton, otherSide, if_neg hhead]
      rfl
    · rfl
    · rfl

variable {rest focus : TilePath}

theorem Removed.inFirst (removed : Removed first (step :: rest) first' focus) :
  Removed (split axis first second ratio) (0 :: step :: rest) (split axis first' second ratio)
    (0 :: focus)
  := by
  obtain ⟨⟨gone, before, after, hgone, hleaves, hleaves'⟩, hnodes, hfocus, hfocused⟩ := removed
  constructor
  · use gone, before, after ++ second.leaves, hgone
    rw [TileTree.leaves, TileTree.leaves, hleaves, hleaves']
    simp only [List.append_assoc, and_self]
  · intro q hq
    rw [formerPath_cons_cons]
    cases q with
    | nil => rfl
    | cons s q =>
      obtain ⟨rfl | rfl, hsteps⟩ := stepped_cons.mp hq
      · apply hnodes q hsteps
      · rfl
  · rw [hfocus]
    rfl
  · exact hfocused

theorem Removed.inSecond {head : UInt8} (hhead : head ≠ 0)
    (removed : Removed second (step :: rest) second' focus) :
  Removed (split axis first second ratio) (head :: step :: rest)
    (split axis first second' ratio) (head :: focus)
  := by
  obtain ⟨⟨gone, before, after, hgone, hleaves, hleaves'⟩, hnodes, hfocus, hfocused⟩ := removed
  constructor
  · use gone, first.leaves ++ before, after
    rw [subtreeAt_split_of_ne hhead, TileTree.leaves, TileTree.leaves, hleaves, hleaves']
    simp only [hgone, List.append_assoc, and_self]
  · intro q hq
    rw [formerPath_cons_cons, sideOf, if_neg hhead]
    cases q with
    | nil => rfl
    | cons s q =>
      obtain ⟨rfl | rfl, hsteps⟩ := stepped_cons.mp hq
      · rfl
      · apply hnodes q hsteps
  · rw [hfocus]
    rfl
  · rw [subtreeAt_split_of_ne hhead]
    apply hfocused

end Nodes

/-- A removal fails and changes nothing, at the root or where there is no tile, or takes out the
tile at the path. -/
theorem removeAt_cases (t : TileTree) (path : TilePath) :
  (∃ e, t.removeAt path = (t, .error e) ∧ (path = [] ∨ t.subtreeAt path = none))
    ∨ ∃ t' focus, t.removeAt path = (t', .ok focus) ∧ Removed t path t' focus
  := by
  induction t generalizing path with
  | leaf id =>
    cases path with
    | nil => exact Or.inl ⟨_, rfl, Or.inl rfl⟩
    | cons head rest =>
      left
      cases rest with
      | nil => exact ⟨_, rfl, Or.inr rfl⟩
      | cons step rest => exact ⟨_, rfl, Or.inr rfl⟩
  | split axis first second ratio ih ih' =>
    match path with
    | [] => exact Or.inl ⟨_, rfl, Or.inl rfl⟩
    | [head] =>
      right
      exact ⟨_, _, rfl, removed_child head⟩
    | head :: step :: rest =>
      by_cases hhead : head = 0
      · subst hhead
        rw [removeAt, if_pos rfl]
        obtain ⟨e, he, hnone⟩ | ⟨first', focus, hremoved, removed⟩ := ih (step :: rest)
        · left
          rw [he]
          exact ⟨e, rfl, Or.inr (hnone.resolve_left (List.cons_ne_nil _ _))⟩
        · right
          rw [hremoved]
          exact ⟨_, _, rfl, removed.inFirst⟩
      · rw [removeAt, if_neg hhead]
        obtain ⟨e, he, hnone⟩ | ⟨second', focus, hremoved, removed⟩ := ih' (step :: rest)
        · left
          rw [he, subtreeAt_split_of_ne hhead]
          exact ⟨e, rfl, Or.inr (hnone.resolve_left (List.cons_ne_nil _ _))⟩
        · right
          rw [hremoved]
          exact ⟨_, _, rfl, removed.inSecond hhead⟩

/-! ### Moving focus -/

section Neighbor

variable {c : TileTree} {step : UInt8} {rest : TilePath} {dir : TileDirection}

theorem isSome_subtreeAt_take (h : (t.subtreeAt path).isSome) (n : ℕ) :
  (t.subtreeAt (path.take n)).isSome
  := by
  rw [← List.take_append_drop n path, subtreeAt_append] at h
  apply Option.isSome_of_isSome_bind h

theorem descendToLeaf_cons (hchild : t.child step = some c) (path : TilePath) :
  t.descendToLeaf (step :: path) = step :: c.descendToLeaf path
  := by
  rw [descendToLeaf, descendToLeaf, subtreeAt_cons, hchild, Option.bind_some]
  cases c.subtreeAt path with
  | some node => rfl
  | none => rfl

theorem neighborFrom_succ (t : TileTree) (path : TilePath) (dir : TileDirection) (i : ℕ) :
  t.neighborFrom path dir (i + 1)
    = match t.subtreeAt (path.take i) with
      | none => none
      | some node =>
          if node.isHSplit ≠ dir.wantHorizontal then t.neighborFrom path dir i
          else if ¬decide (path.getD i 0 = 1) = dir.wantFirst then t.neighborFrom path dir i
          else some (t.descendToLeaf (path.take i ++ [if dir.wantFirst then 0 else 1]))
  := rfl

/-- The walk up from a tile of a child goes through the child first. -/
theorem neighborFrom_cons (hchild : t.child step = some c) (hrest : (c.subtreeAt rest).isSome)
    (i : ℕ) :
  t.neighborFrom (step :: rest) dir (i + 1)
    = ((c.neighborFrom rest dir i).map (step :: ·)).or (t.neighborFrom (step :: rest) dir 1)
  := by
  induction i with
  | zero => rfl
  | succ i ih =>
    obtain ⟨node, hnode⟩ := Option.isSome_iff_exists.mp (isSome_subtreeAt_take hrest i)
    have hsame : t.subtreeAt ((step :: rest).take (i + 1)) = some node := by
      rw [List.take_succ_cons, subtreeAt_cons, hchild, Option.bind_some, hnode]
    rw [neighborFrom_succ t _ _ (i + 1), neighborFrom_succ c, hsame, hnode, List.getD_cons_succ]
    dsimp only
    split
    · apply ih
    · split
      · apply ih
      · rw [List.take_succ_cons, List.cons_append, descendToLeaf_cons hchild]
        rfl

end Neighbor

end Lazybox.TileTree

namespace Lazybox.TileDirection

/-- The step to the child of a split that lies in a direction. -/
def ahead (dir : TileDirection) : UInt8 := if dir.wantFirst then 0 else 1

/-- The step to the child that lies away from it. -/
def behind (dir : TileDirection) : UInt8 := if dir.wantFirst then 1 else 0

theorem ahead_ne_behind (dir : TileDirection) :
  dir.ahead ≠ dir.behind
  := by
  cases dir <;> decide

end Lazybox.TileDirection

namespace Lazybox.TileTree

section Neighbor

variable {t c node : TileTree} {axis : TileAxis} {first second : TileTree} {ratio step : UInt8}
  {path rest n : TilePath} {dir : TileDirection} {id : UInt64}

theorem isHSplit_eq_iff :
  (split axis first second ratio).isHSplit = dir.wantHorizontal ↔ axis = dir.axis
  := by
  cases axis <;> cases dir <;> simp [isHSplit, TileDirection.wantHorizontal, TileDirection.axis]

theorem cameFromNear_iff (hstep : step = 0 ∨ step = 1) :
  decide (step = 1) = dir.wantFirst ↔ step = dir.behind
  := by
  obtain rfl | rfl := hstep
  · cases dir <;> decide
  · cases dir <;> decide

/-- Above a tile of a child of a split, the split itself is the last to be walked to. -/
theorem neighbor_split
    (hstep : step = 0 ∨ step = 1) (hchild : (split axis first second ratio).child step = some c)
    (hrest : (c.subtreeAt rest).isSome) :
  (split axis first second ratio).neighbor (step :: rest) dir
    = ((c.neighbor rest dir).map (step :: ·)).or
      (if axis = dir.axis ∧ step = dir.behind then
        some ((split axis first second ratio).descendToLeaf [dir.ahead])
      else none)
  := by
  rw [neighbor, List.length_cons, neighborFrom_cons hchild hrest, neighbor]
  congr 1
  rw [neighborFrom_succ, List.take_zero, subtreeAt_nil, List.getD_cons_zero]
  dsimp only
  by_cases haxis : axis = dir.axis
  · rw [if_neg (not_not.mpr (isHSplit_eq_iff.mpr haxis))]
    by_cases hbehind : step = dir.behind
    · rw [if_neg (not_not.mpr ((cameFromNear_iff hstep).mpr hbehind)),
        if_pos (show axis = dir.axis ∧ step = dir.behind from ⟨haxis, hbehind⟩)]
      rfl
    · rw [if_pos fun h => hbehind ((cameFromNear_iff hstep).mp h), if_neg fun h => hbehind h.2]
      rfl
  · rw [if_pos fun h => haxis (isHSplit_eq_iff.mp h), if_neg fun h => haxis h.1]
    rfl

/-- A walk down from a child of a split ends at a leaf below that child. -/
theorem exists_descendToLeaf (axis : TileAxis) (first second : TileTree) (ratio : UInt8)
    (dir : TileDirection) :
  ∃ below id, (split axis first second ratio).descendToLeaf [dir.ahead] = dir.ahead :: below
    ∧ (split axis first second ratio).IsLeafPath (dir.ahead :: below) id
  := by
  have hstep : dir.ahead = 0 ∨ dir.ahead = 1 := by
    cases dir <;> decide
  obtain ⟨c, hchild⟩ : ∃ c, (split axis first second ratio).child dir.ahead = some c := by
    rw [child]
    split <;> exact ⟨_, rfl⟩
  obtain ⟨id, hleaf⟩ := exists_subtreeAt_toFirstLeaf c
  use c.toFirstLeaf, id
  constructor
  · rw [descendToLeaf_cons hchild]
    rfl
  · apply (isLeafPath_cons hstep hchild).mpr
    exact ⟨stepped_toFirstLeaf c, hleaf⟩

/-- Focus moves to a leaf that is not below the node it was on. -/
theorem isLeafPath_of_neighbor (hsteps : Stepped path) (hpath : (t.subtreeAt path).isSome)
    (h : t.neighbor path dir = some n) :
  (∃ id, t.IsLeafPath n id) ∧ ¬path <+: n
  := by
  induction path generalizing t n with
  | nil => cases h
  | cons step rest ih =>
    obtain ⟨hstep, hsteps⟩ := stepped_cons.mp hsteps
    obtain ⟨axis, first, second, ratio, c, rfl, hchild, hrest⟩ := exists_split_of_cons hpath
    rw [neighbor_split hstep hchild hrest, Option.or_eq_some_iff] at h
    obtain h | ⟨-, h⟩ := h
    · obtain ⟨n', hn', rfl⟩ := Option.map_eq_some_iff.mp h
      obtain ⟨⟨id, hleaf⟩, hother⟩ := ih hsteps hrest hn'
      constructor
      · exact ⟨id, (isLeafPath_cons hstep hchild).mpr hleaf⟩
      · intro hbelow
        apply hother (List.cons_prefix_cons.mp hbelow).2
    · obtain ⟨⟨-, rfl⟩, hn⟩ := Option.ite_none_right_eq_some.mp h
      obtain ⟨below, id, hdescends, hleaf⟩ :=
        exists_descendToLeaf axis first second ratio dir
      rw [hdescends] at hn
      obtain rfl := Option.some.inj hn
      constructor
      · exact ⟨id, hleaf⟩
      · intro hbelow
        apply dir.ahead_ne_behind (List.cons_prefix_cons.mp hbelow).1.symm

end Neighbor

/-- The operations keep the terminals.  A tree that is built over terminals has them as its leaves,
in order, and is no deeper than need be.  In a tree of distinct terminals a search leads to the
terminal, along the only path to it, and fails for one that is not there.  A removal that fails
changes nothing, and any other takes out the tile at the path and leaves every other node as it
was, with focus on a node.  Focus moves from a leaf to another one. -/
theorem keeps_terminals :
  (∀ ids, ids ≠ [] → ∃ t, balanced ids = some t ∧ t.leaves = ids
      ∧ t.depth ≤ Nat.clog 2 ids.length)
    ∧ (∀ t : TileTree, t.leaves.Nodup → ∀ id,
      (id ∈ t.leaves → ∃ path, t.pathTo id = some path ∧ t.IsLeafPath path id
        ∧ ∀ q, t.IsLeafPath q id → q = path)
      ∧ (id ∉ t.leaves → t.pathTo id = none))
    ∧ (∀ (t : TileTree) (path : TilePath),
      (∃ e, t.removeAt path = (t, .error e) ∧ (path = [] ∨ t.subtreeAt path = none))
        ∨ ∃ t' focus, t.removeAt path = (t', .ok focus) ∧ Removed t path t' focus)
    ∧ ∀ (t : TileTree) (path n : TilePath) (dir : TileDirection) (id : UInt64),
      t.IsLeafPath path id → t.neighbor path dir = some n →
        (∃ id', t.IsLeafPath n id') ∧ n ≠ path
  := by
  refine ⟨?_, ?_, removeAt_cases, ?_⟩
  · intro ids h
    apply exists_balancedAt h
  · intro t distinct id
    constructor
    · intro hmem
      cases hfound : t.pathTo id with
      | none => exact absurd hmem (pathTo_eq_none_iff.mp hfound)
      | some path =>
          have hpath := isLeafPath_of_pathTo hfound
          exact ⟨path, rfl, hpath, fun q hq => isLeafPath_unique distinct hq hpath⟩
    · apply pathTo_eq_none_iff.mpr
  · intro t path n dir id hleaf h
    obtain ⟨hn, hother⟩ := isLeafPath_of_neighbor hleaf.1 (by rw [hleaf.2]; rfl) h
    constructor
    · apply hn
    · rintro rfl
      apply hother List.prefix_rfl

/-- Three terminals: one beside a stacked pair, of which the upper one is removed. -/
example :
    ∃ t, balanced [7, 8, 9] = some t ∧ t.pathTo 8 = some [0, 1]
      ∧ t.removeAt [0, 1] = (hSplit (leaf 7) (leaf 9) 50, .ok [0]) := by
  use hSplit (vSplit (leaf 7) (leaf 8) 50) (leaf 9) 50
  simp [balanced, balancedAt]
  decide

end Lazybox.TileTree
