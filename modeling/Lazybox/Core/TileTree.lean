import Mathlib.Data.Nat.Log
import Mathlib.Data.List.Nodup

/-!
# Tile trees

The terminals of a session are the leaves of a binary tree of splits, and a tile is named by the
path to it: `0` is the step to the first child of a split, and any other step leads to the second.
The paths the code makes have the steps `0` and `1` only.

A tree is built balanced over a list of terminals, searched for a terminal, and has a tile removed
from it, whose split collapses into the other child.  Focus moves from a tile to the one beyond the
nearest split that lies in the direction of the arrow.
-/

namespace Lazybox

inductive TileAxis where
  /-- The children stand side by side. -/
  | horizontal
  | vertical
deriving DecidableEq, Repr

inductive TileDirection where
  | left
  | right
  | up
  | down
deriving DecidableEq, Repr

inductive RemoveAtError where
  | cannotRemoveRoot
  | pathNotFound
deriving DecidableEq, Repr

/-- A tile tree.  Of a horizontal split the first child is on the left, of a vertical one it is on
top.  The ratio is the share of the first child, in percent. -/
inductive TileTree where
  | leaf (terminalId : UInt64)
  | split (axis : TileAxis) (first second : TileTree) (ratio : UInt8)
deriving DecidableEq, Repr

abbrev TilePath := List UInt8

namespace TileTree

@[match_pattern] abbrev hSplit (left right : TileTree) (ratio : UInt8) : TileTree :=
  .split .horizontal left right ratio

@[match_pattern] abbrev vSplit (top bottom : TileTree) (ratio : UInt8) : TileTree :=
  .split .vertical top bottom ratio

/-! ### Leaves and paths -/

def leaves : TileTree → List UInt64
  | leaf terminalId => [terminalId]
  | split _ first second _ => first.leaves ++ second.leaves

/-- The child a step leads to. -/
def child : TileTree → UInt8 → Option TileTree
  | leaf _, _ => none
  | split _ first second _, step => if step = 0 then some first else some second

def subtreeAt (t : TileTree) : TilePath → Option TileTree
  | [] => some t
  | step :: path => (t.child step).bind fun node => node.subtreeAt path

/-- The axis of the split at a path. -/
def axisAt (t : TileTree) (path : TilePath) : Option TileAxis :=
  match t.subtreeAt path with
  | some (split axis _ _ _) => some axis
  | _ => none

def ratioAt (t : TileTree) (path : TilePath) : Option UInt8 :=
  match t.subtreeAt path with
  | some (split _ _ _ ratio) => some ratio
  | _ => none

/-- Whether a node is an `HSplit`.  A leaf is not. -/
def isHSplit : TileTree → Bool
  | hSplit _ _ _ => true
  | _ => false

/-- The levels of splits above the deepest leaf. -/
def depth : TileTree → ℕ
  | leaf _ => 0
  | split _ first second _ => max first.depth second.depth + 1

/-! ### Building and searching -/

def balancedAt (ids : List UInt64) (depth : ℕ) : Option TileTree :=
  match ids with
  | [] => none
  | [only] => some (leaf only)
  | id :: id' :: rest =>
      let ids := id :: id' :: rest
      let mid := (ids.length + 1) / 2
      match balancedAt (ids.take mid) (depth + 1), balancedAt (ids.drop mid) (depth + 1) with
      | some first, some second =>
          some (if depth % 2 = 0 then hSplit first second 50 else vSplit first second 50)
      | _, _ => none
termination_by ids.length
decreasing_by
  · simp only [List.length_take, List.length_cons]
    omega
  · simp only [List.length_drop, List.length_cons]
    omega

/-- A balanced tree over the terminals, in order. -/
def balanced (ids : List UInt64) : Option TileTree := balancedAt ids 0

def findPath (terminalId : UInt64) : TileTree → TilePath → Option TilePath
  | leaf id, path => if id = terminalId then some path else none
  | split _ first second _, path =>
      match findPath terminalId first (path ++ [0]) with
      | some found => some found
      | none => findPath terminalId second (path ++ [1])

def pathTo (t : TileTree) (terminalId : UInt64) : Option TilePath := findPath terminalId t []

/-! ### Removing -/

/-- Remove the tile at a path, and collapse its split into the other child.  Focus moves to where
that child is now. -/
def removeAt : TileTree → TilePath → TileTree × Except RemoveAtError TilePath
  | t, [] => (t, .error .cannotRemoveRoot)
  | leaf id, _ :: _ => (leaf id, .error .pathNotFound)
  | split _ first second _, [head] => (if head = 0 then second else first, .ok [])
  | split axis first second ratio, head :: step :: rest =>
      if head = 0 then
        let (first', focus) := first.removeAt (step :: rest)
        (split axis first' second ratio, focus.map (head :: ·))
      else
        let (second', focus) := second.removeAt (step :: rest)
        (split axis first second' ratio, focus.map (head :: ·))

/-! ### Moving focus -/

/-- The path from a node to its first leaf. -/
def toFirstLeaf : TileTree → TilePath
  | leaf _ => []
  | split _ first _ _ => 0 :: first.toFirstLeaf

/-- From the node at a path, walk down to its first leaf. -/
def descendToLeaf (t : TileTree) (path : TilePath) : TilePath :=
  match t.subtreeAt path with
  | some node => path ++ node.toFirstLeaf
  | none => path

end TileTree

namespace TileDirection

def wantHorizontal (dir : TileDirection) : Bool := dir = left || dir = right

def wantFirst (dir : TileDirection) : Bool := dir = left || dir = up

/-- The axis of the splits a direction crosses. -/
def axis (dir : TileDirection) : TileAxis := if dir.wantHorizontal then .horizontal else .vertical

end TileDirection

namespace TileTree

/-- The walk of `neighbor` from the `i`th step of the path up. -/
def neighborFrom (t : TileTree) (path : TilePath) (dir : TileDirection) : ℕ → Option TilePath
  | 0 => none
  | i + 1 =>
      let step := path.getD i 0
      match t.subtreeAt (path.take i) with
      | none => none
      | some node =>
          if node.isHSplit ≠ dir.wantHorizontal then t.neighborFrom path dir i
          else
            let cameFromNear := decide (step = 1) = dir.wantFirst
            if ¬cameFromNear then t.neighborFrom path dir i
            else
              some (t.descendToLeaf (path.take i ++ [if dir.wantFirst then 0 else 1]))

/-- The leaf beyond the nearest split above a tile that lies in a direction. -/
def neighbor (t : TileTree) (path : TilePath) (dir : TileDirection) : Option TilePath :=
  t.neighborFrom path dir path.length

/-- The steps of a path are the ones the code makes. -/
def Stepped (path : TilePath) : Prop := ∀ step ∈ path, step = 0 ∨ step = 1

instance (path : TilePath) : Decidable (Stepped path) :=
  List.decidableBAll (fun step => step = 0 ∨ step = 1) path

/-- A path the code makes to a leaf. -/
def IsLeafPath (t : TileTree) (path : TilePath) (terminalId : UInt64) : Prop :=
  Stepped path ∧ t.subtreeAt path = some (leaf terminalId)

/-! ### Paths -/

section Paths

variable {t node : TileTree} {axis : TileAxis} {first second : TileTree} {ratio : UInt8}
  {path : TilePath} {step : UInt8} {id : UInt64}

@[simp]
theorem subtreeAt_nil (t : TileTree) : t.subtreeAt [] = some t := rfl

theorem subtreeAt_cons (t : TileTree) (step : UInt8) (path : TilePath) :
  t.subtreeAt (step :: path) = (t.child step).bind fun node => node.subtreeAt path
  := rfl

@[simp]
theorem subtreeAt_split_zero :
  (split axis first second ratio).subtreeAt (0 :: path) = first.subtreeAt path
  := rfl

theorem subtreeAt_split_of_ne (h : step ≠ 0) :
  (split axis first second ratio).subtreeAt (step :: path) = second.subtreeAt path
  := by
  rw [subtreeAt_cons, child, if_neg h, Option.bind_some]

@[simp]
theorem subtreeAt_split_one :
  (split axis first second ratio).subtreeAt (1 :: path) = second.subtreeAt path
  := subtreeAt_split_of_ne (by decide)

@[simp]
theorem subtreeAt_leaf_cons :
  (leaf id).subtreeAt (step :: path) = none
  := rfl

theorem subtreeAt_append (t : TileTree) (p q : TilePath) :
  t.subtreeAt (p ++ q) = (t.subtreeAt p).bind fun node => node.subtreeAt q
  := by
  induction p generalizing t with
  | nil => rfl
  | cons step p ih =>
    rw [List.cons_append, subtreeAt_cons, subtreeAt_cons]
    cases t.child step with
    | none => rfl
    | some node => apply ih

theorem stepped_cons :
  Stepped (step :: path) ↔ (step = 0 ∨ step = 1) ∧ Stepped path
  := List.forall_mem_cons

theorem stepped_toFirstLeaf (t : TileTree) :
  Stepped t.toFirstLeaf
  := by
  induction t with
  | leaf id => nofun
  | split axis first second ratio ih ih' => exact stepped_cons.mpr ⟨Or.inl rfl, ih⟩

/-- A walk down first children ends at a leaf. -/
theorem exists_subtreeAt_toFirstLeaf (t : TileTree) :
  ∃ id, t.subtreeAt t.toFirstLeaf = some (leaf id)
  := by
  induction t with
  | leaf id => exact ⟨id, rfl⟩
  | split axis first second ratio ih ih' => exact ih

theorem isLeafPath_cons (hstep : step = 0 ∨ step = 1) (hchild : t.child step = some node) :
  t.IsLeafPath (step :: path) id ↔ node.IsLeafPath path id
  := by
  rw [IsLeafPath, IsLeafPath, stepped_cons, subtreeAt_cons, hchild, Option.bind_some]
  constructor
  · rintro ⟨⟨-, hsteps⟩, hleaf⟩
    exact ⟨hsteps, hleaf⟩
  · rintro ⟨hsteps, hleaf⟩
    exact ⟨⟨hstep, hsteps⟩, hleaf⟩

/-- A path of a step or more leads into a child of a split. -/
theorem exists_split_of_cons (h : (t.subtreeAt (step :: path)).isSome) :
  ∃ axis first second ratio c, t = split axis first second ratio
    ∧ (split axis first second ratio).child step = some c ∧ (c.subtreeAt path).isSome
  := by
  rw [subtreeAt_cons] at h
  obtain ⟨c, hchild⟩ := Option.isSome_iff_exists.mp (Option.isSome_of_isSome_bind h)
  rw [hchild, Option.bind_some] at h
  cases t with
  | leaf id => cases hchild
  | split axis first second ratio => exact ⟨axis, first, second, ratio, c, rfl, hchild, h⟩

theorem IsLeafPath.isSome_subtreeAt (h : t.IsLeafPath path id) :
  (t.subtreeAt path).isSome
  := by
  rw [h.2, Option.isSome_some]

/-- The same for a path to a leaf, which is a path to a leaf of the child. -/
theorem IsLeafPath.exists_split (h : t.IsLeafPath (step :: path) id) :
  ∃ axis first second ratio c, t = split axis first second ratio
    ∧ (split axis first second ratio).child step = some c ∧ (step = 0 ∨ step = 1)
    ∧ c.IsLeafPath path id
  := by
  obtain ⟨axis, first, second, ratio, c, rfl, hchild, -⟩ := exists_split_of_cons h.isSome_subtreeAt
  have hstep := (stepped_cons.mp h.1).1
  exact ⟨axis, first, second, ratio, c, rfl, hchild, hstep, (isLeafPath_cons hstep hchild).mp h⟩

/-- The terminals of a tree are those its paths lead to. -/
theorem mem_leaves_iff :
  id ∈ t.leaves ↔ ∃ path, t.IsLeafPath path id
  := by
  induction t with
  | leaf id' =>
    rw [leaves, List.mem_singleton]
    constructor
    · rintro rfl
      exact ⟨[], by nofun, rfl⟩
    · rintro ⟨path, -, hleaf⟩
      cases path with
      | nil =>
        cases hleaf
        rfl
      | cons step path => cases hleaf
  | split axis first second ratio ih ih' =>
    rw [leaves, List.mem_append, ih, ih']
    constructor
    · rintro (⟨path, hpath⟩ | ⟨path, hpath⟩)
      · use 0 :: path
        apply (isLeafPath_cons (Or.inl rfl) rfl).mpr hpath
      · use 1 :: path
        apply (isLeafPath_cons (Or.inr rfl) rfl).mpr hpath
    · rintro ⟨path, hpath⟩
      cases path with
      | nil => cases hpath.2
      | cons step path =>
        obtain rfl | rfl := hpath.1 step List.mem_cons_self
        · exact Or.inl ⟨path, (isLeafPath_cons (Or.inl rfl) rfl).mp hpath⟩
        · exact Or.inr ⟨path, (isLeafPath_cons (Or.inr rfl) rfl).mp hpath⟩

/-- Distinct terminals have one path each. -/
theorem isLeafPath_unique (distinct : t.leaves.Nodup) {p q : TilePath} (hp : t.IsLeafPath p id)
    (hq : t.IsLeafPath q id) :
  p = q
  := by
  induction t generalizing p q with
  | leaf id' =>
    cases p with
    | cons step p => cases hp.2
    | nil =>
      cases q with
      | cons step q => cases hq.2
      | nil => rfl
  | split axis first second ratio ih ih' =>
    obtain ⟨hfirst, hsecond, hdisjoint⟩ := List.nodup_append.mp distinct
    have hside : ∀ {r : TilePath}, (split axis first second ratio).IsLeafPath r id →
        (∃ r', r = 0 :: r' ∧ first.IsLeafPath r' id)
          ∨ ∃ r', r = 1 :: r' ∧ second.IsLeafPath r' id := by
      intro r hr
      cases r with
      | nil => cases hr.2
      | cons step r =>
        obtain rfl | rfl := hr.1 step List.mem_cons_self
        · exact Or.inl ⟨r, rfl, (isLeafPath_cons (Or.inl rfl) rfl).mp hr⟩
        · exact Or.inr ⟨r, rfl, (isLeafPath_cons (Or.inr rfl) rfl).mp hr⟩
    obtain ⟨p', rfl, hp'⟩ | ⟨p', rfl, hp'⟩ := hside hp
    · obtain ⟨q', rfl, hq'⟩ | ⟨q', rfl, hq'⟩ := hside hq
      · rw [ih hfirst hp' hq']
      · exact absurd rfl (hdisjoint id (mem_leaves_iff.mpr ⟨p', hp'⟩) id
          (mem_leaves_iff.mpr ⟨q', hq'⟩))
    · obtain ⟨q', rfl, hq'⟩ | ⟨q', rfl, hq'⟩ := hside hq
      · exact absurd rfl (hdisjoint id (mem_leaves_iff.mpr ⟨q', hq'⟩) id
          (mem_leaves_iff.mpr ⟨p', hp'⟩))
      · rw [ih' hsecond hp' hq']

end Paths

end TileTree

end Lazybox
