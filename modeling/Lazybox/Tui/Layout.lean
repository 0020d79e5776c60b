import Lazybox.Core.TileDivider
import Lazybox.Library.Run

/-!
# The layout of a session

The terminals of a session are shown as tabs, or as tiles one of which has the focus.  Tiles are
split, closed, replaced and resized, focus moves, and a session goes from tabs to tiles and back.
In every layout that this leads to the focus is on a leaf; it stays with its terminal when another
one goes; and tiles that were put away as tabs come back as they were.
-/

namespace Lazybox.TileTree

/-- Put a tree in the place of the one at a path, which is returned. -/
def replaceAt : TileTree → TilePath → TileTree → TileTree × Option TileTree
  | t, [], new => (new, some t)
  | leaf id, _ :: _, _ => (leaf id, none)
  | split axis first second ratio, head :: rest, new =>
      if head = 0 then
        let (first', old) := first.replaceAt rest new
        (split axis first' second ratio, old)
      else
        let (second', old) := second.replaceAt rest new
        (split axis first second' ratio, old)

variable {t : TileTree} {path q : TilePath} {id : UInt64}

/-- A tile is replaced by a tree: its terminal goes, those of the tree come, and what the tree has
is below the path. -/
theorem exists_replaceAt (h : t.IsLeafPath path id) (new : TileTree) :
  (∃ before after, t.leaves = before ++ id :: after
      ∧ (t.replaceAt path new).1.leaves = before ++ new.leaves ++ after)
    ∧ ∀ q id', new.IsLeafPath q id' → (t.replaceAt path new).1.IsLeafPath (path ++ q) id'
  := by
  induction path generalizing t with
  | nil =>
    obtain rfl := Option.some.inj h.2
    rw [replaceAt]
    constructor
    · use [], []
      exact ⟨rfl, by simp⟩
    · exact fun q id' hq => hq
  | cons step rest ih =>
    obtain ⟨axis, first, second, ratio, c, rfl, hchild, hstep, hleaf⟩ := h.exists_split
    obtain ⟨⟨before, after, hleaves, hleaves'⟩, hpaths⟩ := ih hleaf
    obtain rfl | rfl := hstep
    · obtain rfl := Option.some.inj hchild
      constructor
      · use before, after ++ second.leaves
        simp [replaceAt, leaves, hleaves, hleaves']
      · intro q id' hq
        apply (isLeafPath_cons (.inl rfl) rfl).mpr (hpaths q id' hq)
    · obtain rfl := Option.some.inj hchild
      constructor
      · use first.leaves ++ before, after
        simp [replaceAt, leaves, hleaves, hleaves']
      · intro q id' hq
        apply (isLeafPath_cons (.inr rfl) rfl).mpr (hpaths q id' hq)

/-- Where one leaf is replaced by another, there are leaves at the same paths. -/
theorem isLeafPath_replaceAt_leaf (h : t.IsLeafPath path id) {other : UInt64}
    (hq : t.IsLeafPath q other) (new : UInt64) :
  ∃ id', (t.replaceAt path (leaf new)).1.IsLeafPath q id'
  := by
  induction path generalizing t q with
  | nil =>
    obtain rfl := Option.some.inj h.2
    cases q with
    | nil => exact ⟨new, hq.1, rfl⟩
    | cons step rest => cases hq.2
  | cons step rest ih =>
    obtain ⟨axis, first, second, ratio, c, rfl, hchild, hstep, hleaf⟩ := h.exists_split
    cases q with
    | nil => cases hq.2
    | cons step' rest' =>
      have hstep' := (stepped_cons.mp hq.1).1
      obtain rfl | rfl := hstep <;> obtain rfl := Option.some.inj hchild
      · obtain rfl | rfl := hstep'
        · obtain ⟨id', hid⟩ := ih hleaf ((isLeafPath_cons (.inl rfl) rfl).mp hq)
          exact ⟨id', (isLeafPath_cons (.inl rfl) rfl).mpr hid⟩
        · exact ⟨other, (isLeafPath_cons (.inr rfl) rfl).mpr
            ((isLeafPath_cons (.inr rfl) rfl).mp hq)⟩
      · obtain rfl | rfl := hstep'
        · exact ⟨other, (isLeafPath_cons (.inl rfl) rfl).mpr
            ((isLeafPath_cons (.inl rfl) rfl).mp hq)⟩
        · obtain ⟨id', hid⟩ := ih hleaf ((isLeafPath_cons (.inr rfl) rfl).mp hq)
          exact ⟨id', (isLeafPath_cons (.inr rfl) rfl).mpr hid⟩

/-- What a leaf was split into is taken out again. -/
theorem removeAt_replaceAt (h : t.IsLeafPath path id) (axis : TileAxis) (new : TileTree)
    (ratio : UInt8) :
  (t.replaceAt path (split axis (leaf id) new ratio)).1.removeAt (path ++ [1]) = (t, .ok path)
  := by
  induction path generalizing t with
  | nil =>
    obtain rfl := Option.some.inj h.2
    rfl
  | cons step rest ih =>
    obtain ⟨axis', first, second, ratio', c, rfl, hchild, hstep, hleaf⟩ := h.exists_split
    have hbelow := ih hleaf
    obtain ⟨step', rest', hrest⟩ := List.exists_cons_of_ne_nil (List.concat_ne_nil 1 rest)
    rw [hrest] at hbelow
    obtain rfl | rfl := hstep <;> obtain rfl := Option.some.inj hchild
    · simp [replaceAt, hrest, removeAt, hbelow, Except.map]
    · simp [replaceAt, hrest, removeAt, hbelow, Except.map]

theorem leaves_withRatioAt (t : TileTree) (path : TilePath) (ratio : UInt8) :
  (t.withRatioAt path ratio).leaves = t.leaves
  := by
  induction t generalizing path with
  | leaf id => rfl
  | split axis first second old ih ih' =>
    cases path with
    | nil => rfl
    | cons step rest =>
      rw [withRatioAt]
      split
      · rw [leaves, leaves, ih]
      · rw [leaves, leaves, ih']

theorem isLeafPath_withRatioAt (h : t.IsLeafPath q id) (path : TilePath) (ratio : UInt8) :
  (t.withRatioAt path ratio).IsLeafPath q id
  := by
  induction q generalizing t path with
  | nil =>
    obtain rfl := Option.some.inj h.2
    exact h
  | cons step rest ih =>
    obtain ⟨axis, first, second, old, c, rfl, hchild, hstep, hleaf⟩ := h.exists_split
    cases path with
    | nil => exact h
    | cons step' path =>
      rw [withRatioAt]
      obtain rfl | rfl := hstep <;> obtain rfl := Option.some.inj hchild <;> split
      · exact (isLeafPath_cons (.inl rfl) rfl).mpr (ih hleaf path)
      · exact (isLeafPath_cons (.inl rfl) rfl).mpr hleaf
      · exact (isLeafPath_cons (.inr rfl) rfl).mpr hleaf
      · exact (isLeafPath_cons (.inr rfl) rfl).mpr (ih hleaf path)

/-- A resize changes a ratio, if anything. -/
theorem resizeToward_cases (t : TileTree) (path : TilePath) (dir : TileDirection) (s : Int16) :
  (t.resizeToward path dir s).1 = t
    ∨ ∃ owner ratio, (t.resizeToward path dir s).1 = t.withRatioAt owner ratio
  := by
  rw [resizeToward]
  induction path.length with
  | zero => exact .inl rfl
  | succ i ih =>
    rw [resizeFrom]
    split
    · exact .inl rfl
    · split
      · exact ih
      · rw [moveDivider]
        split
        · exact .inl rfl
        · dsimp only [setRatioAt]
          split
          · split
            · exact .inl rfl
            · exact .inr ⟨_, _, rfl⟩
          · exact .inl rfl

end Lazybox.TileTree

namespace Lazybox.Layout

open TileTree (Stepped IsLeafPath exists_replaceAt isLeafPath_of_pathTo)

/-! ### The operations -/

inductive PendingSplit where
  | vertical
  | horizontal

def PendingSplit.axis : PendingSplit → TileAxis
  | vertical => .horizontal
  | horizontal => .vertical

inductive SessionLayout where
  | tabs (active : ℕ)
  | splits (tree : TileTree) (focused : TilePath)

structure TerminalStack where
  layout : SessionLayout
  activeTabIdx : ℕ
  /-- The tiles that were put away as tabs. -/
  stashedSplitsTree : Option TileTree

def leafAt (tree : TileTree) (path : TilePath) : Option UInt64 :=
  match tree.subtreeAt path with
  | some (.leaf id) => some id
  | _ => none

/-- The path to the first leaf. -/
def firstLeaf (tree : TileTree) : Option TilePath := tree.leaves.head?.bind tree.pathTo

def position (visible : List UInt64) (id : UInt64) : Option ℕ := visible.findIdx? (· = id)

def sameTerminalSet (a b : List UInt64) : Bool :=
  a.length = b.length && a.mergeSort = b.mergeSort

/-- Focus that is on no leaf goes to the first one. -/
def settledFocus (tree : TileTree) (focused : TilePath) : TilePath :=
  if (leafAt tree focused).isSome then focused else (firstLeaf tree).getD focused

/-- The layout after a tile was taken out: tabs, if there is one tile left. -/
def settled (tree : TileTree) (focused : TilePath) : SessionLayout :=
  match tree with
  | .leaf _ => .tabs 0
  | .split .. => .splits tree (settledFocus tree focused)

def SessionLayout.prune (id : UInt64) : SessionLayout → SessionLayout
  | .tabs active => .tabs active
  | .splits tree focused =>
      match (tree.pathTo id).map tree.removeAt with
      | some (tree', .ok newFocus) => settled tree' newFocus
      | some (_, .error _) => .tabs 0
      | none => settled tree focused

def SessionLayout.replace (old new : UInt64) (oldFocus : Bool) : SessionLayout → SessionLayout
  | .tabs active => .tabs active
  | .splits tree focused =>
      match tree.pathTo old with
      | none => .splits tree focused
      | some path =>
          .splits (tree.replaceAt path (.leaf new)).1 (if oldFocus then path else focused)

namespace TerminalStack

/-- A session that was not arranged yet. -/
def new : TerminalStack := ⟨.tabs 0, 0, none⟩

variable (s : TerminalStack) (visible : List UInt64)

def focusedTerminalId : Option UInt64 :=
  match s.layout with
  | .tabs _ => visible[s.activeTabIdx]?
  | .splits tree focused => (leafAt tree focused).or tree.leaves.head?

def setTerminalFocus (target : UInt64) : TerminalStack :=
  match position visible target with
  | none => s
  | some idx =>
      match s.layout with
      | .tabs _ => { s with layout := .tabs idx, activeTabIdx := idx }
      | .splits tree _ =>
          match tree.pathTo target with
          | none => s
          | some path => { s with layout := .splits tree path, activeTabIdx := idx }

/-- A terminal that was spawned for a split comes to stand beside the one in focus. -/
def commitPendingSplit (newId : UInt64) (direction : PendingSplit) : TerminalStack :=
  let tiles :=
    match s.layout with
    | .splits tree focused => some (tree, focused)
    | .tabs _ => (visible[s.activeTabIdx]?).map fun id => (.leaf id, [])
  match tiles with
  | none => s
  | some (tree, focused) =>
      match tree.subtreeAt focused with
      | none => s
      | some existing =>
          let newSplit := .split direction.axis existing (.leaf newId) 50
          { s with layout := .splits (tree.replaceAt focused newSplit).1 (focused ++ [1]) }

/-- A terminal comes, which is one of those that are visible.  It is put beside the one in focus if
it was started for that, or if there are others and it is to be so. -/
def terminalSpawned (newId : UInt64) (pending : Option PendingSplit) (autoSplit : Bool) :
    TerminalStack :=
  match pending with
  | some direction => s.commitPendingSplit visible newId direction
  | none =>
      if 2 ≤ visible.length ∧ autoSplit then s.commitPendingSplit visible newId .vertical
      else { s with activeTabIdx := (position visible newId).getD s.activeTabIdx }

def clampActiveTab : TerminalStack :=
  { s with activeTabIdx := min s.activeTabIdx (visible.length - 1) }

/-- A terminal goes.  Another one that had the focus keeps it. -/
def dropSlot (id : UInt64) : TerminalStack :=
  let keepFocus := (s.focusedTerminalId visible).filter (· ≠ id)
  let shown := visible.filter (· ≠ id)
  let s := { s with layout := s.layout.prune id }.clampActiveTab shown
  match keepFocus with
  | none => s
  | some kept =>
      match position shown kept with
      | none => s
      | some index =>
          { s with
            activeTabIdx := index
            layout :=
              match s.layout with
              | .tabs _ => .tabs index
              | .splits tree focused => .splits tree ((tree.pathTo kept).getD focused) }

/-- The terminal of the active tab goes at once if it is `inert`; any other one goes when it has
exited. -/
def closeFocusedTile (inert : Bool) : TerminalStack :=
  match s.layout with
  | .tabs _ =>
      match visible[s.activeTabIdx]? with
      | some id => if inert then s.dropSlot visible id else s
      | none => s
  | .splits tree focused =>
      let focused := settledFocus tree focused
      match tree.removeAt focused with
      | (tree', .error _) => { s with layout := .splits tree' focused }
      | (tree', .ok _) =>
          if tree'.leaves.length ≤ 1 then { s with layout := .tabs 0, activeTabIdx := 0 }
          else { s with layout := .splits tree' ((firstLeaf tree').getD []) }

/-- A terminal that was started again takes the tile of the old one, and the focus if the old one
had it or is of the session that is shown.  The terminals in `shown` are visible then. -/
def replaceTerminal (old new : UInt64) (here : Bool) (shown : List UInt64) : TerminalStack :=
  let oldFocus := s.focusedTerminalId visible = some old
  let s := { s with layout := s.layout.replace old new oldFocus }.clampActiveTab shown
  if oldFocus ∨ here then s.setTerminalFocus shown new else s

def moveTileFocus (dir : TileDirection) : TerminalStack :=
  match s.layout with
  | .tabs active =>
      let n := visible.length
      let active :=
        match dir with
        | .left => if active = 0 then n - 1 else active - 1
        | .right => (active + 1) % n
        | _ => active
      if n = 0 then s else { s with layout := .tabs active, activeTabIdx := active }
  | .splits tree focused =>
      { s with layout := .splits tree ((tree.neighbor focused dir).getD focused) }

def resizeFocusedDivider (dir : TileDirection) (step : Int16) : TerminalStack :=
  match s.layout with
  | .tabs _ => s
  | .splits tree focused =>
      { s with layout := .splits (tree.resizeToward focused dir step).1 focused }

/-- From tiles to tabs in their order, or from tabs to the tiles that were put away if those are of
the same terminals, and to balanced ones else. -/
def toggled (focused : Option UInt64) : TerminalStack :=
  match s.layout with
  | .splits tree _ =>
      { s with
        layout := .tabs ((focused.bind (position tree.leaves)).getD 0)
        stashedSplitsTree := some tree }
  | .tabs _ =>
      let s' := { s with stashedSplitsTree := none }
      match (s.stashedSplitsTree.filter fun t => sameTerminalSet t.leaves visible).or
        (TileTree.balanced visible) with
      | none => s'
      | some tree => { s' with layout := .splits tree ((focused.bind tree.pathTo).getD []) }

def toggleSessionLayout : TerminalStack :=
  if visible = [] then s
  else
    match s.focusedTerminalId visible with
    | some id => (s.toggled visible (some id)).setTerminalFocus visible id
    | none => s.toggled visible none

end TerminalStack

inductive Op where
  | terminalSpawned (newId : UInt64) (pending : Option PendingSplit) (autoSplit : Bool)
  | dropSlot (id : UInt64)
  | closeFocusedTile (inert : Bool)
  | replaceTerminal (old new : UInt64) (here : Bool) (shown : List UInt64)
  | moveTileFocus (dir : TileDirection)
  | focusTile (target : UInt64)
  | resizeFocusedDivider (dir : TileDirection) (step : Int16)
  | toggleSessionLayout

/-- An operation, with the terminals that are visible at it. -/
structure Act where
  op : Op
  visible : List UInt64

def step (s : TerminalStack) (a : Act) : TerminalStack :=
  match a.op with
  | .terminalSpawned newId pending autoSplit =>
      s.terminalSpawned a.visible newId pending autoSplit
  | .dropSlot id => s.dropSlot a.visible id
  | .closeFocusedTile inert => s.closeFocusedTile a.visible inert
  | .replaceTerminal old new here shown => s.replaceTerminal a.visible old new here shown
  | .moveTileFocus dir => s.moveTileFocus a.visible dir
  | .focusTile target => s.setTerminalFocus a.visible target
  | .resizeFocusedDivider dir step => s.resizeFocusedDivider dir step
  | .toggleSessionLayout => s.toggleSessionLayout a.visible

def machine : Machine TerminalStack Act Empty := ⟨fun s a => (step s a, [])⟩

/-! ### The focus is on a leaf -/

/-- The focus is on a leaf, and no terminal has two tiles. -/
def Focused : SessionLayout → Prop
  | .tabs _ => True
  | .splits tree focused => tree.leaves.Nodup ∧ ∃ id, tree.IsLeafPath focused id

structure Sound (s : TerminalStack) : Prop where
  focused : Focused s.layout
  stashed : ∀ tree ∈ s.stashedSplitsTree, tree.leaves.Nodup

/-- The terminals that have a tile, or would have one as tiles. -/
def TerminalStack.tiles (s : TerminalStack) (visible : List UInt64) : List UInt64 :=
  match s.layout with
  | .tabs _ => (visible[s.activeTabIdx]?).toList
  | .splits tree _ => tree.leaves

/-- A terminal that comes has no tile yet, and there is an active tab where there are tabs. -/
def Admissible (s : TerminalStack) (a : Act) : Prop :=
  match a.op with
  | .terminalSpawned newId .. | .replaceTerminal _ newId .. => newId ∉ s.tiles a.visible
  | .toggleSessionLayout =>
      a.visible.Nodup ∧ (a.visible ≠ [] → (s.focusedTerminalId a.visible).isSome)
  | _ => True

/-- An agent is listed before a shell, and where it comes to be at the active tab it is taken for
the terminal in focus. -/
example : ((⟨.tabs 1, 1, none⟩ : TerminalStack).terminalSpawned [1, 3, 2] 3 none true).layout
    = .splits (.split .horizontal (.leaf 3) (.leaf 3) 50) [1] := rfl

variable {s : TerminalStack} {visible : List UInt64} {tree : TileTree} {focused path : TilePath}
  {id : UInt64}

theorem leafAt_eq_some : leafAt tree path = some id ↔ tree.subtreeAt path = some (.leaf id)
  := by
  rw [leafAt]
  split
  · next h => simp [h]
  · next h => exact ⟨nofun, fun h' => absurd h' (h id)⟩

theorem exists_pathTo (h : id ∈ tree.leaves) :
  ∃ path, tree.pathTo id = some path ∧ tree.IsLeafPath path id
  := by
  cases hpath : tree.pathTo id with
  | none => exact absurd h (TileTree.pathTo_eq_none_iff.mp hpath)
  | some path => exact ⟨path, rfl, isLeafPath_of_pathTo hpath⟩

theorem leaves_ne_nil (tree : TileTree) :
  tree.leaves ≠ []
  := by
  induction tree with
  | leaf id => exact List.cons_ne_nil _ _
  | split axis first second ratio ih ih' => exact List.append_ne_nil_of_left_ne_nil ih _

theorem isLeafPath_firstLeaf (tree : TileTree) (other : TilePath) :
  ∃ id, tree.IsLeafPath ((firstLeaf tree).getD other) id
  := by
  obtain ⟨id, rest, hleaves⟩ := List.exists_cons_of_ne_nil (leaves_ne_nil tree)
  have hmem : id ∈ tree.leaves := by
    rw [hleaves]
    apply List.mem_cons_self
  obtain ⟨path, hpath, hleaf⟩ := exists_pathTo hmem
  use id
  rw [firstLeaf, hleaves, List.head?_cons, Option.bind_some, hpath]
  exact hleaf

theorem isLeafPath_settledFocus (tree : TileTree) (h : Stepped focused) :
  ∃ id, tree.IsLeafPath (settledFocus tree focused) id
  := by
  rw [settledFocus]
  split
  · next hleaf =>
    obtain ⟨id, hid⟩ := Option.isSome_iff_exists.mp hleaf
    exact ⟨id, h, leafAt_eq_some.mp hid⟩
  · apply isLeafPath_firstLeaf

theorem focused_settled (distinct : tree.leaves.Nodup) (h : Stepped focused) :
  Focused (settled tree focused)
  := by
  cases tree with
  | leaf id => trivial
  | split axis first second ratio => exact ⟨distinct, isLeafPath_settledFocus _ h⟩

/-- A tile that is taken out leaves a tree of the others, and focus that the code can walk to. -/
theorem of_removeAt {tree' : TileTree} {newFocus : TilePath}
    (h : tree.removeAt path = (tree', .ok newFocus)) (hleaf : tree.IsLeafPath path id) :
  (∃ before after, tree.leaves = before ++ id :: after ∧ tree'.leaves = before ++ after)
    ∧ Stepped newFocus
  := by
  obtain ⟨e, herror, -⟩ | ⟨t', focus, hok, removed⟩ := tree.removeAt_cases path
  · rw [h] at herror
    cases herror
  · rw [h] at hok
    cases hok
    obtain ⟨tile, before, after, htile, hleaves, hleaves'⟩ := removed.leaves
    rw [hleaf.2] at htile
    obtain rfl := Option.some.inj htile
    constructor
    · use before, after
      exact ⟨by rw [hleaves, List.append_assoc]; rfl, hleaves'⟩
    · rw [removed.focus_eq]
      exact fun step hstep => hleaf.1 step (path.dropLast_subset hstep)

theorem nodup_of_cons {before after : List UInt64} (h : (before ++ id :: after).Nodup) :
  (before ++ after).Nodup
  := h.sublist ((List.sublist_cons_self id after).append_left before)

theorem focused_prune {layout : SessionLayout} (h : Focused layout) (id : UInt64) :
  Focused (layout.prune id)
  := by
  cases layout with
  | tabs active => trivial
  | splits tree focused =>
    obtain ⟨distinct, f, hf⟩ := h
    rw [SessionLayout.prune]
    cases hpath : tree.pathTo id with
    | none => exact focused_settled distinct hf.1
    | some path =>
      rw [Option.map_some]
      rcases hremoved : tree.removeAt path with ⟨tree', e | newFocus⟩
      · trivial
      · obtain ⟨⟨before, after, hleaves, hleaves'⟩, hsteps⟩ :=
          of_removeAt hremoved (isLeafPath_of_pathTo hpath)
        apply focused_settled _ hsteps
        rw [hleaves']
        exact nodup_of_cons (hleaves ▸ distinct)

theorem focused_replace (h : Focused (.splits tree focused)) {new : UInt64}
    (fresh : new ∉ tree.leaves) (old : UInt64) (oldFocus : Bool) :
  Focused (SessionLayout.replace old new oldFocus (.splits tree focused))
  := by
  obtain ⟨distinct, f, hf⟩ := h
  rw [SessionLayout.replace]
  cases hpath : tree.pathTo old with
  | none => exact ⟨distinct, f, hf⟩
  | some path =>
    have hold := isLeafPath_of_pathTo hpath
    obtain ⟨⟨before, after, hleaves, hleaves'⟩, -⟩ := exists_replaceAt hold (.leaf new)
    constructor
    · have hperm : (before ++ [new] ++ after).Perm (new :: (before ++ after)) := by
        grind
      have hmem : new ∉ before ++ after := by
        intro hmem
        apply fresh
        rw [hleaves]
        grind
      rw [hleaves']
      exact hperm.nodup_iff.mpr (List.nodup_cons.mpr ⟨hmem, nodup_of_cons (hleaves ▸ distinct)⟩)
    · split
      · exact TileTree.isLeafPath_replaceAt_leaf hold hold new
      · exact TileTree.isLeafPath_replaceAt_leaf hold hf new

namespace Sound

theorem of_splits (h : Sound s) (hlayout : s.layout = .splits tree focused) :
  Focused (.splits tree focused)
  := hlayout ▸ h.focused

theorem setTerminalFocus (h : Sound s) (visible : List UInt64) (target : UInt64) :
  Sound (s.setTerminalFocus visible target)
  := by
  rw [TerminalStack.setTerminalFocus]
  split
  · exact h
  · split
    · exact ⟨trivial, h.stashed⟩
    · next tree focused hlayout =>
      split
      · exact h
      · next path hpath =>
        have distinct := (h.of_splits hlayout).1
        exact ⟨⟨distinct, target, isLeafPath_of_pathTo hpath⟩, h.stashed⟩

theorem commitPendingSplit (h : Sound s) {newId : UInt64} (fresh : newId ∉ s.tiles visible)
    (direction : PendingSplit) :
  Sound (s.commitPendingSplit visible newId direction)
  := by
  -- the tiles that are split, which those of the stack are
  have hsplit {tree : TileTree} {focused : TilePath} {id : UInt64} (distinct : tree.leaves.Nodup)
      (hnew : newId ∉ tree.leaves) (hleaf : tree.IsLeafPath focused id) :
      Focused (.splits (tree.replaceAt focused
        (.split direction.axis (.leaf id) (.leaf newId) 50)).1 (focused ++ [1])) := by
    obtain ⟨⟨before, after, hleaves, hleaves'⟩, hpaths⟩ := exists_replaceAt hleaf
      (.split direction.axis (.leaf id) (.leaf newId) 50)
    constructor
    · have hperm : (before ++ [id, newId] ++ after).Perm (newId :: tree.leaves) := by
        rw [hleaves]
        grind
      rw [hleaves']
      exact hperm.nodup_iff.mpr (List.nodup_cons.mpr ⟨hnew, distinct⟩)
    · exact ⟨newId, hpaths [1] newId ⟨by decide, rfl⟩⟩
  rw [TerminalStack.tiles] at fresh
  rw [TerminalStack.commitPendingSplit]
  cases hlayout : s.layout with
  | tabs active =>
    rw [hlayout] at fresh
    cases hid : visible[s.activeTabIdx]? with
    | none => exact h
    | some id =>
      rw [hid] at fresh
      exact ⟨hsplit (List.nodup_singleton id) fresh ⟨by decide, rfl⟩, h.stashed⟩
  | splits tree focused =>
    rw [hlayout] at fresh
    obtain ⟨distinct, id, hleaf⟩ := h.of_splits hlayout
    dsimp only
    rw [hleaf.2]
    exact ⟨hsplit distinct fresh hleaf, h.stashed⟩

theorem dropSlot (h : Sound s) (visible : List UInt64) (id : UInt64) :
  Sound (s.dropSlot visible id)
  := by
  have hpruned : Focused ({ s with layout := s.layout.prune id }.clampActiveTab
      (visible.filter (· ≠ id))).layout := focused_prune h.focused id
  rw [TerminalStack.dropSlot]
  split
  · exact ⟨hpruned, h.stashed⟩
  · next kept _ =>
    split
    · exact ⟨hpruned, h.stashed⟩
    · refine ⟨?_, h.stashed⟩
      split
      · trivial
      · next tree focused hlayout =>
        rw [hlayout] at hpruned
        use hpruned.1
        cases hpath : tree.pathTo kept with
        | none => exact hpruned.2
        | some path => exact ⟨kept, isLeafPath_of_pathTo hpath⟩

theorem closeFocusedTile (h : Sound s) (visible : List UInt64) (inert : Bool) :
  Sound (s.closeFocusedTile visible inert)
  := by
  rw [TerminalStack.closeFocusedTile]
  split
  · split
    · split
      · apply h.dropSlot
      · exact h
    · exact h
  · next tree focused hlayout =>
    obtain ⟨distinct, f, hf⟩ := h.of_splits hlayout
    obtain ⟨id, hleaf⟩ := isLeafPath_settledFocus tree hf.1
    dsimp only
    split
    · next tree' e hremoved =>
      obtain ⟨_, herror, -⟩ | ⟨_, _, hok, -⟩ := tree.removeAt_cases (settledFocus tree focused)
      · obtain ⟨rfl, -⟩ := Prod.mk.inj (hremoved.symm.trans herror)
        exact ⟨⟨distinct, id, hleaf⟩, h.stashed⟩
      · cases hremoved.symm.trans hok
    · next tree' newFocus hremoved =>
      obtain ⟨⟨before, after, hleaves, hleaves'⟩, -⟩ := of_removeAt hremoved hleaf
      split
      · exact ⟨trivial, h.stashed⟩
      · refine ⟨⟨?_, isLeafPath_firstLeaf tree' []⟩, h.stashed⟩
        rw [hleaves']
        exact nodup_of_cons (hleaves ▸ distinct)

theorem terminalSpawned (h : Sound s) {newId : UInt64} (fresh : newId ∉ s.tiles visible)
    (pending : Option PendingSplit) (autoSplit : Bool) :
  Sound (s.terminalSpawned visible newId pending autoSplit)
  := by
  cases pending with
  | some direction => exact h.commitPendingSplit fresh direction
  | none =>
    dsimp only [TerminalStack.terminalSpawned]
    split
    · apply h.commitPendingSplit fresh
    · exact ⟨h.focused, h.stashed⟩

theorem replaceTerminal (h : Sound s) (old : UInt64) {new : UInt64}
    (fresh : new ∉ s.tiles visible) (here : Bool) (shown : List UInt64) :
  Sound (s.replaceTerminal visible old new here shown)
  := by
  have hreplaced (oldFocus : Bool) : Focused (s.layout.replace old new oldFocus) := by
    rw [TerminalStack.tiles] at fresh
    cases hlayout : s.layout with
    | tabs active => trivial
    | splits tree focused =>
      rw [hlayout] at fresh
      exact focused_replace (h.of_splits hlayout) fresh old oldFocus
  have hclamped (oldFocus : Bool) : Sound ({ s with
      layout := s.layout.replace old new oldFocus }.clampActiveTab shown) :=
    ⟨hreplaced oldFocus, h.stashed⟩
  rw [TerminalStack.replaceTerminal]
  split
  · apply (hclamped _).setTerminalFocus
  · apply hclamped

theorem moveTileFocus (h : Sound s) (visible : List UInt64) (dir : TileDirection) :
  Sound (s.moveTileFocus visible dir)
  := by
  rw [TerminalStack.moveTileFocus]
  split
  · dsimp only
    split
    · exact h
    · exact ⟨trivial, h.stashed⟩
  · next tree focused hlayout =>
    obtain ⟨distinct, id, hleaf⟩ := h.of_splits hlayout
    refine ⟨⟨distinct, ?_⟩, h.stashed⟩
    cases hnext : tree.neighbor focused dir with
    | none => exact ⟨id, hleaf⟩
    | some path =>
      exact (TileTree.isLeafPath_of_neighbor hleaf.1 hleaf.isSome_subtreeAt hnext).1

theorem resizeFocusedDivider (h : Sound s) (dir : TileDirection) (step : Int16) :
  Sound (s.resizeFocusedDivider dir step)
  := by
  rw [TerminalStack.resizeFocusedDivider]
  split
  · exact h
  · next tree focused hlayout =>
    obtain ⟨distinct, id, hleaf⟩ := h.of_splits hlayout
    refine ⟨?_, h.stashed⟩
    obtain hsame | ⟨owner, ratio, hmoved⟩ := tree.resizeToward_cases focused dir step
    · rw [hsame]
      exact ⟨distinct, id, hleaf⟩
    · rw [hmoved]
      exact ⟨by rwa [TileTree.leaves_withRatioAt], id,
        TileTree.isLeafPath_withRatioAt hleaf owner ratio⟩

end Sound

/-! ### Tabs and tiles -/

theorem exists_position (h : id ∈ visible) :
  ∃ i, position visible id = some i ∧ visible[i]? = some id
  := by
  cases hi : position visible id with
  | none =>
    have hnone := List.findIdx?_eq_none_iff.mp hi id h
    simp at hnone
  | some i =>
    obtain ⟨hlt, hfound, -⟩ := List.findIdx?_eq_some_iff_getElem.mp hi
    use i, rfl
    rw [List.getElem?_eq_getElem hlt, of_decide_eq_true hfound]

theorem sameTerminalSet_iff {a b : List UInt64} :
  sameTerminalSet a b ↔ a.Perm b
  := by
  have hsorted (l : List UInt64) : l.mergeSort.Pairwise fun c d => decide (c ≤ d) := by
    apply List.pairwise_mergeSort
    · simpa using fun a b c => UInt64.le_trans
    · simpa using UInt64.le_total
  rw [sameTerminalSet, Bool.and_eq_true, decide_eq_true_eq, decide_eq_true_eq]
  constructor
  · rintro ⟨-, hsame⟩
    calc a.Perm a.mergeSort := (List.mergeSort_perm a _).symm
      _ = b.mergeSort := hsame
      List.Perm _ b := List.mergeSort_perm b _
  · intro hperm
    use hperm.length_eq
    have hantisymm (c d : UInt64) (_ : c ∈ a.mergeSort) (_ : d ∈ b.mergeSort)
        (hcd : decide (c ≤ d)) (hdc : decide (d ≤ c)) : c = d :=
      UInt64.le_antisymm (of_decide_eq_true hcd) (of_decide_eq_true hdc)
    apply List.Perm.eq_of_pairwise hantisymm (hsorted a) (hsorted b)
    calc a.mergeSort.Perm a := List.mergeSort_perm a _
      List.Perm _ b := hperm
      List.Perm _ b.mergeSort := (List.mergeSort_perm b _).symm

/-- Tabs become tiles of the terminals that are visible, as they were put away if they were, and
the active one has the focus. -/
theorem toggled_tabs {active : ℕ} (hlayout : s.layout = .tabs active) (hmem : id ∈ visible) :
  ∃ tree path, s.toggled visible (some id)
      = { s with layout := .splits tree path, stashedSplitsTree := none }
    ∧ tree.leaves.Perm visible ∧ tree.pathTo id = some path
    ∧ ∀ t, s.stashedSplitsTree = some t → t.leaves.Perm visible → tree = t
  := by
  obtain ⟨balanced, hbalanced, hleaves, -⟩ :=
    TileTree.exists_balancedAt (List.ne_nil_of_mem hmem) 0
  obtain ⟨tree, htree, hperm, hstashed⟩ : ∃ tree,
      (s.stashedSplitsTree.filter fun t => sameTerminalSet t.leaves visible).or
        (TileTree.balanced visible) = some tree
      ∧ tree.leaves.Perm visible
      ∧ ∀ t, s.stashedSplitsTree = some t → t.leaves.Perm visible → tree = t := by
    cases hkept : s.stashedSplitsTree.filter fun t => sameTerminalSet t.leaves visible with
    | some tree =>
      obtain ⟨hstash, hsame⟩ := Option.filter_eq_some_iff.mp hkept
      refine ⟨tree, rfl, sameTerminalSet_iff.mp hsame, fun t ht _ => ?_⟩
      exact Option.some.inj (hstash.symm.trans ht)
    | none =>
      refine ⟨balanced, hbalanced, hleaves ▸ .refl _, fun t ht hperm => ?_⟩
      have hdropped := Option.filter_eq_none_iff.mp hkept t ht
      exact absurd (sameTerminalSet_iff.mpr hperm) hdropped
  obtain ⟨path, hpath, -⟩ := exists_pathTo (hperm.mem_iff.mpr hmem)
  refine ⟨tree, path, ?_, hperm, hpath, hstashed⟩
  rw [TerminalStack.toggled, hlayout]
  dsimp only
  rw [htree]
  dsimp only
  rw [Option.bind_some, hpath, Option.getD_some]

/-- Tiles become tabs, of which that of the tile in focus is active. -/
theorem toggle_splits (hlayout : s.layout = .splits tree focused)
    (hid : s.focusedTerminalId visible = some id) (hmem : id ∈ visible) :
  ∃ i, s.toggleSessionLayout visible = ⟨.tabs i, i, some tree⟩ ∧ visible[i]? = some id
  := by
  obtain ⟨i, hposition, hi⟩ := exists_position hmem
  use i
  rw [TerminalStack.toggleSessionLayout, if_neg (List.ne_nil_of_mem hmem), hid]
  dsimp only
  rw [TerminalStack.setTerminalFocus, hposition, TerminalStack.toggled, hlayout]
  exact ⟨rfl, hi⟩

theorem toggle_tabs {active : ℕ} (hlayout : s.layout = .tabs active)
    (hid : visible[s.activeTabIdx]? = some id) :
  ∃ tree path i, s.toggleSessionLayout visible = ⟨.splits tree path, i, none⟩
    ∧ tree.leaves.Perm visible ∧ tree.IsLeafPath path id
    ∧ ∀ t, s.stashedSplitsTree = some t → t.leaves.Perm visible → tree = t
  := by
  have hmem := List.mem_of_getElem? hid
  obtain ⟨i, hposition, -⟩ := exists_position hmem
  obtain ⟨tree, path, htoggled, hperm, hpath, hstashed⟩ := toggled_tabs hlayout hmem
  refine ⟨tree, path, i, ?_, hperm, isLeafPath_of_pathTo hpath, hstashed⟩
  have hfocused : s.focusedTerminalId visible = some id := by
    rw [TerminalStack.focusedTerminalId, hlayout]
    exact hid
  rw [TerminalStack.toggleSessionLayout, if_neg (List.ne_nil_of_mem hmem), hfocused]
  dsimp only
  rw [htoggled, TerminalStack.setTerminalFocus, hposition]
  dsimp only
  rw [hpath]

theorem Sound.toggleSessionLayout (h : Sound s) (distinct : visible.Nodup)
    (hactive : visible ≠ [] → (s.focusedTerminalId visible).isSome) :
  Sound (s.toggleSessionLayout visible)
  := by
  by_cases hvisible : visible = []
  · rw [TerminalStack.toggleSessionLayout, if_pos hvisible]
    exact h
  obtain ⟨id, hid⟩ := Option.isSome_iff_exists.mp (hactive hvisible)
  cases hlayout : s.layout with
  | tabs active =>
    rw [TerminalStack.focusedTerminalId, hlayout] at hid
    obtain ⟨tree, path, i, htoggle, hperm, hleaf, -⟩ := toggle_tabs hlayout hid
    rw [htoggle]
    exact ⟨⟨hperm.nodup_iff.mpr distinct, id, hleaf⟩, nofun⟩
  | splits tree focused =>
    have htiles : Sound (s.toggled visible (some id)) := by
      rw [TerminalStack.toggled, hlayout]
      refine ⟨trivial, ?_⟩
      rintro _ ⟨⟩
      exact (h.of_splits hlayout).1
    rw [TerminalStack.toggleSessionLayout, if_neg hvisible, hid]
    apply htiles.setTerminalFocus

theorem Sound.step (h : Sound s) {a : Act} (admissible : Admissible s a) :
  Sound (step s a)
  := by
  obtain ⟨op, visible⟩ := a
  cases op with
  | terminalSpawned newId pending autoSplit => exact h.terminalSpawned admissible pending autoSplit
  | dropSlot id => exact h.dropSlot visible id
  | closeFocusedTile inert => exact h.closeFocusedTile visible inert
  | replaceTerminal old new here shown => exact h.replaceTerminal old admissible here shown
  | moveTileFocus dir => exact h.moveTileFocus visible dir
  | focusTile target => exact h.setTerminalFocus visible target
  | resizeFocusedDivider dir step => exact h.resizeFocusedDivider dir step
  | toggleSessionLayout => exact h.toggleSessionLayout admissible.1 admissible.2

theorem isLeafPath_of_focused (h : Sound s) (hlayout : s.layout = .splits tree focused)
    (hid : s.focusedTerminalId visible = some id) :
  tree.IsLeafPath focused id
  := by
  obtain ⟨-, id', hleaf⟩ := h.of_splits hlayout
  rw [TerminalStack.focusedTerminalId, hlayout] at hid
  dsimp only at hid
  rw [leafAt_eq_some.mpr hleaf.2, Option.some_or] at hid
  exact Option.some.inj hid ▸ hleaf

/-- A terminal in focus has a tile when another one is gone, where tiles are left. -/
theorem mem_pruned (h : Sound s) {kept : UInt64} (hfocus : s.focusedTerminalId visible = some kept)
    (hne : kept ≠ id) (hpruned : s.layout.prune id = .splits tree focused) :
  kept ∈ tree.leaves
  := by
  have eq_of_settled {t : TileTree} {f : TilePath} (h : settled t f = .splits tree focused) :
      tree = t := by
    cases t with
    | leaf id => cases h
    | split axis first second ratio =>
      cases h
      rfl
  cases hlayout : s.layout with
  | tabs active =>
    rw [hlayout] at hpruned
    cases hpruned
  | splits before f =>
    have hmem := TileTree.mem_leaves_iff.mpr ⟨f, isLeafPath_of_focused h hlayout hfocus⟩
    rw [hlayout, SessionLayout.prune] at hpruned
    cases hpath : before.pathTo id with
    | none =>
      rw [hpath] at hpruned
      exact eq_of_settled hpruned ▸ hmem
    | some path =>
      rw [hpath, Option.map_some] at hpruned
      rcases hremoved : before.removeAt path with ⟨tree', e | newFocus⟩
      · rw [hremoved] at hpruned
        cases hpruned
      · obtain ⟨⟨front, back, hleaves, hleaves'⟩, -⟩ :=
          of_removeAt hremoved (isLeafPath_of_pathTo hpath)
        rw [hremoved] at hpruned
        rw [eq_of_settled hpruned, hleaves']
        rw [hleaves] at hmem
        grind

theorem sound_final {acts : List Act} (along : machine.Along Admissible .new acts) :
  Sound (machine.final .new acts)
  := by
  have start : Sound .new := ⟨trivial, by rintro _ ⟨⟩⟩
  apply machine.invariant (I := fun s _ => Sound s) start _ along
  intro s _ a admissible h
  exact h.step admissible

/-! ### In every run -/

/-- A second terminal is put beside the first. -/
def beside : List Act := [⟨.terminalSpawned 2 (some .vertical) false, [1, 2]⟩]

theorem along_beside :
  machine.Along Admissible .new beside
  := ⟨(by decide : (2 : UInt64) ∉ [1]), trivial⟩

/-- A terminal that has the focus keeps it when another one goes, wherever that one is. -/
theorem focus_kept {acts : List Act} (along : machine.Along Admissible .new acts)
    {kept : UInt64} (hfocus : (machine.final .new acts).focusedTerminalId visible = some kept)
    (hmem : kept ∈ visible) (hne : kept ≠ id) :
  ((machine.final .new acts).dropSlot visible id).focusedTerminalId (visible.filter (· ≠ id))
    = some kept
  := by
  have hsound := sound_final along
  generalize machine.final .new acts = s at hfocus hsound ⊢
  have hkept : kept ∈ visible.filter (· ≠ id) := List.mem_filter.mpr ⟨hmem, by simpa using hne⟩
  obtain ⟨i, hposition, hi⟩ := exists_position hkept
  have hfilter : (some kept).filter (· ≠ id) = some kept := by simp [hne]
  rw [TerminalStack.dropSlot, hfocus, hfilter]
  dsimp only
  rw [hposition]
  dsimp only [TerminalStack.clampActiveTab, TerminalStack.focusedTerminalId]
  cases hpruned : s.layout.prune id with
  | tabs active => exact hi
  | splits tree focused =>
    obtain ⟨path, hpath, hleaf⟩ := exists_pathTo (mem_pruned hsound hfocus hne hpruned)
    dsimp only
    rw [hpath, Option.getD_some, leafAt_eq_some.mpr hleaf.2, Option.some_or]

theorem focus_kept_beside :
  ((machine.final .new beside).dropSlot [1, 2] 1).focusedTerminalId ([1, 2].filter (· ≠ 1))
    = some 2
  := focus_kept along_beside rfl (by decide) (by decide)

/-- A tile that is closed is the one in focus, and the others stay in their order. -/
theorem close_takes_tile {acts : List Act} (along : machine.Along Admissible .new acts)
    (h : (machine.final .new acts).layout = .splits tree focused)
    (hfocus : (machine.final .new acts).focusedTerminalId visible = some id)
    (hmany : 2 ≤ tree.leaves.length) (inert : Bool) :
  ∃ before after, tree.leaves = before ++ id :: after
    ∧ (((machine.final .new acts).closeFocusedTile visible inert).layout = .tabs 0
        ∧ (before ++ after).length = 1
      ∨ ∃ tree' focused', ((machine.final .new acts).closeFocusedTile visible inert).layout
          = .splits tree' focused' ∧ tree'.leaves = before ++ after)
  := by
  have hleaf := isLeafPath_of_focused (sound_final along) h hfocus
  have hsettled : settledFocus tree focused = focused := by
    rw [settledFocus, leafAt_eq_some.mpr hleaf.2]
    rfl
  rw [TerminalStack.closeFocusedTile, h]
  dsimp only
  rw [hsettled]
  rcases hremoved : tree.removeAt focused with ⟨tree', e | newFocus⟩
  · obtain ⟨_, -, hroot | hnone⟩ | ⟨_, _, hok, -⟩ := tree.removeAt_cases focused
    · have hsingle : tree = .leaf id := by
        have hnode := hleaf.2
        rw [hroot] at hnode
        exact Option.some.inj hnode
      rw [hsingle, TileTree.leaves, List.length_singleton] at hmany
      omega
    · cases hnone.symm.trans hleaf.2
    · cases hremoved.symm.trans hok
  · obtain ⟨⟨before, after, hleaves, hleaves'⟩, -⟩ := of_removeAt hremoved hleaf
    use before, after, hleaves
    have hlength : tree.leaves.length = tree'.leaves.length + 1 := by
      rw [hleaves, hleaves']
      simp only [List.length_append, List.length_cons]
      omega
    dsimp only
    split
    · left
      use rfl
      rw [← hleaves']
      omega
    · right
      exact ⟨_, _, rfl, hleaves'⟩

theorem close_takes_tile_beside :
  ∃ before after, [(1 : UInt64), 2] = before ++ 2 :: after
    ∧ (((machine.final .new beside).closeFocusedTile [] false).layout = .tabs 0
        ∧ (before ++ after).length = 1
      ∨ ∃ tree' focused', ((machine.final .new beside).closeFocusedTile [] false).layout
          = .splits tree' focused' ∧ tree'.leaves = before ++ after)
  := close_takes_tile along_beside rfl rfl (by decide) false

/-- A tile that was split is whole again when the new one is closed. -/
theorem split_close_restores {acts : List Act} (along : machine.Along Admissible .new acts)
    (h : (machine.final .new acts).layout = .splits tree focused)
    (hmany : 2 ≤ tree.leaves.length) (visible : List UInt64) (newId : UInt64)
    (direction : PendingSplit) (shown : List UInt64) (inert : Bool) :
  (((machine.final .new acts).commitPendingSplit visible newId direction).closeFocusedTile shown
    inert).layout = .splits tree ((firstLeaf tree).getD [])
  := by
  obtain ⟨-, id, hleaf⟩ := (sound_final along).of_splits h
  have hnew := (exists_replaceAt hleaf
    (.split direction.axis (.leaf id) (.leaf newId) 50)).2 [1] newId ⟨by decide, rfl⟩
  rw [TerminalStack.commitPendingSplit, h]
  dsimp only
  rw [hleaf.2]
  dsimp only [TerminalStack.closeFocusedTile]
  rw [settledFocus, leafAt_eq_some.mpr hnew.2, Option.isSome_some, if_pos rfl,
    TileTree.removeAt_replaceAt hleaf]
  dsimp only
  rw [if_neg (by omega)]

theorem split_close_restores_beside :
  (((machine.final .new beside).commitPendingSplit [1, 2] 3 .horizontal).closeFocusedTile [1, 2, 3]
    false).layout = .splits (.split .horizontal (.leaf 1) (.leaf 2) 50) [0]
  := split_close_restores along_beside rfl (by decide) [1, 2] 3 .horizontal [1, 2, 3] false

/-- A session that goes from tabs to tiles or back keeps its focus; and tiles of all that is
visible are, after they went to tabs and back, as they were. -/
theorem toggle_round_trip {acts : List Act} (along : machine.Along Admissible .new acts)
    (hfocus : (machine.final .new acts).focusedTerminalId visible = some id) (hmem : id ∈ visible) :
  ((machine.final .new acts).toggleSessionLayout visible).focusedTerminalId visible = some id
    ∧ ∀ tree focused, (machine.final .new acts).layout = .splits tree focused →
      tree.leaves.Perm visible →
      (((machine.final .new acts).toggleSessionLayout visible).toggleSessionLayout visible).layout
        = .splits tree focused
  := by
  have hsound := sound_final along
  generalize machine.final .new acts = s at hfocus hsound ⊢
  cases hlayout : s.layout with
  | tabs active =>
    rw [TerminalStack.focusedTerminalId, hlayout] at hfocus
    obtain ⟨tree, path, i, htoggle, hperm, hleaf, -⟩ := toggle_tabs hlayout hfocus
    rw [htoggle]
    constructor
    · dsimp only [TerminalStack.focusedTerminalId]
      rw [leafAt_eq_some.mpr hleaf.2, Option.some_or]
    · nofun
  | splits tree focused =>
    obtain ⟨i, htoggle, hi⟩ := toggle_splits hlayout hfocus hmem
    rw [htoggle]
    use hi
    rintro _ _ ⟨⟩ hperm
    have distinct := (hsound.of_splits hlayout).1
    have hleaf := isLeafPath_of_focused hsound hlayout hfocus
    obtain ⟨tree', path, j, hback, hperm', hleaf', hstashed⟩ :=
      toggle_tabs (s := ⟨.tabs i, i, some tree⟩) rfl hi
    obtain rfl : tree' = tree := hstashed tree rfl hperm
    have hpath : focused = path := TileTree.isLeafPath_unique distinct hleaf hleaf'
    rw [hback, hpath]

theorem toggle_round_trip_beside :
  ((machine.final .new beside).toggleSessionLayout [1, 2]).focusedTerminalId [1, 2] = some 2
    ∧ (((machine.final .new beside).toggleSessionLayout [1, 2]).toggleSessionLayout [1, 2]).layout
      = .splits (.split .horizontal (.leaf 1) (.leaf 2) 50) [1]
  := by
  have hround := @toggle_round_trip [1, 2] 2 beside along_beside rfl (by decide)
  exact ⟨hround.1, hround.2 _ _ rfl (.refl _)⟩

end Lazybox.Layout
