import Lazybox.GitOps.Repository

/-!
# What git prints

The status of a checkout is sorted by what losing the changes would cost.  The list of the
worktrees is read line by line, and tells of each worktree registered with a clone where it is, its
branch, and whether it is locked or can be pruned.
-/

namespace Lazybox.GitOps

open WorkingClaim (Text splitLines stripPrefix)

/-! ### Status -/

/-- The lines of a text, without the line feed or the carriage return and line feed that end
them. -/
def textLines (s : Text) : List Text :=
  let pieces := splitLines s
  pieces.dropLast.map (fun line => if line.getLast? = some '\r' then line.dropLast else line)
    ++ pieces.getLast?.toList.filter (· ≠ [])

/-- A text cut after a number of bytes, unless that is in a character or after the end. -/
def splitBytes : ℕ → Text → Option (Text × Text)
  | 0, s => some ([], s)
  | _ + 1, [] => none
  | n + 1, c :: s =>
      if c.utf8Size ≤ n + 1 then
        (splitBytes (n + 1 - c.utf8Size) s).map fun (code, rest) => (c :: code, rest)
      else none
termination_by structural _ s => s

def buildDir : String := "target"

def buildOutputDirs : List String :=
  [buildDir, "node_modules", "dist", "build", ".venv", "venv", "__pycache__", ".next", ".turbo"]

structure DirtyState where
  any : Bool
  trackedChanges : Bool
  untrackedWork : Bool
  untrackedBuildOutput : Bool
deriving DecidableEq

namespace DirtyState

def default : DirtyState := ⟨false, false, false, false⟩

def isOnlyBuildOutput (state : DirtyState) : Bool :=
  state.untrackedBuildOutput && !state.trackedChanges && !state.untrackedWork

end DirtyState

def isBuildOutputEntry (path : Text) : Bool :=
  path.getLast? = some '/' && buildOutputDirs.contains (String.ofList path.dropLast)

/-- What a line of the status adds. -/
def classifyLine (state : DirtyState) (line : Text) : DirtyState :=
  if line = [] then state
  else
    match splitBytes 3 line with
    | none => { state with trackedChanges := true }
    | some (code, path) =>
        if code = "?? ".toList then
          if isBuildOutputEntry path then { state with untrackedBuildOutput := true }
          else { state with untrackedWork := true }
        else if code = "!! ".toList then state
        else { state with trackedChanges := true }

def classifyStatus (stdout : Text) : DirtyState :=
  (textLines stdout).foldl classifyLine { DirtyState.default with any := stdout ≠ [] }

section Dirty

variable {Commit : Type}

def dirtyState (fails : Probe → Bool) (w : World Commit) (path : Path) : Option DirtyState :=
  (ask fails .status ((w.dir? path).map Dir.status)).map classifyStatus

end Dirty

/-! ### Worktrees -/

structure PorcelainEntry where
  path : Path
  branch : Option Branch
  locked : Bool
  prunable : Bool
  isBare : Bool
deriving DecidableEq

namespace PorcelainEntry

def default : PorcelainEntry := ⟨"", none, false, false, false⟩

/-- What a line of the list adds. -/
def addLine (entry : PorcelainEntry) (line : Text) : PorcelainEntry :=
  match stripPrefix "worktree ".toList line with
  | some rest => { entry with path := String.ofList rest }
  | none =>
      match stripPrefix "branch ".toList line with
      | some rest =>
          { entry with
            branch := some (String.ofList ((stripPrefix "refs/heads/".toList rest).getD rest)) }
      | none =>
          if line = "locked".toList ∨ "locked ".toList <+: line then { entry with locked := true }
          else if line = "prunable".toList ∨ "prunable ".toList <+: line then
            { entry with prunable := true }
          else if line = "bare".toList then { entry with isBare := true }
          else entry

/-- The entries of the lines, given what was read of the first of them. -/
def read : Option PorcelainEntry → List Text → List PorcelainEntry
  | cur, [] => cur.toList
  | cur, line :: lines =>
      if line = [] then cur.toList ++ read none lines
      else read (some ((cur.getD default).addLine line)) lines

end PorcelainEntry

section List

variable {Commit : Type}

/-- A line of a word, and of a reason unless it is empty. -/
def reasonLine (word : String) : Option Text → List Text
  | none => []
  | some [] => [word.toList]
  | some reason => [word.toList ++ ' ' :: reason]

/-- What `git worktree list --porcelain` prints of a worktree, but the commit. -/
def Registration.lines (r : Registration Commit) : List Text :=
  ["worktree ".toList ++ r.path.toList,
    match r.head with
    | .attached branch => "branch ".toList ++ ("refs/heads/".toList ++ branch.toList)
    | .detached _ => "detached".toList]
    ++ reasonLine "locked" r.locked ++ reasonLine "prunable" r.prunable ++ [[]]

def Clone.lines (clone : Clone Commit) : List Text :=
  ["worktree ".toList ++ clone.path.toList, "bare".toList, []]
    ++ clone.registrations.flatMap Registration.lines

def listPorcelain (clone : Clone Commit) : List PorcelainEntry :=
  (PorcelainEntry.read none clone.lines).filter fun e =>
    !e.isBare && e.path ≠ clone.path && e.path ≠ ""

def Head.branch? : Head Commit → Option Branch
  | .attached branch => some branch
  | .detached _ => none

def Registration.entry (r : Registration Commit) : PorcelainEntry where
  path := r.path
  branch := r.head.branch?
  locked := r.locked.isSome
  prunable := r.prunable.isSome
  isBare := false

/-! ### What is read back -/

theorem stripPrefix_append (p s : Text) :
  stripPrefix p (p ++ s) = some s
  := by
  rw [stripPrefix, if_pos (List.prefix_append p s), List.drop_left]

theorem stripPrefix_cons_ne {c d : Char} (h : c ≠ d) (p s : Text) :
  stripPrefix (c :: p) (d :: s) = none
  := by
  rw [stripPrefix, if_neg]
  rw [List.cons_prefix_cons]
  rintro ⟨hcd, -⟩
  apply h hcd

namespace PorcelainEntry

variable (e : PorcelainEntry)

theorem addLine_worktree (path : String) :
  e.addLine ("worktree ".toList ++ path.toList) = { e with path := path }
  := by
  rw [addLine, stripPrefix_append]
  simp

theorem addLine_branch (branch : Branch) :
  e.addLine ("branch ".toList ++ ("refs/heads/".toList ++ branch.toList))
    = { e with branch := some branch }
  := by
  have hworktree : stripPrefix "worktree ".toList
      ("branch ".toList ++ ("refs/heads/".toList ++ branch.toList)) = none :=
    stripPrefix_cons_ne (by decide) _ _
  rw [addLine, hworktree]
  simp only [stripPrefix_append, Option.getD_some, String.ofList_toList]

theorem addLine_detached :
  e.addLine "detached".toList = e
  := by
  simp [addLine, stripPrefix]

theorem read_reasonLine {word : String} {f : PorcelainEntry → PorcelainEntry}
    (nonempty : word.toList ≠ []) (alone : ∀ e : PorcelainEntry, e.addLine word.toList = f e)
    (reasoned : ∀ (e : PorcelainEntry) reason, e.addLine (word.toList ++ ' ' :: reason) = f e)
    (reason : Option Text) (lines : List Text) :
  read (some e) (reasonLine word reason ++ lines)
    = read (some (if reason.isSome then f e else e)) lines
  := by
  match reason with
  | none => rfl
  | some [] =>
    rw [reasonLine, List.singleton_append, read, if_neg nonempty, Option.getD_some, alone]
    rfl
  | some (c :: reason) =>
    rw [reasonLine, List.singleton_append, read, if_neg, Option.getD_some, reasoned]
    · rfl
    · simp
    · nofun

theorem addLine_locked (line : Text) (h : line = "locked".toList ∨ "locked ".toList <+: line) :
  e.addLine line = { e with locked := true }
  := by
  have hl : ∃ rest, line = 'l' :: rest := by
    obtain rfl | ⟨rest, rfl⟩ := h
    · exact ⟨_, rfl⟩
    · exact ⟨_, rfl⟩
  obtain ⟨rest, rfl⟩ := hl
  have hworktree : stripPrefix "worktree ".toList ('l' :: rest) = none :=
    stripPrefix_cons_ne (by decide) _ _
  have hbranch : stripPrefix "branch ".toList ('l' :: rest) = none :=
    stripPrefix_cons_ne (by decide) _ _
  rw [addLine, hworktree, hbranch]
  simp only [if_pos h]

theorem addLine_prunable (line : Text)
    (h : line = "prunable".toList ∨ "prunable ".toList <+: line) :
  e.addLine line = { e with prunable := true }
  := by
  have hl : ∃ rest, line = 'p' :: rest := by
    obtain rfl | ⟨rest, rfl⟩ := h
    · exact ⟨_, rfl⟩
    · exact ⟨_, rfl⟩
  obtain ⟨rest, rfl⟩ := hl
  have hworktree : stripPrefix "worktree ".toList ('p' :: rest) = none :=
    stripPrefix_cons_ne (by decide) _ _
  have hbranch : stripPrefix "branch ".toList ('p' :: rest) = none :=
    stripPrefix_cons_ne (by decide) _ _
  have hlocked : ¬('p' :: rest = "locked".toList ∨ "locked ".toList <+: 'p' :: rest) := by
    rintro (h | h)
    · cases h
    · rw [show "locked ".toList = 'l' :: "ocked ".toList from rfl, List.cons_prefix_cons] at h
      cases h.1
  rw [addLine, hworktree, hbranch]
  simp only [if_neg hlocked, if_pos h]

theorem read_locked (reason : Option Text) (lines : List Text) :
  read (some e) (reasonLine "locked" reason ++ lines)
    = read (some { e with locked := e.locked || reason.isSome }) lines
  := by
  rw [read_reasonLine (f := fun e => { e with locked := true })]
  · cases reason <;> simp
  · decide
  · intro e
    apply addLine_locked
    left
    rfl
  · intro e reason
    apply addLine_locked
    right
    exact ⟨reason, rfl⟩

theorem read_prunable (reason : Option Text) (lines : List Text) :
  read (some e) (reasonLine "prunable" reason ++ lines)
    = read (some { e with prunable := e.prunable || reason.isSome }) lines
  := by
  rw [read_reasonLine (f := fun e => { e with prunable := true })]
  · cases reason <;> simp
  · decide
  · intro e
    apply addLine_prunable
    left
    rfl
  · intro e reason
    apply addLine_prunable
    right
    exact ⟨reason, rfl⟩

theorem read_cons {line : Text} (h : line ≠ []) (cur : Option PorcelainEntry) (lines : List Text) :
  read cur (line :: lines) = read (some ((cur.getD default).addLine line)) lines
  := by
  rw [read, if_neg h]

/-- A worktree is read back. -/
theorem read_lines (r : Registration Commit) (lines : List Text) :
  read none (r.lines ++ lines) = r.entry :: read none lines
  := by
  have hhead : ∀ lines', read none (("worktree ".toList ++ r.path.toList)
      :: (match r.head with
        | .attached branch => "branch ".toList ++ ("refs/heads/".toList ++ branch.toList)
        | .detached _ => "detached".toList) :: lines')
      = read (some ⟨r.path, r.head.branch?, false, false, false⟩) lines' := by
    intro lines'
    rw [read_cons (by nofun), Option.getD_none, addLine_worktree]
    cases r.head with
    | attached branch =>
      rw [read_cons (by nofun), Option.getD_some, addLine_branch]
      rfl
    | detached commit =>
      rw [read_cons (by nofun), Option.getD_some, addLine_detached]
      rfl
  rw [Registration.lines, List.append_assoc, List.append_assoc, List.append_assoc,
    List.cons_append, List.cons_append, List.nil_append, hhead, read_locked, read_prunable]
  rw [List.singleton_append, read, if_pos rfl]
  rfl

end PorcelainEntry

/-- What is read of the worktrees of a clone is what is registered with it. -/
theorem listPorcelain_eq (clone : Clone Commit) :
  listPorcelain clone = clone.registrations.map Registration.entry
  := by
  have hread : ∀ rs : List (Registration Commit),
      PorcelainEntry.read none (rs.flatMap Registration.lines) = rs.map Registration.entry := by
    intro rs
    induction rs with
    | nil => rfl
    | cons r rs ih =>
      rw [List.flatMap_cons, PorcelainEntry.read_lines, ih, List.map_cons]
  have hbare : PorcelainEntry.read none clone.lines
      = ⟨clone.path, none, false, false, true⟩ :: clone.registrations.map Registration.entry := by
    rw [← hread, Clone.lines, List.cons_append, PorcelainEntry.read_cons (by nofun),
      Option.getD_none, PorcelainEntry.addLine_worktree]
    rfl
  rw [listPorcelain, hbare, List.filter_cons_of_neg, List.filter_eq_self]
  · intro e he
    obtain ⟨r, hr, rfl⟩ := List.mem_map.mp he
    obtain ⟨hpath, hnonempty⟩ := clone.elsewhere r hr
    simp [Registration.entry, hpath, hnonempty]
  · simp

end List

end Lazybox.GitOps
