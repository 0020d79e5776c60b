import Lazybox.GitOps.Inspect

/-!
# What a safe row tells

The worktree of a row that is safe to delete was read as clean.  Yet it can be locked, when its
directory is gone, or when the index does not have the registration that locks it.  HEAD can be in
the history of its own branch alone, when no clone lists the directory, when the branch is its own
upstream or the default branch, or when the index has another registration of the place.  In each
other case HEAD is in the history of a remote-tracking ref or of another branch.
-/

namespace Lazybox.GitOps

variable {Commit : Type}

/-! ### The index -/

section Index

variable {fails : Path → Probe → Bool} {w : World Commit}

variable (w) in
/-- Whatever is in an index is registered with a clone. -/
def Sourced (index : Index) : Prop :=
  ∀ x ∈ index, ∃ clone ∈ w.clones, ∃ r ∈ clone.registrations,
    x = (w.canonical r.path, clone.path, r.entry)

variable {index : Index}

theorem Sourced.insert (h : Sourced w index) {clone : Clone Commit} (hclone : clone ∈ w.clones)
    {r : Registration Commit} (hr : r ∈ clone.registrations) :
  Sourced w (index.insert (w.canonical r.path) (clone.path, r.entry))
  := by
  intro x hx
  rw [Index.insert, List.mem_cons] at hx
  obtain rfl | hx := hx
  · exact ⟨clone, hclone, r, hr, rfl⟩
  · apply h x (List.mem_of_mem_filter hx)

theorem Sourced.addClone (h : Sourced w index) {clone : Clone Commit} (hclone : clone ∈ w.clones) :
  Sourced w (addClone fails w index clone)
  := by
  rw [GitOps.addClone, listPorcelain_eq]
  split
  · next entries hentries =>
      obtain ⟨-, hlist⟩ := (ask_eq_some _).mp hentries
      obtain rfl := Option.some.inj hlist
      rw [List.foldl_map]
      apply List.foldlRecOn clone.registrations _ h
      intro index' h' r hr
      apply h'.insert hclone hr
  · apply h

theorem sourced_porcelain (fails : Path → Probe → Bool) (w : World Commit) :
  Sourced w (porcelain fails w)
  := by
  apply List.foldlRecOn w.clones _
  · nofun
  · intro index h clone hclone
    apply h.addClone hclone

variable {value : Path × PorcelainEntry}

theorem mem_of_get {key : Path} (h : index.get key = some value) :
  (key, value) ∈ index
  := by
  obtain ⟨⟨key', value'⟩, hx, rfl⟩ := Option.map_eq_some_iff.mp h
  obtain ⟨hmem, rfl⟩ := Keyed.lookup_eq_some hx
  apply hmem

/-- The clone of an entry of the index. -/
theorem Sourced.clone_of_get (h : Sourced w index) {key : Path}
    (hget : index.get key = some value) :
  ∃ clone, w.clone? value.1 = some clone
  := by
  obtain ⟨clone, hclone, r, -, hx⟩ := h _ (mem_of_get hget)
  cases hx
  use clone
  apply (Keyed.lookup_eq_some_iff w.distinct).mpr ⟨hclone, rfl⟩

end Index

/-! ### What a row is to tell -/

section

variable [DecidableEq Commit]
variable (fails : Path → Probe → Bool) (G : Ancestry Commit) (w : World Commit)

omit [DecidableEq Commit] in
/-- Some registration of a place is locked. -/
def World.Locked (path : Path) : Prop :=
  ∃ clone ∈ w.clones, ∃ r ∈ clone.registrations, w.SamePlace r.path path ∧ r.locked.isSome

omit [DecidableEq Commit] in
/-- HEAD of a directory is in the history of a remote-tracking ref or of another branch. -/
def World.HeadKept (path : Path) : Prop :=
  ∃ checkout ∈ w.checkout? path, ∃ tip ∈ checkout.tip,
    checkout.refs.KeepsWithout G checkout.head.branch? tip

/-- A row is one of a report. -/
def Reported (row : WorktreeInspection) : Prop :=
  (∃ base legacy tracked rows,
    inspectWorktrees fails G w base legacy tracked = .ok rows ∧ row ∈ rows)
  ∨ ∃ paths tracked, row ∈ inspectPaths fails G w paths tracked

omit [DecidableEq Commit] in
/-- What is to hold of a worktree that is safe to delete. -/
structure Deletable (row : WorktreeInspection) : Prop where
  unlocked : ¬w.Locked row.path
  clean : (w.dir? row.path).isSome →
    ∃ state, dirtyState (fails row.path) w row.path = some state ∧ state.any = false
  kept : (w.dir? row.path).isSome → w.HeadKept G row.path

omit [DecidableEq Commit] in
/-- What git finds in a directory is the worktree that an entry tells of. -/
def World.Own (path bare : Path) (entry : PorcelainEntry) : Prop :=
  ∃ (clone : Clone Commit) (r : Registration Commit), w.clone? bare = some clone ∧ r.entry = entry
    ∧ w.checkout? path = some ⟨clone.refs, r.head⟩

/-- When nothing tells of HEAD but its own branch. -/
inductive Doubtful (path : Path) : Prop where
  | unlisted (absent : (porcelain fails w).get (w.canonical path) = none)
      (silent : revListCount (fails path) G .aheadOfUpstream (w.checkout? path) Checkout.upstream
        = none)
  | ownUpstream {checkout branch} (at' : w.checkout? path = some checkout)
      (head : checkout.head = .attached branch)
      (tracked : checkout.refs.upstream branch = some (.head branch))
  | ownDefault {checkout branch clone value} (at' : w.checkout? path = some checkout)
      (head : checkout.head = .attached branch)
      (listed : (porcelain fails w).get (w.canonical path) = some value)
      (of : w.clone? value.1 = some clone) (default : clone.refs.head = some branch)
  | foreign {value} (listed : (porcelain fails w).get (w.canonical path) = some value)
      (other : ¬w.Own path value.1 value.2)

/-- When a row that is safe tells what it is to tell. -/
structure Evidenced (row : WorktreeInspection) : Prop where
  /-- A worktree whose directory is gone is not locked. -/
  gone : w.dir? row.path = none → ¬w.Locked row.path
  /-- The index has each registration that locks a directory. -/
  listed : (w.dir? row.path).isSome → ∀ clone ∈ w.clones, ∀ r ∈ clone.registrations,
    w.SamePlace r.path row.path → r.locked.isSome →
      (porcelain fails w).get (w.canonical row.path) = some (clone.path, r.entry)
  /-- HEAD is also elsewhere where nothing tells of it but its own branch. -/
  elsewhere : (w.dir? row.path).isSome → Doubtful fails G w row.path → w.HeadKept G row.path

end

/-! ### Evidence -/

section Rows

variable [DecidableEq Commit]
variable {fails : Path → Probe → Bool} {G : Ancestry Commit} {w : World Commit}

omit [DecidableEq Commit] in
theorem Head.eq_attached {head : Head Commit} {branch : Branch} (h : head.branch? = some branch) :
  head = .attached branch
  := by
  cases head with
  | attached own => rw [Option.some.inj h]
  | detached commit => cases h

/-- What told that nothing is unpushed tells that HEAD is kept, unless that is in doubt. -/
theorem headKept_of_evidence {path : Path} (clear : ¬Doubtful fails G w path)
    (h : Evidence (fails path) G (w.checkout? path)
      ((((porcelain fails w).get (w.canonical path)).map Prod.fst).bind w.clone? |>.map Clone.refs)
      (((porcelain fails w).get (w.canonical path)).bind (·.2.branch))) :
  w.HeadKept G path
  := by
  cases h with
  | @remote checkout name at' within =>
    obtain ⟨start, hstart, tip, htip, hin⟩ := within
    use checkout, at', tip, htip
    apply Refs.keepsWithout_of_remote hstart hin
  | @upstream checkout own ref at' head tracked within =>
    obtain ⟨start, hstart, tip, htip, hin⟩ := within
    use checkout, at', tip, htip
    cases ref with
    | head other =>
      left
      refine ⟨other, start, ?_, hstart, hin⟩
      rw [head]
      intro hsame
      obtain rfl := Option.some.inj hsame
      apply clear (.ownUpstream at' head tracked)
    | remote name => apply Refs.keepsWithout_of_remote hstart hin
  | @default checkout refs main at' clone head within =>
    obtain ⟨start, hstart, tip, htip, hin⟩ := within
    obtain ⟨clone, hclone, rfl⟩ := Option.map_eq_some_iff.mp clone
    obtain ⟨bare, hbare, hclone⟩ := Option.bind_eq_some_iff.mp hclone
    obtain ⟨value, hvalue, rfl⟩ := Option.map_eq_some_iff.mp hbare
    use checkout, at', tip, htip
    left
    refine ⟨main, start, ?_, hstart, hin⟩
    intro hsame
    apply clear (.ownDefault at' (Head.eq_attached hsame.symm) hvalue hclone head)
  | @tip refs own clone asked contained =>
    obtain ⟨clone, hclone, rfl⟩ := Option.map_eq_some_iff.mp clone
    obtain ⟨bare, hbare, hclone⟩ := Option.bind_eq_some_iff.mp hclone
    obtain ⟨value, hvalue, rfl⟩ := Option.map_eq_some_iff.mp hbare
    rw [hvalue, Option.bind_some] at asked
    by_cases hown : w.Own path value.1 value.2
    · obtain ⟨clone', r, hclone', hentry, hcheckout⟩ := hown
      obtain rfl := Option.some.inj (hclone.symm.trans hclone')
      rw [← hentry] at asked
      have hhead : r.head = .attached own := Head.eq_attached asked
      obtain ⟨tip, htip, ref, href, hin⟩ := contained
      refine ⟨_, hcheckout, tip, ?_, ?_⟩
      · rw [Checkout.tip, hhead]
        apply htip
      · right
        exact ⟨ref, href, hin⟩
    · exact absurd (.foreign hvalue hown) clear
  | nothing clone silent =>
    cases hget : (porcelain fails w).get (w.canonical path) with
    | none => exact absurd (.unlisted hget silent) clear
    | some value =>
      obtain ⟨found, hfound⟩ := (sourced_porcelain fails w).clone_of_get hget
      rw [hget, Option.map_some, Option.bind_some, hfound] at clone
      cases clone

/-! ### Rows -/

/-- What an inspection that calls a directory safe found. -/
structure Found (fails : Path → Probe → Bool) (G : Ancestry Commit) (w : World Commit)
    (path : Path) : Prop where
  unlocked : ∀ value, (porcelain fails w).get (w.canonical path) = some value →
    value.2.locked = false
  clean : ∃ state, dirtyState (fails path) w path = some state ∧ state.any = false
  pushed : Evidence (fails path) G (w.checkout? path)
    ((((porcelain fails w).get (w.canonical path)).map Prod.fst).bind w.clone? |>.map Clone.refs)
    (((porcelain fails w).get (w.canonical path)).bind (·.2.branch))

theorem found_of_inspectOne {tracked : List TrackedSession} {path : Path}
    (h : (inspectOne fails G w (porcelain fails w) tracked path (w.canonical path)).isSafeToDelete
      = true) :
  Found fails G w path
  := by
  simp only [inspectOne, Bool.and_eq_true, Bool.not_eq_true'] at h
  obtain ⟨⟨⟨unlocked, clean⟩, pushed⟩, -⟩ := h
  split at clean
  · next ready =>
      rw [if_pos ready] at pushed
      constructor
      · intro value hvalue
        rw [hvalue] at unlocked
        apply unlocked
      · cases hstate : dirtyState (fails path) w path with
        | none =>
          rw [hstate] at clean
          cases clean
        | some state =>
          rw [hstate] at clean
          use state, rfl
          simpa using clean
      · apply evidence_of_not_unpushed pushed
  · cases clean

omit [DecidableEq Commit] in
theorem dir_of_clean {path : Path} {state : DirtyState}
    (h : dirtyState (fails path) w path = some state) :
  (w.dir? path).isSome
  := by
  rw [dirtyState, ask] at h
  split at h
  · cases h
  · cases hdir : w.dir? path with
    | none =>
      rw [hdir] at h
      cases h
    | some dir => rfl

/-- A safe row is of a directory that is gone, or of one that was inspected. -/
theorem gone_or_found {row : WorktreeInspection} (h : Reported fails G w row)
    (safe : row.isSafeToDelete = true) :
  w.dir? row.path = none ∨ Found fails G w row.path
  := by
  have hone : ∀ tracked path,
      row = inspectOne fails G w (porcelain fails w) tracked path (w.canonical path) →
      Found fails G w row.path := by
    rintro tracked path rfl
    apply found_of_inspectOne safe
  obtain ⟨base, legacy, tracked, rows, hrows, hrow⟩ | ⟨paths, tracked, hrow⟩ := h
  · cases legacy with
    | error e => cases hrows
    | ok walked =>
      cases hrows
      rw [sortRows, List.mem_mergeSort, List.mem_append, List.mem_map, List.mem_filterMap] at hrow
      obtain ⟨path, -, rfl⟩ | ⟨⟨key, bare, entry⟩, hmem, hrow⟩ := hrow
      · right
        apply hone tracked path rfl
      · rw [List.mem_mergeSort] at hmem
        obtain ⟨clone, -, r, -, hx⟩ := sourced_porcelain fails w _ hmem
        cases hx
        rw [registeredRow] at hrow
        split at hrow
        · cases hrow
        · split at hrow
          · split at hrow
            · right
              apply hone tracked r.path (Option.some.inj hrow).symm
            · cases hrow
          · next gone =>
              left
              rw [← Option.some.inj hrow]
              change w.dir? r.entry.path = none
              simpa using gone
  · rw [inspectPaths, sortRows, List.mem_mergeSort] at hrow
    have hpath : ∃ path, pathRow fails G w (porcelain fails w) tracked path = some row := by
      generalize ([] : List Path) = seen at hrow
      induction paths generalizing seen with
      | nil => cases hrow
      | cons path paths ih =>
        rw [pathRows] at hrow
        split at hrow
        · apply ih _ hrow
        · rw [List.mem_append, Option.mem_toList] at hrow
          obtain hrow | hrow := hrow
          · use path, hrow
          · apply ih _ hrow
    obtain ⟨path, hpath⟩ := hpath
    rw [pathRow] at hpath
    split at hpath
    · right
      apply hone tracked path (Option.some.inj hpath).symm
    · next gone =>
        left
        obtain ⟨⟨bare, entry⟩, hget, rfl⟩ := Option.map_eq_some_iff.mp hpath
        obtain ⟨clone, -, r, -, hx⟩ := sourced_porcelain fails w _ (mem_of_get hget)
        rw [Prod.mk.injEq, Prod.mk.injEq] at hx
        obtain ⟨hplace, -, rfl⟩ := hx
        change w.dirs (w.canonical r.path) = none
        rw [← hplace]
        simpa [World.dir?] using gone

/-- A safe row tells what it is to tell exactly when that is in evidence. -/
theorem deletable_iff_evidenced {row : WorktreeInspection} (h : Reported fails G w row)
    (safe : row.isSafeToDelete = true) :
  Deletable fails G w row ↔ Evidenced fails G w row
  := by
  constructor
  · rintro ⟨unlocked, clean, kept⟩
    constructor
    · intro _
      apply unlocked
    · intro _ clone hclone r hr hplace hlocked
      exact absurd ⟨clone, hclone, r, hr, hplace, hlocked⟩ unlocked
    · intro present _
      apply kept present
  · rintro ⟨gone, listed, elsewhere⟩
    obtain hgone | ⟨unlocked, clean, pushed⟩ := gone_or_found h safe
    · constructor
      · apply gone hgone
      · intro present
        rw [hgone] at present
        cases present
      · intro present
        rw [hgone] at present
        cases present
    · have present : (w.dir? row.path).isSome := by
        obtain ⟨state, hstate, -⟩ := clean
        apply dir_of_clean hstate
      constructor
      · rintro ⟨clone, hclone, r, hr, hplace, hlocked⟩
        have hlisted := unlocked _ (listed present clone hclone r hr hplace hlocked)
        change r.locked.isSome = false at hlisted
        rw [hlocked] at hlisted
        cases hlisted
      · intro _
        apply clean
      · intro _
        by_cases doubt : Doubtful fails G w row.path
        · apply elsewhere present doubt
        · apply headKept_of_evidence doubt pushed

end Rows

/-! ### Two reports

A worktree of a pushed branch, and one that is locked since its directory is on a disk that is not
there. -/

/-- Each commit is the child of the one before. -/
def line : Ancestry ℕ where
  parents
    | 0 => []
    | n + 1 => [n]
  rank := id
  rank_lt := by
    intro a p h
    cases a with
    | zero => cases h
    | succ n =>
        rw [List.mem_singleton.mp h]
        apply Nat.lt_succ_self

/-- The second commit is on a branch and at the remote. -/
def pushedRefs : Refs ℕ where
  heads
    | "main" => some 0
    | "topic" => some 1
    | _ => none
  remotes := [("origin/main", 0), ("origin/topic", 1)]
  originHead := some "origin/main"
  upstream _ := none
  hasRemote _ := false
  head := some "main"

def topic (locked : Option WorkingClaim.Text) : Registration ℕ where
  path := "/base/o-r/topic"
  head := .attached "topic"
  locked := locked
  prunable := none

def bareClone (locked : Option WorkingClaim.Text) : Clone ℕ where
  path := "/base/repos/o/r.git"
  refs := pushedRefs
  registrations := [topic locked]
  elsewhere := by
    intro r hr
    rw [List.mem_singleton.mp hr]
    change "/base/o-r/topic" ≠ "/base/repos/o/r.git" ∧ "/base/o-r/topic" ≠ ""
    decide +kernel

def topicWorld (locked : Option WorkingClaim.Text) (dir : Option (Dir ℕ)) : World ℕ where
  canonical := id
  clones := [bareClone locked]
  distinct := List.nodup_singleton _
  dirs
    | "/base/o-r/topic" => dir
    | _ => none

def topicDir : Dir ℕ where
  dotGit := .link "/base/repos/o/r.git" true
  content := true
  status := []

/-- No command fails. -/
def neverFails : Path → Probe → Bool := fun _ _ => false

def pushedRow : WorktreeInspection :=
  inspectOne neverFails line (topicWorld none (some topicDir))
    (porcelain neverFails (topicWorld none (some topicDir))) [] "/base/o-r/topic" "/base/o-r/topic"

theorem deletable_pushedRow :
  Reported neverFails line (topicWorld none (some topicDir)) pushedRow
    ∧ pushedRow.isSafeToDelete = true
    ∧ Deletable neverFails line (topicWorld none (some topicDir)) pushedRow
  := by
  have reported : Reported neverFails line (topicWorld none (some topicDir)) pushedRow := by
    right
    use ["/base/o-r/topic"], []
    decide +kernel
  have safe : pushedRow.isSafeToDelete = true := by
    decide +kernel
  refine ⟨reported, safe, (deletable_iff_evidenced reported safe).mpr ?_⟩
  constructor
  · nofun
  · intro _ clone hclone r hr _ hlocked
    rw [List.mem_singleton.mp hclone] at hr
    rw [List.mem_singleton.mp hr] at hlocked
    cases hlocked
  · intro _ _
    use ⟨pushedRefs, .attached "topic"⟩, rfl, 1, rfl
    right
    use ("origin/topic", 1)
    decide +kernel

def lockedWorld : World ℕ := topicWorld (some "on a removable disk".toList) none

/-- The row of a locked worktree is safe to delete. -/
theorem locked_row_safe :
  ∃ row, Reported neverFails line lockedWorld row ∧ row.isSafeToDelete = true
    ∧ ¬Deletable neverFails line lockedWorld row
  := by
  use vanished "/base/repos/o/r.git" (topic (some "on a removable disk".toList)).entry
  constructor
  · right
    use ["/base/o-r/topic"], []
    decide +kernel
  · constructor
    · rfl
    · rintro ⟨unlocked, -, -⟩
      apply unlocked
      refine ⟨_, List.mem_singleton_self _, _, List.mem_singleton_self _, rfl, rfl⟩

end Lazybox.GitOps
