import Lazybox.GitOps.Delete
import Lazybox.GitOps.SafeRows

/-!
# What a deletion loses

A deletion that is not forced was told that nothing is unpushed.  What was told is about HEAD, or
about the tip of the branch of the row, while HEAD and the branch are both gone afterwards.  So a
commit is lost only when HEAD is detached and the branch was asked about, or when HEAD is not on
the branch that is deleted, or that branch itself was what HEAD was found in.
-/

namespace Lazybox.GitOps

variable {Commit : Type}

/-! ### Refs without a branch -/

namespace Refs

/-- The refs once a branch is deleted, if any. -/
def drop (refs : Refs Commit) : Option Branch → Refs Commit
  | some branch => { refs with heads := Function.update refs.heads branch none }
  | none => refs

variable {refs : Refs Commit} {G : Ancestry Commit}

theorem keeps_drop {doomed : Option Branch} {c : Commit} :
  (refs.drop doomed).Keeps G c ↔ refs.KeepsWithout G doomed c
  := by
  cases doomed with
  | none => rw [keepsWithout_none, drop]
  | some branch =>
    rw [Keeps, KeepsWithout]
    apply or_congr_left
    apply exists_congr
    intro other
    apply exists_congr
    intro tip
    change Function.update refs.heads branch none other = some tip ∧ _ ↔ _
    rw [Function.update_apply, ← and_assoc]
    apply and_congr_left'
    constructor
    · intro h
      split at h
      · cases h
      · next hne => exact ⟨fun hsame => hne (Option.some.inj hsame), h⟩
    · rintro ⟨hne, h⟩
      rw [if_neg fun hsame => hne (congrArg some hsame)]
      apply h

/-- A branch that is not deleted keeps its tip. -/
theorem keepsWithout_tip {doomed : Option Branch} {branch : Branch} {tip : Commit}
    (h : refs.heads branch = some tip) (stays : some branch ≠ doomed) :
  refs.KeepsWithout G doomed tip
  := by
  left
  exact ⟨branch, tip, stays, h, G.self_mem_ancestors tip⟩

end Refs

/-! ### Worktrees -/

namespace World

variable (w : World Commit)

/-- A directory is the worktree that a registration of a clone is of. -/
structure Worktree (path : Path) (clone : Clone Commit) (r : Registration Commit) : Prop where
  known : w.clone? clone.path = some clone
  registered : w.registration? clone path = some r
  linked : ∃ dir index, w.dir? path = some dir ∧ dir.dotGit = .link clone.path index

variable {w} {path : Path} {clone : Clone Commit} {r : Registration Commit}

theorem Worktree.checkout (h : w.Worktree path clone r) :
  w.checkout? path = some ⟨clone.refs, r.head⟩
  := by
  obtain ⟨hclone, hregistered, dir, index, hdir, hlink⟩ := h
  simp [checkout?, hdir, hlink, hclone, hregistered]

theorem clone?_modifyClone {change : Clone Commit → Clone Commit}
    (keeps : ∀ clone, (change clone).path = clone.path) (p : Path) :
  (w.modifyClone path change keeps).clone? p
    = if p = path then (w.clone? path).map change else w.clone? p
  := by
  apply Keyed.lookup_modifyFirst keeps

/-- Only a worktree that leads back to the clone is removed. -/
theorem Worktree.of_worktreeRemove {fails : Probe → Bool} {w' : World Commit} {other : Clone Commit}
    {force : Bool} (h : w.Worktree path clone r)
    (removed : w.worktreeRemove fails other path force = some w')
    (there : w.clone? other.path = some other) :
  other = clone
    ∧ w' = (w.modifyClone clone.path (w.unregister path) fun _ => rfl).removeDir path
  := by
  obtain ⟨hclone, hregistered, dir, index, hdir, hlink⟩ := h
  rw [worktreeRemove] at removed
  split at removed
  · next r' dir' hr' hdir' =>
      obtain rfl := Option.some.inj (hdir.symm.trans hdir')
      simp only [hlink] at removed
      split at removed
      · next hguard =>
          obtain ⟨-, hsome⟩ := (ask_eq_some fails).mp removed
          have hsame : other = clone := by
            apply Option.some.inj
            rw [← there, ← hguard.1, hclone]
          subst hsame
          exact ⟨rfl, (Option.some.inj hsome).symm⟩
      · cases removed
  · cases removed

end World

/-! ### The deletion -/

section Delete

variable [DecidableEq Commit]
variable (fails : Probe → Bool) (G : Ancestry Commit) (w : World Commit)

omit [DecidableEq Commit] in
/-- The branch that is deleted after a worktree of a clone. -/
def doomed (clone : Clone Commit) (row : WorktreeInspection) : Option Branch :=
  match row.barePath, row.branch with
  | some _, some branch =>
      if bareHeadBranch fails .headOfBare clone.refs = some branch ∨ fails .branchDelete
        ∨ clone.refs.heads branch = none
        ∨ ∃ r ∈ (w.unregister row.path clone).registrations, r.head.branch? = some branch then none
      else some branch
  | _, _ => none

variable {fails G w} {row : WorktreeInspection} {clone : Clone Commit} {r : Registration Commit}

theorem pushed_of_recheck {forced : Bool} (h : recheck fails G w row clone = .ok forced) :
  unpushed fails G (w.checkout? row.path) (some clone.refs) row.branch = false
  := by
  rw [recheck] at h
  split at h
  · cases h
  · split at h
    · cases h
    · split at h
      · cases h
      · split at h
        · cases h
        · split at h
          · cases h
          · next hpushed => simpa using hpushed

/-- What is left of a world once a worktree of a clone is removed. -/
def removed (w : World Commit) (path : Path) (clone : Clone Commit) : World Commit :=
  (w.modifyClone clone.path (w.unregister path) (w.unregister_path path)).removeDir path

/-- What a deletion of a worktree did when it went through. -/
inductive Deleted (fails : Probe → Bool) (G : Ancestry Commit) (w : World Commit)
    (row : WorktreeInspection) (clone : Clone Commit) (final : World Commit) : Prop where
  | unlisted (unknown : row.barePath = none) (left : final = w.removeDir row.path)
  | checked (known : row.barePath = some clone.path)
      (pushed : unpushed fails G (w.checkout? row.path) (some clone.refs) row.branch = false)
      (left : final = deleteBranchOf fails (removed w row.path clone) clone.path row.branch)

variable {final : World Commit}

theorem deleted_of_ok {stillRemovable : Bool} (h : w.Worktree row.path clone r)
    (ok : deleteInspectedIf fails G w row false stillRemovable = (final, .ok true)) :
  Deleted fails G w row clone final
  := by
  have present : (w.dir? row.path).isNone ≠ true := by
    obtain ⟨dir, index, hdir, -⟩ := h.linked
    rw [hdir]
    nofun
  unfold deleteInspectedIf at ok
  split at ok
  · cases ok
  · split at ok
    · next unknown =>
        rw [removeUnlisted] at ok
        split at ok
        · cases ok
        · split at ok
          · cases ok
          · split at ok
            · cases ok
            · apply Deleted.unlisted unknown (congrArg Prod.fst ok).symm
    · next bare known =>
        rw [if_neg (by nofun), removeChecked] at ok
        split at ok
        · cases ok
        · split at ok
          · cases ok
          · next other there =>
              obtain rfl : other.path = bare := (Keyed.lookup_eq_some there).2
              split at ok
              · cases ok
              · next forced checked =>
                  split at ok
                  · cases ok
                  · next gone hgone =>
                      obtain ⟨rfl, rfl⟩ := h.of_worktreeRemove hgone there
                      apply Deleted.checked known (pushed_of_recheck checked)
                        (congrArg Prod.fst ok).symm

/-! ### What is left -/

omit [DecidableEq Commit] in
theorem removed_clone? (h : w.Worktree row.path clone r) :
  (removed w row.path clone).clone? clone.path = some (w.unregister row.path clone)
  := by
  have hkeeps : ∀ clone, (w.unregister row.path clone).path = clone.path := fun _ => rfl
  apply (World.clone?_modifyClone hkeeps clone.path).trans
  rw [if_pos rfl, h.known, Option.map_some]

/-- The clone is left without the branch that is doomed. -/
theorem Deleted.clone_left (h : w.Worktree row.path clone r)
    (deleted : Deleted fails G w row clone final) :
  ∃ clone', final.clone? clone.path = some clone'
    ∧ clone'.refs = clone.refs.drop (doomed fails w clone row)
  := by
  cases deleted with
  | unlisted unknown left =>
    subst left
    use clone, h.known
    rw [doomed, unknown]
    rfl
  | checked known pushed left =>
    subst left
    rw [doomed, known]
    cases row.branch with
    | none => exact ⟨_, removed_clone? h, rfl⟩
    | some branch =>
      rw [deleteBranchOf, deleteLocalBranch, removed_clone? h]
      dsimp only
      change ∃ clone', (if bareHeadBranch fails .headOfBare clone.refs = some branch then _
        else _ : World Commit).clone? _ = _ ∧ _
      by_cases hmain : bareHeadBranch fails .headOfBare clone.refs = some branch
      · rw [if_pos hmain, if_pos (Or.inl hmain)]
        exact ⟨_, removed_clone? h, rfl⟩
      · rw [if_neg hmain, World.branchDelete]
        by_cases hkept : fails .branchDelete ∨ clone.refs.heads branch = none
          ∨ ∃ r ∈ (w.unregister row.path clone).registrations, r.head.branch? = some branch
        · rw [if_pos (Or.inr hkept)]
          use w.unregister row.path clone
          constructor
          · apply Eq.trans (congrArg (World.clone? · clone.path) (if_pos hkept))
            apply removed_clone? h
          · rfl
        · rw [if_neg (not_or_intro hmain hkept)]
          use (w.unregister row.path clone).deleteBranch branch
          constructor
          · apply Eq.trans (congrArg (World.clone? · clone.path) (if_neg hkept))
            have hkeeps : ∀ clone : Clone Commit,
                (clone.deleteBranch branch).path = clone.path := fun _ => rfl
            apply (World.clone?_modifyClone hkeeps clone.path).trans
            apply (if_pos rfl).trans
            rw [show (w.unregister row.path clone).path = clone.path from rfl,
              removed_clone? h, Option.map_some]
          · rfl

/-! ### What is lost -/

section

variable (fails G w)

omit [DecidableEq Commit] in
/-- The commits that HEAD of a worktree or a branch that is gone had are in the history of what is
left. -/
def Lossless (clone : Clone Commit) (r : Registration Commit) (final : World Commit) : Prop :=
  ∃ clone', final.clone? clone.path = some clone'
    ∧ (∀ tip ∈ clone.refs.commitOf r.head, ∀ c ∈ G.ancestors tip, clone'.refs.Keeps G c)
    ∧ ∀ branch tip, clone.refs.heads branch = some tip → clone'.refs.heads branch = none →
      ∀ c ∈ G.ancestors tip, clone'.refs.Keeps G c

omit [DecidableEq Commit] in
/-- What was not asked about stays in the history of another ref. -/
structure Spared (clone : Clone Commit) (r : Registration Commit) (row : WorktreeInspection) :
    Prop where
  /-- A detached HEAD, when only the tip of a branch was asked about or nothing was. -/
  detached : ∀ c, r.head = .detached c →
    (row.barePath = none ∨ ∃ branch ∈ row.branch, clone.refs.TipOnRemote G branch) →
      clone.refs.KeepsWithout G (doomed fails w clone row) c
  /-- A branch that is deleted, when HEAD is not on it or HEAD was asked about against it. -/
  drifted : ∀ branch tip, doomed fails w clone row = some branch →
    clone.refs.heads branch = some tip →
    (r.head ≠ .attached branch ∨ clone.refs.upstream branch = some (.head branch)
      ∨ clone.refs.head = some branch) →
      clone.refs.KeepsWithout G (some branch) tip

end

omit [DecidableEq Commit] in
theorem doomed_eq_some {branch : Branch} (h : doomed fails w clone row = some branch) :
  row.branch = some branch
  := by
  rw [doomed] at h
  split at h
  · next other hbare hbranch =>
      split at h
      · cases h
      · rw [hbranch, h]
  · cases h

omit [DecidableEq Commit] in
theorem Refs.drop_eq_none {refs : Refs Commit} {gone : Option Branch} {branch : Branch}
    {tip : Commit} (h : refs.heads branch = some tip) :
  (refs.drop gone).heads branch = none ↔ gone = some branch
  := by
  cases gone with
  | none => simp [Refs.drop, h]
  | some other =>
    change Function.update refs.heads other none branch = none ↔ _
    rw [Function.update_apply, h]
    split
    · next hsame => simp [hsame]
    · next hne => simp [Ne.symm hne]

/-- HEAD and the branch that is deleted are what can be lost. -/
theorem Deleted.lossless_iff (h : w.Worktree row.path clone r)
    (deleted : Deleted fails G w row clone final) :
  Lossless G clone r final
    ↔ (∀ tip ∈ clone.refs.commitOf r.head,
        clone.refs.KeepsWithout G (doomed fails w clone row) tip)
      ∧ ∀ branch tip, doomed fails w clone row = some branch →
        clone.refs.heads branch = some tip → clone.refs.KeepsWithout G (some branch) tip
  := by
  obtain ⟨clone', hclone, hrefs⟩ := deleted.clone_left h
  constructor
  · rintro ⟨clone'', hclone'', head, branches⟩
    obtain rfl := Option.some.inj (hclone.symm.trans hclone'')
    rw [hrefs] at head branches
    constructor
    · intro tip htip
      apply Refs.keeps_drop.mp (head tip htip tip (G.self_mem_ancestors tip))
    · intro branch tip hdoomed hbranch
      rw [← hdoomed]
      apply Refs.keeps_drop.mp
      apply branches branch tip hbranch _ tip (G.self_mem_ancestors tip)
      apply (Refs.drop_eq_none hbranch).mpr hdoomed
  · rintro ⟨head, branches⟩
    use clone', hclone
    rw [hrefs]
    constructor
    · intro tip htip c hc
      apply Refs.keeps_drop.mpr ((head tip htip).trans hc)
    · intro branch tip hbranch hgone c hc
      have hdoomed := (Refs.drop_eq_none hbranch).mp hgone
      apply Refs.keeps_drop.mpr
      rw [hdoomed]
      apply (branches branch tip hdoomed hbranch).trans hc

/-- HEAD is kept when the deletion spares what it does not ask about. -/
theorem Spared.head_kept (spared : Spared fails G w clone r row)
    (evidence : Evidence fails G (some ⟨clone.refs, r.head⟩) (some clone.refs) row.branch)
    {tip : Commit} (htip : clone.refs.commitOf r.head = some tip) :
  clone.refs.KeepsWithout G (doomed fails w clone row) tip
  := by
  -- a branch that HEAD is in the history of stays, or is the one that is deleted
  have hwithin : ∀ branch, (Checkout.mk clone.refs r.head).Within G (.head branch) →
      (doomed fails w clone row = some branch →
        r.head ≠ .attached branch ∨ clone.refs.upstream branch = some (.head branch)
          ∨ clone.refs.head = some branch) →
      clone.refs.KeepsWithout G (doomed fails w clone row) tip := by
    rintro branch ⟨start, hstart, tip', htip', hin⟩ asked
    obtain rfl := Option.some.inj (htip.symm.trans htip')
    by_cases hdoomed : doomed fails w clone row = some branch
    · rw [hdoomed]
      apply (spared.drifted branch start hdoomed hstart (asked hdoomed)).trans hin
    · apply (Refs.keepsWithout_tip hstart (Ne.symm hdoomed)).trans hin
  have hremote : ∀ name, (Checkout.mk clone.refs r.head).Within G (.remote name) →
      clone.refs.KeepsWithout G (doomed fails w clone row) tip := by
    rintro name ⟨start, hstart, tip', htip', hin⟩
    obtain rfl := Option.some.inj (htip.symm.trans htip')
    apply Refs.keepsWithout_of_remote hstart hin
  cases evidence with
  | remote at' within =>
    cases at'
    apply hremote _ within
  | @upstream checkout own ref at' head tracked within =>
    cases at'
    cases ref with
    | remote name => apply hremote name within
    | head other =>
      apply hwithin other within
      intro hdoomed
      by_cases hsame : other = own
      · right
        left
        rw [hsame]
        rw [hsame] at tracked
        apply tracked
      · left
        intro hhead
        have hbranch : Head.attached own = Head.attached other := head.symm.trans hhead
        cases hbranch
        apply hsame rfl
  | @default checkout refs main at' clone' head within =>
    cases at'
    cases clone'
    apply hwithin main within
    intro _
    right
    right
    apply head
  | @tip refs own clone' asked contained =>
    cases clone'
    cases hhead : r.head with
    | detached c =>
      rw [hhead] at htip
      cases htip
      apply spared.detached tip hhead
      right
      exact ⟨own, asked, contained⟩
    | attached branch =>
      rw [hhead] at htip
      by_cases hdoomed : doomed fails w clone row = some branch
      · have hown : row.branch = some branch := doomed_eq_some hdoomed
        rw [asked] at hown
        obtain rfl := Option.some.inj hown
        obtain ⟨tip', htip', ref, href, hin⟩ := contained
        obtain rfl := Option.some.inj (htip.symm.trans htip')
        right
        exact ⟨ref, href, hin⟩
      · apply Refs.keepsWithout_tip htip (Ne.symm hdoomed)
  | nothing clone' silent => cases clone'

/-- A deletion of a worktree that went through loses nothing exactly when it spares what it did
not ask about. -/
theorem lossless_iff_spared {stillRemovable : Bool} (h : w.Worktree row.path clone r)
    (ok : (deleteInspectedIf fails G w row false stillRemovable).2 = .ok true) :
  Lossless G clone r (deleteInspectedIf fails G w row false stillRemovable).1
    ↔ Spared fails G w clone r row
  := by
  have deleted := deleted_of_ok h (Prod.ext rfl ok)
  rw [deleted.lossless_iff h]
  constructor
  · rintro ⟨head, branches⟩
    constructor
    · intro c hhead _
      apply head
      rw [hhead]
      rfl
    · intro branch tip hdoomed hbranch _
      apply branches branch tip hdoomed hbranch
  · intro spared
    have hhead : ∀ tip ∈ clone.refs.commitOf r.head,
        clone.refs.KeepsWithout G (doomed fails w clone row) tip := by
      intro tip htip
      cases deleted with
      | unlisted unknown left =>
          have hdoomed : doomed fails w clone row = none := by
            rw [doomed, unknown]
          cases hhead : r.head with
          | detached c =>
              rw [hhead] at htip
              cases htip
              apply spared.detached tip hhead (Or.inl unknown)
          | attached branch =>
              rw [hhead] at htip
              rw [hdoomed]
              apply Refs.keepsWithout_tip htip
              nofun
      | checked known pushed left =>
          rw [h.checkout] at pushed
          apply spared.head_kept (evidence_of_not_unpushed pushed) htip
    refine ⟨hhead, ?_⟩
    intro branch tip hdoomed hbranch
    by_cases hon : r.head = .attached branch
    · rw [← hdoomed]
      apply hhead
      rw [hon]
      apply hbranch
    · apply spared.drifted branch tip hdoomed hbranch (Or.inl hon)

end Delete

/-! ### Two deletions

The worktree of a pushed branch, where it was inspected and after HEAD has left the branch. -/

/-- No command fails. -/
def noneFails : Probe → Bool := fun _ => false

theorem topic_worktree :
  (topicWorld none (some topicDir)).Worktree pushedRow.path (bareClone none) (topic none)
  := ⟨rfl, rfl, topicDir, true, rfl, rfl⟩

theorem pushedRow_branch :
  pushedRow.branch = some "topic"
  := by
  decide +kernel

/-- The worktree of a pushed branch is deleted, and nothing is lost. -/
theorem lossless_pushedRow :
  (deleteInspectedIf noneFails line (topicWorld none (some topicDir)) pushedRow false true).2
      = .ok true
    ∧ Lossless line (bareClone none) (topic none)
      (deleteInspectedIf noneFails line (topicWorld none (some topicDir)) pushedRow false true).1
  := by
  have ok : (deleteInspectedIf noneFails line (topicWorld none (some topicDir)) pushedRow false
      true).2 = .ok true := by
    decide +kernel
  refine ⟨ok, (lossless_iff_spared topic_worktree ok).mpr ?_⟩
  constructor
  · nofun
  · intro branch tip hdoomed _ asked
    obtain rfl : "topic" = branch :=
      Option.some.inj (pushedRow_branch.symm.trans (doomed_eq_some hdoomed))
    obtain hoff | hown | hmain := asked
    · exact absurd rfl hoff
    · cases hown
    · exact absurd hmain (by decide)

/-- The worktree, with a commit on top of the branch that is on no branch. -/
def detachedTopic : Registration ℕ := { topic none with head := .detached 2 }

def detachedClone : Clone ℕ :=
  { bareClone none with
    registrations := [detachedTopic]
    elsewhere := by
      intro r hr
      rw [List.mem_singleton.mp hr]
      apply (bareClone none).elsewhere (topic none) (List.mem_singleton_self _) }

def detachedWorld : World ℕ :=
  { topicWorld none (some topicDir) with
    clones := [detachedClone]
    distinct := List.nodup_singleton _ }

/-- Once HEAD has left the branch of the row, the tip of the branch is asked about, and the commit
of HEAD is lost. -/
theorem detached_commit_lost :
  detachedWorld.Worktree pushedRow.path detachedClone detachedTopic
    ∧ (deleteInspectedIf noneFails line detachedWorld pushedRow false true).2 = .ok true
    ∧ ¬Lossless line detachedClone detachedTopic
      (deleteInspectedIf noneFails line detachedWorld pushedRow false true).1
  := by
  have worktree : detachedWorld.Worktree pushedRow.path detachedClone detachedTopic :=
    ⟨rfl, rfl, topicDir, true, rfl, rfl⟩
  have ok : (deleteInspectedIf noneFails line detachedWorld pushedRow false true).2 = .ok true := by
    decide +kernel
  refine ⟨worktree, ok, ?_⟩
  intro lossless
  have deleted := deleted_of_ok worktree (Prod.ext rfl ok)
  obtain ⟨head, -⟩ := (deleted.lossless_iff worktree).mp lossless
  obtain ⟨other, tip, -, htip, hin⟩ | ⟨ref, href, hin⟩ := head 2 rfl
  · change pushedRefs.heads other = some tip at htip
    rw [pushedRefs] at htip
    dsimp only at htip
    split at htip
    · obtain rfl := Option.some.inj htip
      exact absurd hin (by decide)
    · obtain rfl := Option.some.inj htip
      exact absurd hin (by decide)
    · cases htip
  · have hremotes : ∀ ref ∈ pushedRefs.remotes, 2 ∉ line.ancestors ref.2 := by
      decide
    exact absurd hin (hremotes ref href)

end Lazybox.GitOps
