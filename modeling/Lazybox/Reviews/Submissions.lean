import Lazybox.Reviews.Retention

/-!
# Submissions of reviews

A submission that holds the lock from before it takes its number to after it wrote finds the store
as it was when it took it.  So ids of a workspace are distinct, and the last artifacts of each are
kept, however submissions overlap.  Without the lock two of them can take the same number.
-/

namespace Lazybox.Reviews

open Store

variable {toJson : Artifact → String}

/-- The artifacts of a workspace that were saved, in order. -/
def savedIn (os : List Obs) (space : Space) (workspace : String) : List Artifact :=
  os.filterMap fun
    | .saved space' a => if space = space' ∧ workspace = a.workspace then some a else none

theorem savedIn_concat (os : List Obs) (space : Space) (a : Artifact) :
  savedIn (os ++ [.saved space a]) = addTo (savedIn os) space a
  := by
  funext space' workspace
  rw [savedIn, List.filterMap_append, addTo]
  split
  · next h =>
      rw [List.filterMap_cons_some (b := a)]
      · rfl
      · apply if_pos h
  · next h =>
      rw [List.filterMap_cons_none, List.filterMap_nil, List.append_nil]
      · rfl
      · apply if_neg h

namespace Server

/-- No submission is under way. -/
def new (t : Table) : Server where
  store := t
  reviewsWrite := none
  calls := fun _ => .unknown

/-- What the store is for, along a run from a table: the ids of a workspace are distinct, its last
artifacts are kept, oldest first, and its rows change only when one of its own is saved. -/
structure Durable (toJson : Artifact → String) (guarded : Bool) (t : Table) (as : List Act) :
    Prop where
  distinct : ∀ space workspace,
    ((savedIn ((machine toJson guarded).trace (new t) as) space workspace).map (·.id)).Nodup
  recent : ∀ space workspace,
    (Sqlite.listKvPrefix ((machine toJson guarded).final (new t) as).store
        (space.prefixOf workspace)).map Prod.snd
      = ((savedIn ((machine toJson guarded).trace (new t) as) space workspace).map toJson).drop
          ((savedIn ((machine toJson guarded).trace (new t) as) space workspace).length
            - space.perWorkspace)
  apart : ∀ before a after, as = before ++ a :: after → ∀ space workspace key,
    Under space workspace key →
    ((machine toJson guarded).final (new t) (before ++ [a])).store.select key
      ≠ ((machine toJson guarded).final (new t) before).store.select key →
    ∃ artifact, artifact.workspace = workspace ∧ .saved space artifact
      ∈ (machine toJson guarded).emit ((machine toJson guarded).final (new t) before) a

/-! ### The invariant -/

/-- The call holds the lock. -/
def holds : Call → Bool
  | .locked _ _ | .allocated _ _ _ | .pruned _ _ _ => true
  | _ => false

/-- What a call read is what it would read now. -/
def Current (t : Table) : Call → Prop
  | .allocated space workspace id => id = space.nextId t workspace
  | .pruned space a keys =>
      a.id = space.nextId t a.workspace
        ∧ keys = pruneKeys t (space.prefixOf a.workspace) space.perWorkspace
  | _ => True

theorem calls_setCall (s : Server) {i : ℕ} {call : Call} (P : ℕ → Call → Prop) :
  (∀ j, P j ((s.setCall i call).calls j)) ↔ P i call ∧ ∀ j, j ≠ i → P j (s.calls j)
  := Function.forall_update_iff s.calls P

structure Sound (toJson : Artifact → String) (s : Server) (os : List Obs) : Prop where
  retains : Retains toJson s.store (savedIn os)
  locks : ∀ i, holds (s.calls i) = true → s.reviewsWrite = some i
  current : ∀ i, Current s.store (s.calls i)

section Parts

variable {s : Server} {os : List Obs} (hs : Sound toJson s os)
include hs

/-- A call that holds the lock goes on. -/
theorem Sound.setCall {i : ℕ} {call : Call} (holder : s.reviewsWrite = some i)
    (current : Current s.store call) :
  Sound toJson (s.setCall i call) os
  := by
  constructor
  · apply hs.retains
  · apply (s.calls_setCall fun j call => holds call = true → _ = some j).mpr
    constructor
    · intro _
      apply holder
    · intro j _
      apply hs.locks j
  · apply (s.calls_setCall fun _ call => Current _ call).mpr
    constructor
    · apply current
    · intro j _
      apply hs.current j

/-- A call that holds the lock ends with the store as it is. -/
theorem Sound.finish {i : ℕ} (holder : s.reviewsWrite = some i) :
  Sound toJson (s.finish i) os
  := by
  constructor
  · apply hs.retains
  · apply (s.calls_setCall fun j call => holds call = true → _ = some j).mpr
    constructor
    · intro hended
      cases hended
    · intro j hji hj
      have hlock := hs.locks j hj
      rw [holder, Option.some.injEq] at hlock
      cases hji hlock.symm
  · apply (s.calls_setCall fun _ call => Current _ call).mpr
    constructor
    · trivial
    · intro j _
      apply hs.current j

/-- The call that holds the lock is the only one that read something. -/
theorem Sound.current_of_ne {i j : ℕ} (holder : s.reviewsWrite = some i) (hji : j ≠ i) (t : Table) :
  Current t (s.calls j)
  := by
  have hnot : holds (s.calls j) = false := by
    rw [Bool.eq_false_iff]
    intro hj
    have hlock := hs.locks j hj
    rw [holder, Option.some.injEq] at hlock
    apply hji hlock.symm
  cases hcall : s.calls j with
  | unknown | locked space workspace | ended => trivial
  | allocated space workspace id =>
    rw [hcall] at hnot
    cases hnot
  | pruned space a keys =>
    rw [hcall] at hnot
    cases hnot

end Parts

/-- The workspaces have fewer artifacts than there are numbers of twelve digits. -/
def Few (os : List Obs) : Prop :=
  ∀ space workspace, (savedIn os space workspace).length < 10 ^ seqWidth

variable {os : List Obs}

theorem Few.of_append {new : List Obs} (h : Few (os ++ new)) :
  Few os
  := by
  intro space workspace
  apply lt_of_le_of_lt _ (h space workspace)
  rw [savedIn, savedIn, List.filterMap_append, List.length_append]
  omega

theorem Sound.of_nil {s : Server} (hs : Sound toJson s os) :
  Sound toJson s (os ++ [])
  := by
  rw [List.append_nil]
  apply hs

/-- The write of a submission that holds the lock. -/
theorem write_pruned {s : Server} (hs : Sound toJson s os) (few : Few os) {i : ℕ} {space : Space}
    {a : Artifact} {keys : List String} (call : s.calls i = .pruned space a keys) :
  s.step toJson true (.write i true)
      = ({ s.finish i with store := (space.write toJson s.store a keys).1 }, [.saved space a])
    ∧ Sound toJson { s.finish i with store := (space.write toJson s.store a keys).1 }
        (os ++ [.saved space a])
    ∧ ∀ key, ¬ Under space a.workspace key →
        (space.write toJson s.store a keys).1.select key = s.store.select key
  := by
  have hcurrent := hs.current i
  have hholder : s.reviewsWrite = some i := by
    apply hs.locks i
    rw [call]
    rfl
  rw [call] at hcurrent
  obtain ⟨hid, rfl⟩ := hcurrent
  obtain ⟨hdone, hretains, hother⟩ := hs.retains.write (few space a.workspace) hid
  rw [← savedIn_concat] at hretains
  refine ⟨?_, ⟨hretains, (hs.finish hholder).locks, ?_⟩, hother⟩
  · rw [step]
    simp only [call, if_true]
    generalize space.write toJson s.store a _ = w at hdone
    obtain ⟨t, result⟩ := w
    obtain rfl : result = .ok () := hdone
    rfl
  · apply (s.calls_setCall fun _ call => Current _ call).mpr
    constructor
    · trivial
    · intro j hji
      apply hs.current_of_ne hholder hji

/-- What a step keeps, and which rows it changes. -/
theorem sound_step {s : Server} (hs : Sound toJson s os) (few : Few os) (a : Act) :
  Sound toJson (s.step toJson true a).1 (os ++ (s.step toJson true a).2)
    ∧ ∀ space workspace key, Under space workspace key →
      (s.step toJson true a).1.store.select key ≠ s.store.select key →
      ∃ artifact, artifact.workspace = workspace
        ∧ .saved space artifact ∈ (s.step toJson true a).2
  := by
  have hsame : ∀ {s' : Server}, Sound toJson s' os → s'.store = s.store →
      Sound toJson s' (os ++ []) ∧ ∀ space workspace key, Under space workspace key →
        s'.store.select key ≠ s.store.select key →
        ∃ artifact : Artifact, artifact.workspace = workspace
          ∧ Obs.saved space artifact ∈ ([] : List Obs) := by
    intro s' hs' hstore
    constructor
    · apply hs'.of_nil
    · intro space workspace key _ hchanged
      rw [hstore] at hchanged
      cases hchanged rfl
  have hholder : ∀ {i call}, s.calls i = call → holds call = true → s.reviewsWrite = some i := by
    rintro i call rfl hcall
    apply hs.locks i hcall
  cases a with
  | lock i space workspace =>
    simp only [step]
    split
    · next hfree =>
        have hnone : s.reviewsWrite = none := hfree.2 trivial
        refine hsame ?_ rfl
        constructor
        · apply hs.retains
        · apply (s.calls_setCall fun j call => holds call = true → _ = some j).mpr
          constructor
          · intro _
            rfl
          · intro j _ hj
            have hlock := hs.locks j hj
            rw [hnone] at hlock
            cases hlock
        · apply (s.calls_setCall fun _ call => Current _ call).mpr
          constructor
          · trivial
          · intro j _
            apply hs.current j
    · apply hsame hs rfl
  | allocate i ok =>
    simp only [step]
    split
    · next space workspace hcall =>
        have hlock := hholder hcall rfl
        split
        · refine hsame (hs.setCall hlock ?_) rfl
          rfl
        · apply hsame (hs.finish hlock) rfl
    · apply hsame hs rfl
  | prune i content ok =>
    simp only [step]
    split
    · next space workspace id hcall =>
        have hlock := hholder hcall rfl
        have hcurrent := hs.current i
        rw [hcall] at hcurrent
        split
        · refine hsame (hs.setCall hlock ?_) rfl
          exact ⟨hcurrent, rfl⟩
        · apply hsame (hs.finish hlock) rfl
    · apply hsame hs rfl
  | write i ok =>
    cases hcall : s.calls i with
    | pruned space a keys =>
      have hlock := hholder hcall rfl
      cases ok with
      | false =>
        simp only [step, hcall, Bool.false_eq_true, if_false]
        apply hsame (hs.finish hlock) rfl
      | true =>
        obtain ⟨hstep, hsound, hother⟩ := write_pruned hs few hcall
        rw [hstep]
        constructor
        · apply hsound
        · intro space' workspace key hunder hchanged
          have hunder' : Under space a.workspace key := by
            by_contra hnot
            apply hchanged (hother key hnot)
          obtain ⟨rfl, rfl⟩ := under_unique hunder hunder'
          exact ⟨a, rfl, List.mem_singleton_self _⟩
    | unknown | locked space workspace | allocated space workspace id | ended =>
      simp only [step, hcall]
      apply hsame hs rfl
  | abandon i =>
    simp only [step]
    split
    · next hcall =>
        apply hsame (hs.finish (hholder hcall rfl)) rfl
    · next hcall =>
        apply hsame (hs.finish (hholder hcall rfl)) rfl
    · apply hsame hs rfl

/-! ### The runs -/

section Runs

variable {t : Table} (clear : ∀ space key,
  (Space.kvPrefix space).toList <+: String.toList key → t.select key = none)
include clear

theorem sound_new :
  Sound toJson (new t) []
  := by
  constructor
  · constructor
    · intro space workspace
      rfl
    · intro space workspace key value hunder
      have hnone : t.select key = none := by
        apply clear space
        rw [Under, toList_prefixOf] at hunder
        apply (List.prefix_append _ _).trans hunder
      change t.select key = some value ↔ _
      rw [hnone]
      constructor
      · intro h
        cases h
      · intro h
        cases List.mem_of_mem_drop h
  · intro i hi
    cases hi
  · intro i
    trivial

theorem sound_of_few {as : List Act} (few : Few ((machine toJson true).trace (new t) as)) :
  Sound toJson ((machine toJson true).final (new t) as) ((machine toJson true).trace (new t) as)
  := by
  revert few
  apply (machine toJson true).invariant (P := fun _ _ => True)
    (I := fun s os => Few os → Sound toJson s os)
  · intro _
    apply sound_new clear
  · intro s os a _ hs few
    apply (sound_step (hs few.of_append) few.of_append a).1
  · apply Machine.along_of_forall
    intro s a
    trivial

/-- Submissions that hold the lock keep what the store is for, in a store that has no reviews yet
and as long as the numbers of a workspace have twelve digits. -/
theorem durable_of_few {as : List Act} (few : Few ((machine toJson true).trace (new t) as)) :
  Durable toJson true t as
  := by
  have hs := sound_of_few clear few
  constructor
  · intro space workspace
    rw [hs.retains.ids]
    apply List.Nodup.map _ List.nodup_range'
    intro m n h
    have htext := String.ofList_injective h
    rw [List.cons.injEq] at htext
    have hvalue := congrArg (Nat.ofDigitChars 10 · 0) htext.2
    simpa using hvalue
  · intro space workspace
    rw [hs.retains.listed space workspace (few space workspace), Space.kept, List.map_drop]
    congr 1
    generalize savedIn _ space workspace = saved
    induction saved using List.reverseRecOn with
    | nil => rfl
    | append_singleton saved a ih =>
        rw [rowsOf_concat, List.map_append, ih, List.map_append]
        rfl
  · rintro before a after rfl space workspace key hunder hchanged
    rw [Machine.trace_append] at few
    rw [Machine.final_append] at hchanged
    apply (sound_step (sound_of_few clear few.of_append) few.of_append a).2 space workspace key
      hunder hchanged

end Runs

/-- Two submissions for one workspace.  Where there is no lock, the second takes its number before
the first is written. -/
def overlap : List Act :=
  [.lock 0 .report "w", .allocate 0 true, .lock 1 .report "w", .allocate 1 true,
    .prune 0 "first" true, .write 0 true, .prune 1 "second" true, .write 1 true]

theorem overlap_durable :
  Durable Artifact.content true .empty overlap
  := by
  apply durable_of_few
  · intro space key _
    rfl
  · intro space workspace
    have htrace : (machine Artifact.content true).trace (new .empty) overlap
        = [.saved .report ⟨"r1", "w", "first"⟩] := by
      decide +kernel
    rw [htrace]
    apply lt_of_le_of_lt (List.length_filterMap_le _ _)
    decide

/-- Without the lock two submissions take one number, and the second is written over the first. -/
theorem overlap_overwrites :
  ¬Durable Artifact.content false .empty overlap
  := by
  intro h
  have hdistinct := h.distinct .report "w"
  have htrace : (machine Artifact.content false).trace (new .empty) overlap
      = [.saved .report ⟨"r1", "w", "first"⟩, .saved .report ⟨"r1", "w", "second"⟩] := by
    decide +kernel
  rw [htrace] at hdistinct
  revert hdistinct
  decide +kernel

end Server

end Lazybox.Reviews
