import Lazybox.Reviews.Keys

/-!
# What is kept of reviews

A workspace has a list of saved artifacts, numbered from one, and the store has the rows of the
last of them.  A write which carries the next number, and deletes what is to be deleted when it is
made, keeps this.
-/

namespace Lazybox.Reviews

open Store

variable {toJson : Artifact → String}

/-! ### Rows -/

section Rows

variable (toJson)

/-- The rows of artifacts numbered from one. -/
def rowsOf (keyPrefix : String) (saved : List Artifact) : List (String × String) :=
  (saved.zipIdx 1).map fun (a, seq) => (rowKey keyPrefix seq, toJson a)

/-- The rows of the last artifacts of a workspace. -/
def Space.kept (space : Space) (workspace : String) (saved : List Artifact) :
    List (String × String) :=
  (rowsOf toJson (space.prefixOf workspace) saved).drop (saved.length - space.perWorkspace)

end Rows

variable (keyPrefix : String)

@[simp] theorem length_rowsOf (saved : List Artifact) :
  (rowsOf toJson keyPrefix saved).length = saved.length
  := by
  rw [rowsOf, List.length_map, List.length_zipIdx]

theorem rowsOf_concat (saved : List Artifact) (a : Artifact) :
  rowsOf toJson keyPrefix (saved ++ [a])
    = rowsOf toJson keyPrefix saved ++ [(rowKey keyPrefix (saved.length + 1), toJson a)]
  := by
  rw [rowsOf, List.zipIdx_append, List.map_append, Nat.add_comm 1]
  rfl

theorem keys_rowsOf (saved : List Artifact) :
  (rowsOf toJson keyPrefix saved).map Prod.fst
    = (List.range' 1 saved.length).map (rowKey keyPrefix)
  := by
  induction saved using List.reverseRecOn with
  | nil => rfl
  | append_singleton saved a ih =>
    rw [rowsOf_concat, List.map_append, ih, List.length_append, List.length_singleton,
      List.range'_concat, List.map_append, one_mul, Nat.add_comm 1]
    rfl

theorem nodup_keys_rowsOf (saved : List Artifact) :
  ((rowsOf toJson keyPrefix saved).map Prod.fst).Nodup
  := by
  rw [keys_rowsOf]
  apply List.Nodup.map (rowKey_injective keyPrefix) List.nodup_range'

theorem ascending_rowsOf {saved : List Artifact} (few : saved.length < 10 ^ seqWidth) :
  (rowsOf toJson keyPrefix saved).Pairwise fun a b => below a.1 b.1
  := by
  rw [← List.pairwise_map (f := Prod.fst) (R := fun a b => below a b), keys_rowsOf,
    List.pairwise_map]
  apply List.Pairwise.imp_of_mem _ List.pairwise_lt_range'
  intro m n _ hn hmn
  apply below_rowKey keyPrefix hmn
  rw [List.mem_range'_1] at hn
  omega

theorem under_of_mem_kept {space : Space} {workspace : String} {saved : List Artifact}
    {row : String × String} (h : row ∈ space.kept toJson workspace saved) :
  Under space workspace row.1
  := by
  have hkey := List.mem_map_of_mem (f := Prod.fst) (List.mem_of_mem_drop h)
  rw [keys_rowsOf] at hkey
  obtain ⟨seq, -, hseq⟩ := List.mem_map.mp hkey
  rw [← hseq]
  apply under_rowKey

/-- Of rows some are dropped from the front, and one is added. -/
theorem mem_rest_concat {gone rest : List (String × String)} {new : String × String}
    (distinct : ((gone ++ rest ++ [new]).map Prod.fst).Nodup) (key value : String) :
  (key, value) ∈ rest ++ [new]
    ↔ key ∉ gone.map Prod.fst
      ∧ if key = new.1 then value = new.2 else (key, value) ∈ gone ++ rest
  := by
  rw [List.map_append, List.map_append, List.nodup_append, List.nodup_append] at distinct
  obtain ⟨⟨-, -, hgone⟩, -, hnew⟩ := distinct
  have hnew' : ∀ k ∈ gone.map Prod.fst ++ rest.map Prod.fst, k ≠ new.1 := by
    intro k hk
    apply hnew k hk
    apply List.mem_cons_self
  split
  · next hkey =>
      rw [List.mem_append, List.mem_singleton]
      constructor
      · rintro (hrest | rfl)
        · exfalso
          apply hnew' key _ hkey
          apply List.mem_append_right
          apply List.mem_map_of_mem (f := Prod.fst) hrest
        · constructor
          · intro hmem
            apply hnew' key (List.mem_append_left _ hmem) hkey
          · rfl
      · rintro ⟨-, hvalue⟩
        right
        rw [hkey, hvalue]
  · next hkey =>
      rw [List.mem_append, List.mem_singleton, List.mem_append]
      constructor
      · rintro (hrest | hnew)
        · constructor
          · intro hmem
            apply hgone key hmem key _ rfl
            apply List.mem_map_of_mem (f := Prod.fst) hrest
          · right
            apply hrest
        · rw [← hnew] at hkey
          cases hkey rfl
      · rintro ⟨hmem, hold | hrest⟩
        · cases hmem (List.mem_map_of_mem (f := Prod.fst) hold)
        · left
          apply hrest

/-! ### Writes -/

/-- The artifacts of a workspace which a table keeps. -/
structure Retains (toJson : Artifact → String) (t : Table)
    (saved : Space → String → List Artifact) : Prop where
  ids : ∀ space workspace, (saved space workspace).map (·.id)
    = (List.range' 1 (saved space workspace).length).map (artifactId space.prefixChar)
  rows : ∀ space workspace key value, Under space workspace key →
    (t.select key = some value ↔ (key, value) ∈ space.kept toJson workspace (saved space workspace))

section Writes

variable {t : Table} {saved : Space → String → List Artifact} (ht : Retains toJson t saved)
  (space : Space) (workspace : String)
  (few : (saved space workspace).length < 10 ^ seqWidth)
include ht few

/-- The rows of a workspace are listed in the order they were saved. -/
theorem Retains.listed :
  Sqlite.listKvPrefix t (space.prefixOf workspace)
    = space.kept toJson workspace (saved space workspace)
  := by
  apply listKvPrefix_eq
  · apply List.Pairwise.sublist (List.drop_sublist _ _) (ascending_rowsOf _ few)
  · intro key value
    constructor
    · intro hrow
      have hunder := under_of_mem_kept hrow
      exact ⟨hunder, (ht.rows space workspace key value hunder).mpr hrow⟩
    · rintro ⟨hunder, hrow⟩
      apply (ht.rows space workspace key value hunder).mp hrow

theorem Retains.nextSeq :
  nextSeq t (space.prefixOf workspace) = (saved space workspace).length + 1
  := by
  have hkept := ht.listed space workspace few
  generalize saved space workspace = l at hkept few
  have hwidth : 10 ^ seqWidth < 18446744073709551616 := by
    decide
  have hseqs : (Sqlite.listKvPrefix t (space.prefixOf workspace)).filterMap
      (fun row => parseU64 (lastSegment row.1))
        = (List.range' 1 l.length).drop (l.length - space.perWorkspace) := by
    have hkeys := List.filterMap_map (l := space.kept toJson workspace l) (f := Prod.fst)
      (g := fun key => parseU64 (lastSegment key))
    rw [Space.kept, List.map_drop, keys_rowsOf, ← List.map_drop, List.filterMap_map] at hkeys
    rw [hkept]
    apply hkeys.symm.trans
    apply Eq.trans (List.filterMap_congr _) List.filterMap_some
    intro seq hseq
    have hmem := List.mem_of_mem_drop hseq
    rw [List.mem_range'_1] at hmem
    rw [Function.comp_apply, lastSegment_rowKey, parseU64_padded]
    omega
  have hmax : ((List.range' 1 l.length).drop (l.length - space.perWorkspace)).max?
      = if l.length = 0 then none else some l.length := by
    have hcap : 0 < space.perWorkspace := by
      cases space <;> decide
    split
    · next hnil => simp [hnil]
    · next hnil =>
        rw [List.max?_eq_some_iff, List.drop_range']
        constructor
        · rw [List.mem_range'_1]
          omega
        · intro seq hseq
          rw [List.mem_range'_1] at hseq
          omega
  rw [Reviews.nextSeq]
  simp only [hseqs, hmax]
  split
  · next h =>
      split at h
      · omega
      · cases h
  · next max h =>
      split at h
      · cases h
      · rw [Option.some.inj h]

theorem Retains.nextId :
  space.nextId t workspace = artifactId space.prefixChar ((saved space workspace).length + 1)
  := by
  rw [Space.nextId, ht.nextSeq space workspace few]

theorem Retains.pruneKeys :
  pruneKeys t (space.prefixOf workspace) space.perWorkspace
    = ((space.kept toJson workspace (saved space workspace)).take
        (min (saved space workspace).length space.perWorkspace + 1
          - space.perWorkspace)).map Prod.fst
  := by
  have hsorted : sortKeys ((space.kept toJson workspace (saved space workspace)).map Prod.fst)
      = (space.kept toJson workspace (saved space workspace)).map Prod.fst := by
    apply sortKeys_eq
    rw [List.pairwise_map]
    apply List.Pairwise.sublist (List.drop_sublist _ _) (ascending_rowsOf _ few)
  have hlength : (space.kept toJson workspace (saved space workspace)).length
      = min (saved space workspace).length space.perWorkspace := by
    rw [Space.kept, List.length_drop, length_rowsOf]
    omega
  rw [Reviews.pruneKeys]
  simp only [ht.listed space workspace few, hsorted]
  rw [List.length_map, hlength, List.map_take]

end Writes

theorem foldl_delete (rows : Rows) (keys : List String) (k : String) :
  (keys.foldl Rows.delete rows) k = if k ∈ keys then none else rows k
  := by
  induction keys generalizing rows with
  | nil => rfl
  | cons key keys ih =>
    rw [List.foldl_cons, ih, Rows.delete, Function.update_apply]
    by_cases hk : k ∈ keys
    · rw [if_pos hk, if_pos (List.mem_cons_of_mem _ hk)]
    · rw [if_neg hk]
      simp [hk]

theorem mutateAll_mutations (rows : Rows) (key value : String) (pruned : List String) :
  Rows.mutateAll rows (mutations key value pruned)
    = .ok (pruned.foldl Rows.delete (rows.set key value))
  := by
  rw [mutations, Rows.mutateAll, List.foldlM_cons]
  change (pruned.map StoreMutation.deleteKv).foldlM Rows.mutate (rows.set key value) = _
  generalize rows.set key value = rows
  induction pruned generalizing rows with
  | nil => rfl
  | cons key pruned ih =>
    rw [List.map_cons, List.foldlM_cons, List.foldl_cons]
    apply ih

/-- A write sets one row, and deletes those it is to delete. -/
theorem select_write (space : Space) (t : Table) {a : Artifact} {seq : ℕ} (pruned : List String)
    (h : seqOf a.id space.prefixChar = some seq) :
  (space.write toJson t a pruned).2 = .ok ()
    ∧ ∀ k, (space.write toJson t a pruned).1.select k
      = if k ∈ pruned then none
        else if k = rowKey (space.prefixOf a.workspace) seq then some (toJson a)
        else t.select k
  := by
  simp only [Space.write, h]
  obtain ⟨hrows, hdone⟩ := (sqlite_lawful fun _ => 0).batch t _ _
    (mutateAll_mutations t.select (rowKey (space.prefixOf a.workspace) seq) (toJson a) pruned)
  constructor
  · apply hdone
  · intro k
    have hk := congrFun hrows k
    rw [foldl_delete, Rows.set, Function.update_apply] at hk
    apply hk

/-- One more artifact of its workspace. -/
def addTo (saved : Space → String → List Artifact) (space : Space) (a : Artifact) :
    Space → String → List Artifact :=
  fun space' workspace =>
    if space' = space ∧ workspace = a.workspace then saved space' workspace ++ [a]
    else saved space' workspace

section Write

variable {t : Table} {saved : Space → String → List Artifact} (ht : Retains toJson t saved)
  {space : Space} {a : Artifact} (few : (saved space a.workspace).length < 10 ^ seqWidth)
  (hid : a.id = space.nextId t a.workspace)
include ht few

theorem Retains.under_of_mem_pruneKeys {key : String}
    (h : key ∈ Reviews.pruneKeys t (space.prefixOf a.workspace) space.perWorkspace) :
  Under space a.workspace key
  := by
  rw [ht.pruneKeys space a.workspace few] at h
  obtain ⟨row, hrow, rfl⟩ := List.mem_map.mp h
  apply under_of_mem_kept (List.mem_of_mem_take hrow)

include hid

theorem Retains.seqOf_id :
  seqOf a.id space.prefixChar = some ((saved space a.workspace).length + 1)
  := by
  have hwidth : 10 ^ seqWidth < 18446744073709551616 := by
    decide
  rw [hid, ht.nextId space a.workspace few, seqOf_artifactId]
  omega

/-- A write with the next number succeeds, and the table keeps what it is to keep. -/
theorem Retains.write :
  (space.write toJson t a
      (Reviews.pruneKeys t (space.prefixOf a.workspace) space.perWorkspace)).2 = .ok ()
    ∧ Retains toJson (space.write toJson t a
        (Reviews.pruneKeys t (space.prefixOf a.workspace) space.perWorkspace)).1
      (addTo saved space a)
    ∧ ∀ key, ¬ Under space a.workspace key →
        (space.write toJson t a
          (Reviews.pruneKeys t (space.prefixOf a.workspace) space.perWorkspace)).1.select key
        = t.select key
  := by
  obtain ⟨hdone, hselect⟩ := @select_write toJson space t a _
    (Reviews.pruneKeys t (space.prefixOf a.workspace) space.perWorkspace)
    (ht.seqOf_id few hid)
  have hother : ∀ key, ¬ Under space a.workspace key →
      (space.write toJson t a
        (Reviews.pruneKeys t (space.prefixOf a.workspace) space.perWorkspace)).1.select key
      = t.select key := by
    intro key hkey
    rw [hselect, if_neg, if_neg]
    · rintro rfl
      apply hkey (under_rowKey space a.workspace _)
    · intro hmem
      apply hkey (ht.under_of_mem_pruneKeys few hmem)
  refine ⟨hdone, ⟨?_, ?_⟩, hother⟩
  · intro space' workspace
    rw [addTo]
    split
    · next hsame =>
        obtain ⟨rfl, rfl⟩ := hsame
        rw [List.map_append, ht.ids, List.length_append, List.length_singleton,
          List.range'_concat, List.map_append, one_mul, Nat.add_comm 1, List.map_singleton,
          List.map_singleton, hid, ht.nextId space' a.workspace few]
    · apply ht.ids
  · intro space' workspace key value hunder
    rw [addTo]
    split
    · next hsame =>
        obtain ⟨rfl, rfl⟩ := hsame
        rw [hselect, ht.pruneKeys space' a.workspace few]
        have hrows := ht.rows space' a.workspace key value hunder
        have hcap : 0 < space'.perWorkspace := by
          cases space' <;> decide
        generalize saved space' a.workspace = l at hrows
        -- the rows are those that go, those that stay, and the new one
        have hsplit : ∀ k, k = min l.length space'.perWorkspace + 1 - space'.perWorkspace →
            space'.kept toJson a.workspace (l ++ [a])
            = (space'.kept toJson a.workspace l).drop k
              ++ [(rowKey (space'.prefixOf a.workspace) (l.length + 1), toJson a)] := by
          rintro k rfl
          rw [Space.kept, Space.kept, rowsOf_concat, List.drop_append_of_le_length, List.drop_drop,
            List.length_append, List.length_singleton]
          · congr 2
            omega
          · rw [List.length_append, List.length_singleton, length_rowsOf]
            omega
        rw [hsplit _ rfl]
        generalize min l.length space'.perWorkspace + 1 - space'.perWorkspace = k
        have hmem := fun distinct => @mem_rest_concat
          ((space'.kept toJson a.workspace l).take k) ((space'.kept toJson a.workspace l).drop k)
          (rowKey (space'.prefixOf a.workspace) (l.length + 1), toJson a) distinct key value
        rw [hmem, List.take_append_drop, ← hrows]
        · by_cases hgone : key ∈ ((space'.kept toJson a.workspace l).take k).map Prod.fst
          · rw [if_pos hgone]
            constructor
            · intro h
              cases h
            · rintro ⟨h, -⟩
              cases h hgone
          · simp only [hgone, if_false, not_false_eq_true, true_and]
            split
            · rw [Option.some.injEq, eq_comm]
            · rfl
        · rw [List.take_append_drop, Space.kept]
          have hnodup := @nodup_keys_rowsOf toJson (space'.prefixOf a.workspace) (l ++ [a])
          rw [rowsOf_concat] at hnodup
          apply List.Nodup.sublist _ hnodup
          apply List.Sublist.map
          apply List.Sublist.append_right
          apply List.drop_sublist
    · next hdiffer =>
        rw [hother, ht.rows space' workspace key value hunder]
        intro hsame
        obtain ⟨rfl, rfl⟩ := under_unique hunder hsame
        apply hdiffer ⟨rfl, rfl⟩

end Write

end Lazybox.Reviews
