import Lazybox.Store.Sqlite

/-!
# The in-memory store

The entries of a hash map, in the order it goes through them.  A prefix is listed by a filter, and
a batch is resolved into operations on the map before the first of them is made.
-/

namespace Lazybox.Store

structure HashMap where
  entries : List (String × String)
  distinct : (entries.map Prod.fst).Nodup

namespace HashMap

def new : HashMap := ⟨[], List.nodup_nil⟩

def get (m : HashMap) (key : String) : Option String :=
  (Keyed.lookup Prod.fst key m.entries).map Prod.snd

def remove (m : HashMap) (key : String) : HashMap where
  entries := Keyed.erase Prod.fst key m.entries
  distinct := m.distinct.sublist (List.filter_sublist.map _)

def insert (m : HashMap) (key value : String) : HashMap where
  entries := (key, value) :: (m.remove key).entries
  distinct := by
    rw [List.map_cons, List.nodup_cons]
    constructor
    · simp [remove, Keyed.erase]
    · apply (m.remove key).distinct

/-- `entry(key).or_insert_with(..)`, and the value that is there then. -/
def entryOrInsert (m : HashMap) (key value : String) : HashMap × String :=
  match m.get key with
  | some found => (m, found)
  | none => (m.insert key value, value)

variable {m : HashMap} {key value : String}

theorem mem_entries :
  (key, value) ∈ m.entries ↔ m.get key = some value
  := Table.mem_rows (t := ⟨m.entries, m.distinct⟩)

theorem get_remove (m : HashMap) (key : String) :
  (m.remove key).get = Rows.delete m.get key
  := Table.select_delete ⟨m.entries, m.distinct⟩ key

theorem get_insert (m : HashMap) (key value : String) :
  (m.insert key value).get = Rows.set m.get key value
  := by
  funext k
  have hremove := congrFun (m.get_remove key) k
  rw [get, insert, Keyed.lookup_cons, Rows.set, Function.update_apply]
  split
  · next h => rw [if_pos h.symm, Option.map_some]
  · next h =>
      rw [if_neg fun heq => h heq.symm]
      rw [get, Rows.delete, Function.update_apply, if_neg fun heq => h heq.symm] at hremove
      apply hremove

end HashMap

/-! ### The backend -/

namespace Memory

/-- What a mutation does to the map. -/
inductive Op where
  | insert (key value : String)
  | remove (key : String)

def resolve : StoreMutation → Except StoreError Op
  | .setKv key value => .ok (.insert key value)
  | .deleteKv key => .ok (.remove key)
  | .save kind record =>
      (record.requireJson kind).map fun json => .insert (kind.key record.key) json
  | .delete kind key => .ok (.remove (kind.key key))

def apply (m : HashMap) : Op → HashMap
  | .insert key value => m.insert key value
  | .remove key => m.remove key

def applyBatch (m : HashMap) (mutations : List StoreMutation) :
    HashMap × Except StoreError Unit :=
  commit m ((mutations.mapM resolve).map fun ops => ops.foldl apply m)

def listKvPrefix (m : HashMap) (keyPrefix : String) : List (String × String) :=
  orderByKey (m.entries.filter fun entry => keyPrefix.toList.isPrefixOf entry.1.toList)

variable (createdAtOrOldest : String → Instant)

/-- The records under a prefix, which is stripped.  Empty payloads are skipped. -/
def listRecords (kind : Kind) (m : HashMap) : List Record :=
  m.entries.filterMap fun entry =>
    (stripPrefix kind.keyPrefix entry.1).bind fun stripped =>
      if entry.2 = "" then none
      else some ⟨stripped, createdAtOrOldest entry.2, some entry.2⟩

def listWorkspaces : HashMap → List Record := listRecords createdAtOrOldest .workspace

def listProjects : HashMap → List Record := listRecords createdAtOrOldest .project

end Memory

/-- The store of the tests. -/
def memory (createdAtOrOldest : String → Instant) : Backend HashMap where
  applyBatch := Memory.applyBatch
  getKv := HashMap.get
  setKv := HashMap.insert
  setKvIfAbsent := HashMap.entryOrInsert
  deleteKv := HashMap.remove
  listKvPrefix := Memory.listKvPrefix
  listRecords
    | .workspace => Memory.listWorkspaces createdAtOrOldest
    | .project => Memory.listProjects createdAtOrOldest

/-! ### The backend is lawful -/

/-- Resolving the mutations and making them is making them on the rows. -/
theorem mapM_resolve (m : HashMap) (mutations : List StoreMutation) :
  ((mutations.mapM Memory.resolve).map fun ops => ops.foldl Memory.apply m).map HashMap.get
    = Rows.mutateAll m.get mutations
  := by
  rw [Rows.mutateAll]
  induction mutations generalizing m with
  | nil => rfl
  | cons mutation mutations ih =>
    have hm : (Memory.resolve mutation).map (fun op => (Memory.apply m op).get)
        = Rows.mutate m.get mutation := by
      cases mutation with
      | setKv key value =>
        simp [Memory.resolve, Memory.apply, Rows.mutate, Except.map, HashMap.get_insert]
      | deleteKv key =>
        simp [Memory.resolve, Memory.apply, Rows.mutate, Except.map, HashMap.get_remove]
      | save kind record =>
        rw [Memory.resolve, Rows.mutate]
        cases record.requireJson kind with
        | error e => rfl
        | ok json => simp [Except.map, Memory.apply, HashMap.get_insert]
      | delete kind key =>
        simp [Memory.resolve, Memory.apply, Rows.mutate, Except.map, HashMap.get_remove]
    rw [List.mapM_cons, List.foldlM_cons, ← hm]
    cases Memory.resolve mutation with
    | error e => rfl
    | ok op =>
      change _ = mutations.foldlM Rows.mutate (Memory.apply m op).get
      rw [← ih]
      cases mutations.mapM Memory.resolve with
      | error e => rfl
      | ok ops => rfl

theorem memory_lawful (createdAtOrOldest : String → Instant) :
  (memory createdAtOrOldest).Lawful
  := by
  constructor
  · apply HashMap.get_insert
  · apply HashMap.get_remove
  · intro m key value
    change (m.entryOrInsert key value).1.get = Rows.set m.get key ((m.get key).getD value)
    rw [HashMap.entryOrInsert]
    cases hget : m.get key with
    | some found =>
      dsimp only
      rw [Option.getD_some, Rows.set, ← hget, Function.update_eq_self]
    | none => apply HashMap.get_insert
  · intro m key value
    change (m.entryOrInsert key value).2 = (m.get key).getD value
    rw [HashMap.entryOrInsert]
    cases m.get key with
    | some found => rfl
    | none => rfl
  · intro m keyPrefix key value
    change (key, value) ∈ Memory.listKvPrefix m keyPrefix ↔ _ ∧ m.get key = some value
    rw [← HashMap.mem_entries, Memory.listKvPrefix, orderByKey, List.mem_mergeSort,
      List.mem_filter, List.isPrefixOf_iff_prefix, and_comm]
  · intro m mutations rows h
    apply commit_eq_ok
    apply (mapM_resolve m mutations).trans h
  · intro m mutations e h
    apply commit_eq_error
    apply (mapM_resolve m mutations).trans h

end Lazybox.Store
