import Lazybox.Library.Keyed
import Lazybox.Library.PrefixRange
import Lazybox.Store.Traits

/-!
# The SQLite store

The rows of the table `kv`, one for each key, in the order of the table.  Keys are compared byte
by byte, and `LIKE` matches letters up to their case, of ASCII only.  A prefix is listed as a
range of keys, from the prefix to its upper bound.
-/

namespace Lazybox.Store

/-- A table with a primary key. -/
structure Table where
  rows : List (String × String)
  distinct : (rows.map Prod.fst).Nodup

namespace Table

def empty : Table := ⟨[], List.nodup_nil⟩

/-- `SELECT value FROM kv WHERE key = ?` -/
def select (t : Table) (key : String) : Option String :=
  (Keyed.lookup Prod.fst key t.rows).map Prod.snd

/-- `DELETE FROM kv WHERE key = ?` -/
def delete (t : Table) (key : String) : Table where
  rows := Keyed.erase Prod.fst key t.rows
  distinct := t.distinct.sublist (List.filter_sublist.map _)

def setValue (value : String) (row : String × String) : String × String := (row.1, value)

theorem setValue_fst (value : String) (row : String × String) :
  (setValue value row).1 = row.1
  := rfl

/-- `INSERT ... ON CONFLICT(key) DO UPDATE SET value = excluded.value` -/
def upsert (t : Table) (key value : String) : Table where
  rows :=
    if (Keyed.lookup Prod.fst key t.rows).isSome then
      Keyed.modifyFirst Prod.fst key (setValue value) t.rows
    else t.rows ++ [(key, value)]
  distinct := by
    split
    · rw [Keyed.map_modifyFirst (setValue_fst value)]
      apply t.distinct
    · next habsent =>
        rw [List.map_append, List.nodup_append]
        and_intros
        · apply t.distinct
        · apply List.nodup_singleton
        · rintro k hk _ hkey rfl
          rw [List.map_singleton, List.mem_singleton] at hkey
          obtain ⟨row, hrow, rfl⟩ := List.mem_map.mp hk
          rw [Option.not_isSome_iff_eq_none, Keyed.lookup_eq_none] at habsent
          apply habsent row hrow hkey

/-- `INSERT ... ON CONFLICT(key) DO NOTHING` -/
def insertIfAbsent (t : Table) (key value : String) : Table :=
  if (Keyed.lookup Prod.fst key t.rows).isSome then t else t.upsert key value

variable {t : Table} {key value : String}

theorem mem_rows :
  (key, value) ∈ t.rows ↔ t.select key = some value
  := by
  rw [select, Option.map_eq_some_iff]
  constructor
  · intro h
    exact ⟨(key, value), (Keyed.lookup_eq_some_iff t.distinct).mpr ⟨h, rfl⟩, rfl⟩
  · rintro ⟨row, hrow, rfl⟩
    obtain ⟨hmem, rfl⟩ := Keyed.lookup_eq_some hrow
    apply hmem

theorem select_delete (t : Table) (key : String) :
  (t.delete key).select = Rows.delete t.select key
  := by
  funext k
  rw [select, delete, Keyed.lookup_erase, Rows.delete, Function.update_apply]
  split
  · rfl
  · rfl

theorem select_upsert (t : Table) (key value : String) :
  (t.upsert key value).select = Rows.set t.select key value
  := by
  funext k
  rw [select, upsert, Rows.set, Function.update_apply]
  dsimp only
  cases hfound : Keyed.lookup Prod.fst key t.rows with
  | some row =>
    rw [Option.isSome_some, if_pos rfl, Keyed.lookup_modifyFirst (setValue_fst value)]
    split
    · rw [hfound]
      rfl
    · rfl
  | none =>
    rw [Option.isSome_none, if_neg Bool.false_ne_true, Keyed.lookup_append, Keyed.lookup_cons]
    by_cases hk : k = key
    · rw [hk, hfound]
      simp
    · rw [if_neg fun h => hk h.symm, if_neg hk]
      simp [select, Keyed.lookup]

theorem select_insertIfAbsent (t : Table) (key value : String) :
  (t.insertIfAbsent key value).select
    = Rows.set t.select key ((t.select key).getD value)
  := by
  rw [insertIfAbsent]
  cases hfound : Keyed.lookup Prod.fst key t.rows with
  | some row =>
    rw [Option.isSome_some, if_pos rfl]
    have hselect : t.select key = some row.2 := by rw [select, hfound, Option.map_some]
    rw [hselect, Option.getD_some, Rows.set, ← hselect, Function.update_eq_self]
  | none =>
    rw [Option.isSome_none, if_neg Bool.false_ne_true, select_upsert, select, hfound,
      Option.map_none, Option.getD_none]

end Table

/-! ### Patterns and ranges -/

/-- Whether a text matches a pattern of `LIKE`: `%` is any text, `_` any character, and letters
match up to their case. -/
def like : List Char → List Char → Bool
  | [], s => s.isEmpty
  | a :: p, s =>
      if a = '%' then s.tails.any fun rest => like p rest
      else
        match s with
        | [] => false
        | c :: s => (a = '_' || a.toLower = c.toLower) && like p s

/-- Keys are compared byte by byte. -/
def below (a b : String) : Bool := PrefixRange.bytes a.toList < PrefixRange.bytes b.toList

/-- `ORDER BY key` -/
def orderByKey (rows : List (String × String)) : List (String × String) :=
  rows.mergeSort fun a b => !below b.1 a.1

/-- The least string above every string that starts with the prefix. -/
def prefixUpperBound (keyPrefix : String) : Option String :=
  (PrefixRange.upperBound PrefixRange.nextChar keyPrefix.toList).map String.ofList

def stripPrefix (keyPrefix s : String) : Option String :=
  (keyPrefix.toList.isPrefixOf? s.toList).map String.ofList

/-! ### The backend -/

namespace Sqlite

/-- One mutation in the transaction. -/
def execute (t : Table) : StoreMutation → Except StoreError Table
  | .setKv key value => .ok (t.upsert key value)
  | .deleteKv key => .ok (t.delete key)
  | .save kind record =>
      (record.requireJson kind).map fun json => t.upsert (kind.key record.key) json
  | .delete kind key => .ok (t.delete (kind.key key))

/-- The transaction is committed after the last mutation, and dropped when one is refused. -/
def applyBatch (t : Table) (mutations : List StoreMutation) : Table × Except StoreError Unit :=
  commit t (mutations.foldlM execute t)

def setKvIfAbsent (t : Table) (key value : String) : Table × String :=
  let t := t.insertIfAbsent key value
  (t, (t.select key).getD value)

def listKvPrefix (t : Table) (keyPrefix : String) : List (String × String) :=
  match prefixUpperBound keyPrefix with
  | some upper =>
      orderByKey (t.rows.filter fun row => !below row.1 keyPrefix && below row.1 upper)
  | none => orderByKey (t.rows.filter fun row => !below row.1 keyPrefix)

variable (createdAtOrOldest : String → Instant)

/-- `SELECT key, value FROM kv WHERE key LIKE 'workspace:%'`, and the same for projects.  Empty
payloads are skipped, and the prefix is stripped where it is there. -/
def listRecords (kind : Kind) (t : Table) : List Record :=
  (t.rows.filter fun row => like (kind.keyPrefix.toList ++ ['%']) row.1.toList).filterMap
    fun row =>
      if row.2 = "" then none
      else
        let key := (stripPrefix kind.keyPrefix row.1).getD row.1
        some ⟨key, createdAtOrOldest row.2, some row.2⟩

def listWorkspaces : Table → List Record := listRecords createdAtOrOldest .workspace

def listProjects : Table → List Record := listRecords createdAtOrOldest .project

end Sqlite

/-- The SQLite store. -/
def sqlite (createdAtOrOldest : String → Instant) : Backend Table where
  applyBatch := Sqlite.applyBatch
  getKv := Table.select
  setKv := Table.upsert
  setKvIfAbsent := Sqlite.setKvIfAbsent
  deleteKv := Table.delete
  listKvPrefix := Sqlite.listKvPrefix
  listRecords
    | .workspace => Sqlite.listWorkspaces createdAtOrOldest
    | .project => Sqlite.listProjects createdAtOrOldest

/-! ### The backend is lawful -/

theorem below_iff (a b : String) :
  below a b ↔ a.toList < b.toList
  := by
  rw [below, decide_eq_true_iff, PrefixRange.bytes_lt_iff]

/-- A prefix is listed as the range from it to its upper bound. -/
theorem mem_listKvPrefix (t : Table) (keyPrefix key value : String) :
  (key, value) ∈ Sqlite.listKvPrefix t keyPrefix
    ↔ keyPrefix.toList <+: key.toList ∧ t.select key = some value
  := by
  rw [PrefixRange.prefix_iff PrefixRange.covers_nextChar, ← Table.mem_rows]
  unfold Sqlite.listKvPrefix prefixUpperBound orderByKey
  cases PrefixRange.upperBound PrefixRange.nextChar keyPrefix.toList with
  | none => simp [List.mem_mergeSort, ← below_iff, and_comm]
  | some upper =>
    have hupper := below_iff key (String.ofList upper)
    rw [String.toList_ofList] at hupper
    simp [List.mem_mergeSort, ← below_iff, ← hupper, and_comm]

/-- Byte by byte, the keys that start with a prefix are those from it on, below its upper bound if
it has one, and these are the rows a listing finds. -/
theorem prefix_iff_inRange (keyPrefix key : String) :
  (keyPrefix.toList <+: key.toList
      ↔ below key keyPrefix = false
        ∧ ∀ upper, prefixUpperBound keyPrefix = some upper → below key upper = true)
    ∧ ∀ (t : Table) (value : String), (key, value) ∈ Sqlite.listKvPrefix t keyPrefix
      ↔ keyPrefix.toList <+: key.toList ∧ t.select key = some value
  := by
  constructor
  · rw [PrefixRange.prefix_iff PrefixRange.covers_nextChar, ← below_iff, Bool.not_eq_true]
    apply and_congr_right'
    rw [prefixUpperBound]
    constructor
    · intro h upper hupper
      obtain ⟨u, hu, rfl⟩ := Option.map_eq_some_iff.mp hupper
      rw [below_iff, String.toList_ofList]
      apply h u hu
    · intro h u hu
      have hbelow := h (String.ofList u) (Option.map_eq_some_iff.mpr ⟨u, hu, rfl⟩)
      rwa [below_iff, String.toList_ofList] at hbelow
  · intro t value
    apply mem_listKvPrefix

/-- After the last character below the surrogates comes the first one above them, and after the
last character of all nothing comes. -/
example :
    prefixUpperBound "a\uD7FF" = some "a\uE000"
      ∧ prefixUpperBound (String.ofList ['a', Char.ofNat 0x10FFFF]) = some "b"
      ∧ prefixUpperBound "" = none := by
  decide

/-- The transaction makes the mutations on the rows, or refuses as they do. -/
theorem foldlM_execute (t : Table) (mutations : List StoreMutation) :
  (mutations.foldlM Sqlite.execute t).map Table.select = Rows.mutateAll t.select mutations
  := by
  rw [Rows.mutateAll]
  induction mutations generalizing t with
  | nil => rfl
  | cons m mutations ih =>
    have hm : (Sqlite.execute t m).map Table.select = Rows.mutate t.select m := by
      cases m with
      | setKv key value => simp [Sqlite.execute, Rows.mutate, Except.map, Table.select_upsert]
      | deleteKv key => simp [Sqlite.execute, Rows.mutate, Except.map, Table.select_delete]
      | save kind record =>
        rw [Sqlite.execute, Rows.mutate]
        cases record.requireJson kind with
        | error e => rfl
        | ok json => simp [Except.map, Table.select_upsert]
      | delete kind key => simp [Sqlite.execute, Rows.mutate, Except.map, Table.select_delete]
    rw [List.foldlM_cons, List.foldlM_cons, ← hm]
    cases Sqlite.execute t m with
    | error e => rfl
    | ok t' => apply ih t'

theorem sqlite_lawful (createdAtOrOldest : String → Instant) :
  (sqlite createdAtOrOldest).Lawful
  := by
  constructor
  · apply Table.select_upsert
  · apply Table.select_delete
  · apply Table.select_insertIfAbsent
  · intro t key value
    change ((t.insertIfAbsent key value).select key).getD value = _
    rw [Table.select_insertIfAbsent, Rows.set, Function.update_self, Option.getD_some]
    rfl
  · apply mem_listKvPrefix
  · intro t mutations rows h
    apply commit_eq_ok
    apply (foldlM_execute t mutations).trans h
  · intro t mutations e h
    apply commit_eq_error
    apply (foldlM_execute t mutations).trans h

end Lazybox.Store
