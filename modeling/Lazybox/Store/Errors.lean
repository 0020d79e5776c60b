import Lazybox.Library.MapM
import Lazybox.Library.Ranking
import Lazybox.Store.TimeText
import Mathlib.Data.String.Basic

/-!
# The inbox of errors

An error is recorded under its `dedupe_key`: the row of the key is inserted with the count 1, or
its count goes up and its sample is replaced.  Then the rows past the cap are evicted, those seen
last at the end of the order being the first to go, and the row of the key is read back.

A recorded error is kept and returned except where the row of a new key is the last in the order
of a full table, where the year of its time has other than four digits, or where the count leaves
the integers of the database.
-/

namespace Lazybox.Store

structure ErrorOccurrence (τ : Type) where
  dedupeKey : String
  source : String
  severity : String
  operation : Option String
  workspaceKey : Option String
  message : String
  raw : String
  at' : τ

structure ErrorRecord (τ : Type) where
  dedupeKey : String
  source : String
  severity : String
  operation : Option String
  workspaceKey : Option String
  message : String
  raw : String
  count : ℕ
  firstSeen : τ
  lastSeen : τ

/-- A row of the table `errors`. -/
structure ErrorRow where
  dedupeKey : String
  source : String
  severity : String
  operation : Option String
  workspaceKey : Option String
  message : String
  raw : String
  count : ℕ
  firstSeen : String
  lastSeen : String
deriving DecidableEq

structure ErrorTable where
  rows : List ErrorRow
  distinct : (rows.map ErrorRow.dedupeKey).Nodup

def errorInboxMaxRows : ℕ := 1000

/-- The greatest integer of a column is below it. -/
def integerEnd : ℕ := 9223372036854775808

/-- Texts are compared byte by byte. -/
def collate (a b : String) : Ordering :=
  if below a b then .lt else if below b a then .gt else .eq

namespace ErrorTable

def empty : ErrorTable := ⟨[], List.nodup_nil⟩

/-- `WHERE dedupe_key = ?` -/
def find (t : ErrorTable) (dedupeKey : String) : Option ErrorRow :=
  Keyed.lookup ErrorRow.dedupeKey dedupeKey t.rows

end ErrorTable

section Upsert

variable {τ : Type} (occ : ErrorOccurrence τ) (seen : String)

/-- `INSERT` -/
def insertedRow : ErrorRow where
  dedupeKey := occ.dedupeKey
  source := occ.source
  severity := occ.severity
  operation := occ.operation
  workspaceKey := occ.workspaceKey
  message := occ.message
  raw := occ.raw
  count := 1
  firstSeen := seen
  lastSeen := seen

/-- `ON CONFLICT(dedupe_key) DO UPDATE SET` -/
def updatedRow (row : ErrorRow) : ErrorRow :=
  { row with
    count := row.count + 1
    lastSeen := seen
    source := occ.source
    severity := occ.severity
    operation := occ.operation
    workspaceKey := occ.workspaceKey
    message := occ.message
    raw := occ.raw }

theorem updatedRow_dedupeKey (row : ErrorRow) :
  (updatedRow occ seen row).dedupeKey = row.dedupeKey
  := rfl

def ErrorTable.upsert (t : ErrorTable) : ErrorTable where
  rows :=
    if (t.find occ.dedupeKey).isSome then
      Keyed.modifyFirst ErrorRow.dedupeKey occ.dedupeKey (updatedRow occ seen) t.rows
    else t.rows ++ [insertedRow occ seen]
  distinct := by
    split
    · rw [Keyed.map_modifyFirst (updatedRow_dedupeKey occ seen)]
      apply t.distinct
    · next habsent =>
        rw [List.map_append, List.nodup_append]
        and_intros
        · apply t.distinct
        · apply List.nodup_singleton
        · rintro k hk _ hkey rfl
          rw [List.map_singleton, List.mem_singleton] at hkey
          obtain ⟨row, hrow, rfl⟩ := List.mem_map.mp hk
          rw [Option.not_isSome_iff_eq_none, ErrorTable.find, Keyed.lookup_eq_none] at habsent
          apply habsent row hrow hkey

end Upsert

/-- `ORDER BY last_seen DESC` -/
def lastSeenOrder (a b : ErrorRow) : Ordering := collate b.lastSeen a.lastSeen

/-- `ORDER BY last_seen DESC, dedupe_key DESC` -/
def evictionOrder : ErrorRow → ErrorRow → Ordering :=
  compareLex lastSeenOrder fun a b => collate b.dedupeKey a.dedupeKey

def keptRows (rows : List ErrorRow) : List ErrorRow :=
  (Ranking.sortBy evictionOrder rows).take errorInboxMaxRows

/-- `DELETE FROM errors WHERE dedupe_key NOT IN (SELECT ... LIMIT ?)` -/
def ErrorTable.evict (t : ErrorTable) : ErrorTable where
  rows := t.rows.filter fun row => row.dedupeKey ∈ (keptRows t.rows).map ErrorRow.dedupeKey
  distinct := t.distinct.sublist (List.filter_sublist.map _)

section Store

variable {τ : Type} (c : Chrono τ)

def parseTs (text : String) : Except StoreError τ :=
  (c.parseFromRfc3339 text).mapError fun e =>
    .backend ("Conversion error from type Text at index: 0, " ++ e)

/-- The sum of a count that leaves the integers is a real, which the column does not give as an
integer. -/
def integerCount (count : ℕ) : Except StoreError ℕ :=
  if count < integerEnd then .ok count
  else .error (.backend "Invalid column type Real at index: 7, name: count")

def errorRecordFromRow (row : ErrorRow) : Except StoreError (ErrorRecord τ) := do
  let count ← integerCount row.count
  let firstSeen ← parseTs c row.firstSeen
  let lastSeen ← parseTs c row.lastSeen
  return {
    dedupeKey := row.dedupeKey
    source := row.source
    severity := row.severity
    operation := row.operation
    workspaceKey := row.workspaceKey
    message := row.message
    raw := row.raw
    count := count
    firstSeen := firstSeen
    lastSeen := lastSeen }

def recordError (t : ErrorTable) (occ : ErrorOccurrence τ) :
    ErrorTable × Except StoreError (ErrorRecord τ) :=
  let t := (t.upsert occ (c.toRfc3339 occ.at')).evict
  let result :=
    match t.find occ.dedupeKey with
    | some row => errorRecordFromRow c row
    | none => .error (.backend "Query returned no rows")
  (t, result)

def listErrors (t : ErrorTable) : Except StoreError (List (ErrorRecord τ)) :=
  (Ranking.sortBy lastSeenOrder t.rows).mapM (errorRecordFromRow c)

/-- The inbox as errors are recorded one after another. -/
def errorInbox : Machine ErrorTable (ErrorOccurrence τ) (Except StoreError (ErrorRecord τ)) where
  step t occ :=
    let (t, result) := recordError c t occ
    (t, [result])

end Store

/-! ### Reading a row -/

/-- A row that is read has an integer count and two times. -/
theorem of_errorRecordFromRow {τ : Type} {c : Chrono τ} {row : ErrorRow}
    {record : ErrorRecord τ} (h : errorRecordFromRow c row = .ok record) :
  integerCount row.count = .ok record.count
    ∧ parseTs c row.firstSeen = .ok record.firstSeen
    ∧ parseTs c row.lastSeen = .ok record.lastSeen
  := by
  rw [errorRecordFromRow] at h
  obtain ⟨count, hcount, h⟩ := MapM.of_bind_eq_ok h
  obtain ⟨firstSeen, hfirst, h⟩ := MapM.of_bind_eq_ok h
  obtain ⟨lastSeen, hlast, h⟩ := MapM.of_bind_eq_ok h
  cases h
  exact ⟨hcount, hfirst, hlast⟩

/-! ### The order of the rows -/

theorem collate_eq_compare :
  collate = compare
  := by
  funext a b
  simp only [collate, below_iff, ← String.lt_iff_toList_lt]
  rcases lt_trichotomy a b with h | rfl | h
  · rw [if_pos h]
    apply (compare_lt_iff_lt.mpr h).symm
  · simp
  · rw [if_neg h.not_gt, if_pos h]
    apply (compare_gt_iff_gt.mpr h).symm

theorem isLE_compare_iff {α : Type} [LinearOrder α] {a b : α} :
  (compare a b).isLE ↔ a ≤ b
  := by
  rw [Ordering.isLE_iff_ne_gt]
  apply compare_le_iff_le

instance : Std.TransCmp evictionOrder := by
  have horder : evictionOrder
      = compareLex (fun a b => compareOn ErrorRow.lastSeen b a)
          fun a b => compareOn ErrorRow.dedupeKey b a := by
    unfold evictionOrder lastSeenOrder
    rw [collate_eq_compare]
    rfl
  rw [horder]
  infer_instance

instance : Std.TransCmp lastSeenOrder := by
  have horder : lastSeenOrder = fun a b => compareOn ErrorRow.lastSeen b a := by
    unfold lastSeenOrder
    rw [collate_eq_compare]
    rfl
  rw [horder]
  infer_instance

theorem dedupeKey_eq_of_evictionOrder {a b : ErrorRow} (h : evictionOrder a b = .eq) :
  a.dedupeKey = b.dedupeKey
  := by
  simp only [evictionOrder, compareLex, Ordering.then_eq_eq, collate_eq_compare] at h
  apply (Std.LawfulEqOrd.eq_of_compare h.2).symm

/-! ### The table -/

namespace ErrorTable

variable {τ : Type} (t : ErrorTable) (occ : ErrorOccurrence τ) (seen : String)

variable {row : ErrorRow}

theorem find_eq_some_iff {t : ErrorTable} {dedupeKey : String} :
  t.find dedupeKey = some row ↔ row ∈ t.rows ∧ row.dedupeKey = dedupeKey
  := Keyed.lookup_eq_some_iff t.distinct

theorem find_eq_none_iff {t : ErrorTable} {dedupeKey : String} :
  t.find dedupeKey = none ↔ ∀ row ∈ t.rows, row.dedupeKey ≠ dedupeKey
  := Keyed.lookup_eq_none

/-- How often the errors of a key were seen. -/
def timesSeen (dedupeKey : String) : ℕ := (t.find dedupeKey).elim 0 ErrorRow.count

/-- The row of the key once the error is recorded. -/
def recordedRow : ErrorRow :=
  match t.find occ.dedupeKey with
  | some row => updatedRow occ seen row
  | none => insertedRow occ seen

theorem recordedRow_eq :
  t.recordedRow occ seen =
    { insertedRow occ seen with
      count := t.timesSeen occ.dedupeKey + 1
      firstSeen := (t.find occ.dedupeKey).elim seen ErrorRow.firstSeen }
  := by
  rw [recordedRow, timesSeen]
  cases hfound : t.find occ.dedupeKey with
  | none => rfl
  | some row =>
    dsimp only
    rw [updatedRow, (find_eq_some_iff.mp hfound).2]
    rfl

theorem recordedRow_dedupeKey :
  (t.recordedRow occ seen).dedupeKey = occ.dedupeKey
  := by
  rw [recordedRow_eq]
  rfl

theorem recordedRow_count :
  (t.recordedRow occ seen).count = t.timesSeen occ.dedupeKey + 1
  := by
  rw [recordedRow_eq]

theorem recordedRow_firstSeen :
  (t.recordedRow occ seen).firstSeen = (t.find occ.dedupeKey).elim seen ErrorRow.firstSeen
  := by
  rw [recordedRow_eq]

theorem recordedRow_lastSeen :
  (t.recordedRow occ seen).lastSeen = seen
  := by
  rw [recordedRow_eq]
  rfl

theorem mem_upsert :
  row ∈ (t.upsert occ seen).rows
    ↔ row = t.recordedRow occ seen ∨ row ∈ t.rows ∧ row.dedupeKey ≠ occ.dedupeKey
  := by
  rw [upsert, recordedRow]
  dsimp only
  cases hfound : t.find occ.dedupeKey with
  | none =>
    rw [find_eq_none_iff] at hfound
    rw [Option.isSome_none, if_neg Bool.false_ne_true, List.mem_append, List.mem_singleton,
      or_comm]
    apply or_congr_right
    constructor
    · intro hrow
      exact ⟨hrow, hfound row hrow⟩
    · intro hrow
      exact hrow.1
  | some old =>
    obtain ⟨hold, hkey⟩ := find_eq_some_iff.mp hfound
    rw [Option.isSome_some, if_pos rfl, Keyed.modifyFirst_eq_map t.distinct, List.mem_map]
    constructor
    · rintro ⟨other, hother, rfl⟩
      split
      · next hsame =>
          left
          rw [Keyed.eq_of_key_eq t.distinct hfound hother hsame]
      · next hne =>
          right
          exact ⟨hother, hne⟩
    · rintro (rfl | ⟨hrow, hne⟩)
      · use old, hold
        rw [if_pos hkey]
      · use row, hrow
        rw [if_neg hne]

theorem length_upsert :
  (t.upsert occ seen).rows.length
    = if (t.find occ.dedupeKey).isSome then t.rows.length else t.rows.length + 1
  := by
  rw [upsert]
  dsimp only
  split
  · have hkeys := Keyed.map_modifyFirst (updatedRow_dedupeKey occ seen) occ.dedupeKey t.rows
    simpa using congrArg List.length hkeys
  · rw [List.length_append, List.length_singleton]

/-! ### Eviction -/

theorem mem_evict {t : ErrorTable} :
  row ∈ t.evict.rows ↔ row ∈ keptRows t.rows
  := by
  have hsubset : ∀ kept ∈ keptRows t.rows, kept ∈ t.rows := by
    intro kept hkept
    apply (Ranking.mem_sortBy evictionOrder).mp (List.mem_of_mem_take hkept)
  rw [evict, List.mem_filter, decide_eq_true_iff, List.mem_map]
  constructor
  · rintro ⟨hrow, kept, hkept, hkey⟩
    rwa [← List.inj_on_of_nodup_map t.distinct (hsubset kept hkept) hrow hkey]
  · intro hrow
    exact ⟨hsubset row hrow, row, hrow, rfl⟩

theorem nodup_rows :
  t.rows.Nodup
  := t.distinct.of_map

theorem length_evict_le :
  t.evict.rows.length ≤ errorInboxMaxRows
  := by
  have hsubset : t.evict.rows ⊆ keptRows t.rows := fun row hrow => mem_evict.mp hrow
  have hlength := (t.evict.nodup_rows.subperm hsubset).length_le
  rw [keptRows, List.length_take] at hlength
  omega

/-- Rows below the cap are all kept. -/
theorem evict_of_length_le (h : t.rows.length ≤ errorInboxMaxRows) :
  t.evict = t
  := by
  have hkept : keptRows t.rows = Ranking.sortBy evictionOrder t.rows := by
    rw [keptRows, List.take_of_length_le]
    rwa [(Ranking.sortBy_perm evictionOrder t.rows).length_eq]
  rw [evict, ErrorTable.mk.injEq, List.filter_eq_self]
  intro row hrow
  rw [decide_eq_true_iff, hkept]
  apply List.mem_map_of_mem ((Ranking.mem_sortBy evictionOrder).mpr hrow)

/-- Of one row more than the cap, each but the last in the order is kept. -/
theorem mem_evict_of_length {t : ErrorTable} (h : t.rows.length = errorInboxMaxRows + 1)
    (hrow : row ∈ t.rows) :
  row ∈ t.evict.rows ↔ ∃ other ∈ t.rows, other ≠ row ∧ (evictionOrder row other).isLE
  := by
  have hsorted : (Ranking.sortBy evictionOrder t.rows).Nodup :=
    (Ranking.sortBy_perm evictionOrder t.rows).nodup_iff.mpr t.nodup_rows
  have hbest := Ranking.bestOf_take hsorted (Ranking.pairwise_sortBy evictionOrder t.rows)
    errorInboxMaxRows
  have hmem : ∀ row, row ∈ (Ranking.sortBy evictionOrder t.rows).toFinset ↔ row ∈ t.rows := by
    intro row
    rw [List.mem_toFinset, Ranking.mem_sortBy]
  rw [mem_evict, keptRows, ← List.mem_toFinset, hbest.mem_iff _ _ ((hmem row).mpr hrow)]
  · simp only [hmem]
  · intro a ha b hb hab hba
    apply List.inj_on_of_nodup_map t.distinct ((hmem a).mp ha) ((hmem b).mp hb)
    apply dedupeKey_eq_of_evictionOrder (Std.OrientedCmp.isLE_antisymm hab hba)
  · rw [List.toFinset_card_of_nodup hsorted,
      (Ranking.sortBy_perm evictionOrder t.rows).length_eq, h]

end ErrorTable

end Lazybox.Store
