import Lazybox.Store.Memory

/-!
# The two stores, side by side

Two lawful backends with the same rows give the same results, but for the listings of records,
and have the same rows afterwards.  The listings of the two stores differ in one respect: SQLite
finds the keys of records by `LIKE`, up to the case of the prefix.
-/

universe u v

namespace Lazybox.Store

/-! ### Lawful backends -/

section Lawful

variable {σ : Type u} {τ : Type v} {B : Backend σ} {C : Backend τ} (lawful : B.Lawful)
  (lawful' : C.Lawful) (createdAtOrOldest : String → Instant) {s : σ} {t : τ}
include lawful lawful'

/-- Lawful backends with the same rows have the same rows after each operation. -/
theorem rows_step (h : B.getKv s = C.getKv t) (op : StoreOp) :
  B.getKv (B.step createdAtOrOldest s op).1 = C.getKv (C.step createdAtOrOldest t op).1
  := by
  cases op with
  | getKv | listKvPrefix | get | list => apply h
  | setKv key value =>
    change B.getKv (B.setKv s key value) = C.getKv (C.setKv t key value)
    rw [lawful.set, lawful'.set, h]
  | setKvIfAbsent key value =>
    change B.getKv (B.setKvIfAbsent s key value).1 = C.getKv (C.setKvIfAbsent t key value).1
    rw [lawful.setIfAbsent, lawful'.setIfAbsent, h]
  | deleteKv key =>
    change B.getKv (B.deleteKv s key) = C.getKv (C.deleteKv t key)
    rw [lawful.delete, lawful'.delete, h]
  | applyBatch mutations =>
    change B.getKv (B.applyBatch s mutations).1 = C.getKv (C.applyBatch t mutations).1
    cases hrows : Rows.mutateAll (B.getKv s) mutations with
    | error e =>
      have hrows' := hrows
      rw [h] at hrows'
      rw [lawful.refused s mutations e hrows, lawful'.refused t mutations e hrows', h]
    | ok rows =>
      have hrows' := hrows
      rw [h] at hrows'
      rw [(lawful.batch s mutations rows hrows).1, (lawful'.batch t mutations rows hrows').1]
  | save kind record =>
    change B.getKv (B.saveRecord s kind record).1 = C.getKv (C.saveRecord t kind record).1
    rw [Backend.saveRecord, Backend.saveRecord]
    cases record.requireJson kind with
    | error e => apply h
    | ok json =>
      dsimp only
      rw [lawful.set, lawful'.set, h]
  | delete kind key =>
    change B.getKv (B.deleteKv s (kind.key key)) = C.getKv (C.deleteKv t (kind.key key))
    rw [lawful.delete, lawful'.delete, h]

/-- Lawful backends with the same rows give the same results, unless records are listed. -/
theorem result_step
    (h : B.getKv s = C.getKv t) {op : StoreOp} (unlisted : ∀ kind, op ≠ .list kind) :
  (B.step createdAtOrOldest s op).2.Same (C.step createdAtOrOldest t op).2
  := by
  cases op with
  | getKv key =>
    change StoreResult.value (B.getKv s key) = .value (C.getKv t key)
    rw [h]
  | setKv | deleteKv | delete => rfl
  | setKvIfAbsent key value =>
    change StoreResult.stored (B.setKvIfAbsent s key value).2
      = .stored (C.setKvIfAbsent t key value).2
    rw [lawful.stored, lawful'.stored, h]
  | listKvPrefix keyPrefix =>
    rintro ⟨key, value⟩
    rw [lawful.list, lawful'.list, h]
  | applyBatch mutations =>
    change StoreResult.done (B.applyBatch s mutations).2 = .done (C.applyBatch t mutations).2
    cases hrows : Rows.mutateAll (B.getKv s) mutations with
    | error e =>
      have hrows' := hrows
      rw [h] at hrows'
      rw [lawful.refused s mutations e hrows, lawful'.refused t mutations e hrows']
    | ok rows =>
      have hrows' := hrows
      rw [h] at hrows'
      rw [(lawful.batch s mutations rows hrows).2, (lawful'.batch t mutations rows hrows').2]
  | save kind record =>
    change StoreResult.done (B.saveRecord s kind record).2
      = .done (C.saveRecord t kind record).2
    rw [Backend.saveRecord, Backend.saveRecord]
    cases record.requireJson kind with
    | error e => rfl
    | ok json => rfl
  | get kind key =>
    change StoreResult.record (B.getRecord createdAtOrOldest s kind key)
      = .record (C.getRecord createdAtOrOldest t kind key)
    rw [Backend.getRecord, Backend.getRecord, h]
  | list kind => exact absurd rfl (unlisted kind)

end Lawful

/-! ### The listings of records -/

/-- The key starts with the prefix up to the case of ASCII letters. -/
def StartsUpToCase (keyPrefix key : String) : Prop :=
  keyPrefix.toList.map Char.toLower <+: key.toList.map Char.toLower

instance (keyPrefix key : String) : Decidable (StartsUpToCase keyPrefix key) :=
  inferInstanceAs (Decidable (_ <+: _))

/-- A text and `%` match what starts with the text, up to case. -/
theorem like_percent (p s : List Char) (plain : ∀ c ∈ p, c ≠ '%' ∧ c ≠ '_') :
  like (p ++ ['%']) s ↔ p.map Char.toLower <+: s.map Char.toLower
  := by
  induction p generalizing s with
  | nil => simp [like]
  | cons a p ih =>
    rw [List.forall_mem_cons] at plain
    obtain ⟨⟨hpercent, hunderscore⟩, hplain⟩ := plain
    cases s with
    | nil => simp [like, hpercent]
    | cons c s => simp [like, hpercent, hunderscore, ih s hplain]

theorem keyPrefix_plain (kind : Kind) :
  ∀ c ∈ kind.keyPrefix.toList, c ≠ '%' ∧ c ≠ '_'
  := by
  cases kind <;> simp [Kind.keyPrefix, Kind.label]

variable {keyPrefix : String}

theorem stripPrefix_eq_some {s rest : String} :
  stripPrefix keyPrefix s = some rest ↔ s = keyPrefix ++ rest
  := by
  rw [stripPrefix, Option.map_eq_some_iff]
  constructor
  · rintro ⟨r, hr, rfl⟩
    rw [List.isPrefixOf?_eq_some_iff_append_eq] at hr
    apply String.toList_injective
    rw [← hr]
    simp
  · rintro rfl
    use rest.toList
    simp

theorem prefix_iff_exists {s : String} :
  keyPrefix.toList <+: s.toList ↔ ∃ rest, s = keyPrefix ++ rest
  := by
  constructor
  · rintro ⟨r, hr⟩
    use String.ofList r
    apply String.toList_injective
    rw [← hr]
    simp
  · rintro ⟨rest, rfl⟩
    simp

theorem stripPrefix_eq_none {s : String} :
  stripPrefix keyPrefix s = none ↔ ¬ keyPrefix.toList <+: s.toList
  := by
  rw [Option.eq_none_iff_forall_ne_some, prefix_iff_exists, not_exists]
  apply forall_congr'
  intro rest
  rw [Ne, stripPrefix_eq_some]

section Listing

variable (createdAtOrOldest : String → Instant) (kind : Kind)

/-- The record listed for a row. -/
def listedRecord (key value : String) : Record := ⟨key, createdAtOrOldest value, some value⟩

theorem mem_memory_listRecords (m : HashMap) (r : Record) :
  r ∈ Memory.listRecords createdAtOrOldest kind m
    ↔ ∃ key value, m.get (kind.key key) = some value ∧ value ≠ ""
        ∧ r = listedRecord createdAtOrOldest key value
  := by
  rw [Memory.listRecords, List.mem_filterMap]
  constructor
  · rintro ⟨⟨k, value⟩, hmem, h⟩
    obtain ⟨key, hkey, hrecord⟩ := Option.bind_eq_some_iff.mp h
    obtain rfl := stripPrefix_eq_some.mp hkey
    by_cases hvalue : value = ""
    · simp [hvalue] at hrecord
    · rw [if_neg hvalue] at hrecord
      exact ⟨key, value, HashMap.mem_entries.mp hmem, hvalue, (Option.some.inj hrecord).symm⟩
  · rintro ⟨key, value, hget, hvalue, rfl⟩
    refine ⟨(kind.key key, value), HashMap.mem_entries.mpr hget, ?_⟩
    rw [Option.bind_eq_some_iff]
    refine ⟨key, stripPrefix_eq_some.mpr rfl, ?_⟩
    rw [if_neg hvalue]
    rfl

theorem mem_sqlite_listRecords (t : Table) (r : Record) :
  r ∈ Sqlite.listRecords createdAtOrOldest kind t
    ↔ ∃ key value, t.select key = some value ∧ value ≠ "" ∧ StartsUpToCase kind.keyPrefix key
        ∧ r = listedRecord createdAtOrOldest ((stripPrefix kind.keyPrefix key).getD key) value
  := by
  rw [Sqlite.listRecords, List.mem_filterMap]
  constructor
  · rintro ⟨⟨key, value⟩, hmem, hrecord⟩
    obtain ⟨hrow, hlike⟩ := List.mem_filter.mp hmem
    by_cases hvalue : value = ""
    · simp [hvalue] at hrecord
    · rw [if_neg hvalue] at hrecord
      refine ⟨key, value, Table.mem_rows.mp hrow, hvalue, ?_, (Option.some.inj hrecord).symm⟩
      apply (like_percent _ _ (keyPrefix_plain kind)).mp hlike
  · rintro ⟨key, value, hselect, hvalue, hstarts, rfl⟩
    refine ⟨(key, value), List.mem_filter.mpr ⟨Table.mem_rows.mpr hselect, ?_⟩, ?_⟩
    · apply (like_percent _ _ (keyPrefix_plain kind)).mpr hstarts
    · rw [if_neg hvalue]
      rfl

/-- A row whose key starts with the prefix only up to case is one more record of SQLite, unless it
has no payload, or there is a row of that key under the prefix with the same payload. -/
def ListsAlike (t : Table) : Prop :=
  ∀ key value, t.select key = some value → value ≠ "" → StartsUpToCase kind.keyPrefix key →
    ¬ kind.keyPrefix.toList <+: key.toList → t.select (kind.key key) = some value

/-- On the same rows, the stores list the same records exactly when SQLite has no record more. -/
theorem listRecords_same_iff {t : Table} {m : HashMap} (h : t.select = m.get) :
  (∀ r, r ∈ Sqlite.listRecords createdAtOrOldest kind t
      ↔ r ∈ Memory.listRecords createdAtOrOldest kind m)
    ↔ ListsAlike kind t
  := by
  simp only [mem_sqlite_listRecords, mem_memory_listRecords, ← h]
  constructor
  · intro hsame key value hselect hvalue hstarts hprefix
    obtain ⟨key', value', hselect', -, heq⟩ :=
      (hsame _).mp ⟨key, value, hselect, hvalue, hstarts, rfl⟩
    rw [stripPrefix_eq_none.mpr hprefix, Option.getD_none, listedRecord, listedRecord,
      Record.mk.injEq] at heq
    obtain ⟨rfl, -, hvalues⟩ := heq
    rw [Option.some.inj hvalues]
    apply hselect'
  · intro halike r
    constructor
    · rintro ⟨key, value, hselect, hvalue, hstarts, rfl⟩
      by_cases hprefix : kind.keyPrefix.toList <+: key.toList
      · obtain ⟨rest, rfl⟩ := prefix_iff_exists.mp hprefix
        refine ⟨rest, value, hselect, hvalue, ?_⟩
        rw [stripPrefix_eq_some.mpr rfl, Option.getD_some]
      · refine ⟨key, value, halike key value hselect hvalue hstarts hprefix, hvalue, ?_⟩
        rw [stripPrefix_eq_none.mpr hprefix, Option.getD_none]
    · rintro ⟨key, value, hselect, hvalue, rfl⟩
      refine ⟨kind.key key, value, hselect, hvalue, ?_, ?_⟩
      · rw [StartsUpToCase, Kind.key, String.toList_append, List.map_append]
        apply List.prefix_append
      · rw [Kind.key, stripPrefix_eq_some.mpr rfl, Option.getD_some]

end Listing

/-! ### Runs -/

/-- The stores list the same records, if records are listed. -/
def Alike (t : Table) : StoreOp → Prop
  | .list kind => ListsAlike kind t
  | _ => True

section Runs

variable (createdAtOrOldest : String → Instant)

theorem result_same_iff {t : Table} {m : HashMap} (h : t.select = m.get) (op : StoreOp) :
  ((sqlite createdAtOrOldest).step createdAtOrOldest t op).2.Same
      ((memory createdAtOrOldest).step createdAtOrOldest m op).2
    ↔ Alike t op
  := by
  have hlawful : (∀ kind, op ≠ .list kind) →
      ((sqlite createdAtOrOldest).step createdAtOrOldest t op).2.Same
        ((memory createdAtOrOldest).step createdAtOrOldest m op).2 := by
    apply result_step (sqlite_lawful createdAtOrOldest) (memory_lawful createdAtOrOldest) _ h
  cases op with
  | list kind =>
    cases kind with
    | workspace => apply listRecords_same_iff createdAtOrOldest .workspace h
    | project => apply listRecords_same_iff createdAtOrOldest .project h
  | getKv | setKv | setKvIfAbsent | deleteKv | listKvPrefix | applyBatch | save | get | delete =>
    exact iff_of_true (hlawful (by simp)) trivial

/-- From the same rows, the stores give the same results along the runs in which SQLite lists no
key of records in another case, and along no other. -/
theorem trace_same_iff {t : Table} {m : HashMap} (h : t.select = m.get) (ops : List StoreOp) :
  List.Forall₂ StoreResult.Same
      (((sqlite createdAtOrOldest).machine createdAtOrOldest).trace t ops)
      (((memory createdAtOrOldest).machine createdAtOrOldest).trace m ops)
    ↔ ((sqlite createdAtOrOldest).machine createdAtOrOldest).Along Alike t ops
  := by
  induction ops generalizing t m with
  | nil => simp [Machine.trace, Machine.Along]
  | cons op ops ih =>
    have hnext :
        (((sqlite createdAtOrOldest).machine createdAtOrOldest).next t op).select
          = (((memory createdAtOrOldest).machine createdAtOrOldest).next m op).get :=
      rows_step (sqlite_lawful createdAtOrOldest) (memory_lawful createdAtOrOldest)
        createdAtOrOldest h op
    rw [Machine.Along, ← result_same_iff createdAtOrOldest h op, ← ih hnext]
    apply List.forall₂_cons

/-- Listings compared as sets, the stores give the same results along the runs in which SQLite
lists no key of records in another case, and along no other.  A batch that fails leaves both
unchanged. -/
theorem interchangeable_iff (ops : List StoreOp) :
  (List.Forall₂ StoreResult.Same
      (((sqlite createdAtOrOldest).machine createdAtOrOldest).trace .empty ops)
      (((memory createdAtOrOldest).machine createdAtOrOldest).trace .new ops)
    ↔ ((sqlite createdAtOrOldest).machine createdAtOrOldest).Along Alike .empty ops)
  ∧ (∀ t mutations e, (Sqlite.applyBatch t mutations).2 = .error e →
      (Sqlite.applyBatch t mutations).1 = t)
  ∧ ∀ m mutations e, (Memory.applyBatch m mutations).2 = .error e →
      (Memory.applyBatch m mutations).1 = m
  := by
  and_intros
  · apply trace_same_iff createdAtOrOldest rfl
  · intro t mutations e
    apply (sqlite_lawful createdAtOrOldest).unchanged
  · intro m mutations e
    apply (memory_lawful createdAtOrOldest).unchanged

/-- SQLite lists a key which starts with the prefix in capitals; the in-memory store does not. -/
theorem capitals_listed_by_sqlite :
  ¬ List.Forall₂ StoreResult.Same
      (((sqlite fun _ => 0).machine fun _ => 0).trace .empty
        [.setKv "WORKSPACE:x" "1", .list .workspace])
      (((memory fun _ => 0).machine fun _ => 0).trace .new
        [.setKv "WORKSPACE:x" "1", .list .workspace])
  := by
  rw [trace_same_iff _ rfl]
  rintro ⟨-, halike, -⟩
  have hrow := halike "WORKSPACE:x" "1" (by decide +kernel) (by decide +kernel) (by decide +kernel)
    (by decide +kernel)
  revert hrow
  decide +kernel

end Runs

end Lazybox.Store
