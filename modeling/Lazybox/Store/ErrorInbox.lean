import Lazybox.Library.MapM
import Lazybox.Store.Errors
import Mathlib.Order.Fin.Basic

/-!
# What the inbox keeps

In a sound table every timestamp is the text of a time whose year has four digits, and every count
is an integer of the database.  Recording an error in a sound table keeps it and returns it, and
leaves a table that is listed by time, exactly when its year has four digits, its count does not
leave the integers, and its row is not the first to be evicted: it is there already, or the table
is not full, or another row comes later in the order of eviction.
-/

namespace Lazybox.Store

variable {τ : Type} (c : Chrono τ)

/-- The text of a time whose year has four digits. -/
def Stamp (text : String) : Prop := ∃ t, (c.civil t).FourDigits ∧ text = c.toRfc3339 t

structure ErrorTable.Sound (t : ErrorTable) : Prop where
  bounded : t.rows.length ≤ errorInboxMaxRows
  counted : ∀ row ∈ t.rows, row.count < integerEnd
  first : ∀ row ∈ t.rows, Stamp c row.firstSeen
  last : ∀ row ∈ t.rows, Stamp c row.lastSeen

/-- The record of an error, with its count and the time it was seen first. -/
def ErrorOccurrence.toRecord (occ : ErrorOccurrence τ) (count : ℕ) (firstSeen : τ) :
    ErrorRecord τ where
  dedupeKey := occ.dedupeKey
  source := occ.source
  severity := occ.severity
  operation := occ.operation
  workspaceKey := occ.workspaceKey
  message := occ.message
  raw := occ.raw
  count := count
  firstSeen := firstSeen
  lastSeen := occ.at'

variable [LinearOrder τ]

/-- The rows are all listed, and those seen last come first. -/
structure ListedByTime (t : ErrorTable) (records : List (ErrorRecord τ)) : Prop where
  listed : listErrors c t = .ok records
  rows : (t.rows.map (errorRecordFromRow c)).Perm (records.map .ok)
  ordered : records.Pairwise fun a b => b.lastSeen ≤ a.lastSeen

/-- A recorded error is kept and returned: its count is one higher than before, and the time it was
seen first stays. -/
structure NeverLost (t : ErrorTable) (occ : ErrorOccurrence τ) : Prop where
  bounded : (recordError c t occ).1.rows.length ≤ errorInboxMaxRows
  returned : ∃ firstSeen,
    (t.find occ.dedupeKey).elim (.ok occ.at') (fun row => parseTs c row.firstSeen)
        = .ok firstSeen
      ∧ (recordError c t occ).2 = .ok (occ.toRecord (t.timesSeen occ.dedupeKey + 1) firstSeen)
  kept : ∃ row ∈ (recordError c t occ).1.rows, row.dedupeKey = occ.dedupeKey
    ∧ (recordError c t occ).2 = errorRecordFromRow c row
  listed : ∃ records, ListedByTime c (recordError c t occ).1 records

/-- The row comes later in the order of eviction. -/
def EvictedBefore (occ : ErrorOccurrence τ) (row : ErrorRow) : Prop :=
  ∃ u, c.parseFromRfc3339 row.lastSeen = .ok u
    ∧ (u < occ.at' ∨ u = occ.at' ∧ below row.dedupeKey occ.dedupeKey)

/-- The row of the error is not the first to be evicted. -/
def Room (t : ErrorTable) (occ : ErrorOccurrence τ) : Prop :=
  (t.find occ.dedupeKey).isSome ∨ t.rows.length < errorInboxMaxRows
    ∨ ∃ row ∈ t.rows, EvictedBefore c occ row

structure Recordable (t : ErrorTable) (occ : ErrorOccurrence τ) : Prop where
  fourDigits : (c.civil occ.at').FourDigits
  countable : t.timesSeen occ.dedupeKey + 1 < integerEnd
  room : Room c t occ

/-! ### Times -/

section Times

variable {c} (doc : c.Documented)
include doc

theorem collate_toRfc3339 {t u : τ} (ht : (c.civil t).FourDigits) (hu : (c.civil u).FourDigits) :
  collate (c.toRfc3339 t) (c.toRfc3339 u) = compare t u
  := by
  simp only [collate, below_toRfc3339 doc ht hu, below_toRfc3339 doc hu ht]
  rcases lt_trichotomy t u with h | rfl | h
  · rw [if_pos h, compare_lt_iff_lt.mpr h]
  · simp
  · rw [if_neg h.not_gt, if_pos h, compare_gt_iff_gt.mpr h]

theorem parseTs_toRfc3339 {t : τ} (ht : (c.civil t).FourDigits) :
  parseTs c (c.toRfc3339 t) = .ok t
  := by
  rw [parseTs, doc.readable t ht]
  rfl

variable {row : ErrorRow}

/-- A new row ranks above another one exactly when that is evicted before it. -/
theorem evictionOrder_isLE_iff {occ : ErrorOccurrence τ} (hocc : (c.civil occ.at').FourDigits)
    {fresh : ErrorRow} (hkey : fresh.dedupeKey = occ.dedupeKey)
    (hseen : fresh.lastSeen = c.toRfc3339 occ.at') (hrow : Stamp c row.lastSeen)
    (hne : row.dedupeKey ≠ occ.dedupeKey) :
  (evictionOrder fresh row).isLE ↔ EvictedBefore c occ row
  := by
  obtain ⟨u, hu, hlast⟩ := hrow
  have hread : EvictedBefore c occ row
      ↔ u < occ.at' ∨ u = occ.at' ∧ below row.dedupeKey occ.dedupeKey := by
    simp [EvictedBefore, hlast, doc.readable u hu]
  have hkeys : (collate row.dedupeKey occ.dedupeKey).isLE
      ↔ below row.dedupeKey occ.dedupeKey := by
    rw [collate_eq_compare, below_iff, ← String.lt_iff_toList_lt, isLE_compare_iff]
    apply le_iff_lt_or_eq.trans (or_iff_left hne)
  rw [hread, evictionOrder, compareLex, lastSeenOrder, hkey, hseen, hlast,
    collate_toRfc3339 doc hu hocc, ← hkeys]
  rcases lt_trichotomy u occ.at' with h | rfl | h
  · simp [compare_lt_iff_lt.mpr h, h]
  · simp
  · simp [compare_gt_iff_gt.mpr h, h.not_gt, h.ne']

theorem errorRecordFromRow_eq_ok {first last : τ} (hfirst : (c.civil first).FourDigits)
    (hlast : (c.civil last).FourDigits) (hcount : row.count < integerEnd)
    (hfirstSeen : row.firstSeen = c.toRfc3339 first) (hlastSeen : row.lastSeen = c.toRfc3339 last) :
  errorRecordFromRow c row = .ok
    { row with count := row.count, firstSeen := first, lastSeen := last }
  := by
  rw [errorRecordFromRow, integerCount, if_pos hcount, hfirstSeen, hlastSeen,
    parseTs_toRfc3339 doc hfirst, parseTs_toRfc3339 doc hlast]
  rfl

/-- A row is read only when its count is an integer and its year has four digits. -/
theorem readable_of_errorRecordFromRow {record : ErrorRecord τ}
    (h : errorRecordFromRow c row = .ok record) {last : τ}
    (hlastSeen : row.lastSeen = c.toRfc3339 last) :
  row.count < integerEnd ∧ (c.civil last).FourDigits
  := by
  obtain ⟨hcount, -, hlast⟩ := of_errorRecordFromRow h
  constructor
  · by_contra hend
    rw [integerCount, if_neg hend] at hcount
    cases hcount
  · by_contra hyear
    obtain ⟨e, he⟩ := doc.unreadable last hyear
    rw [hlastSeen, parseTs, he] at hlast
    cases hlast

end Times

/-! ### Listing -/

section Sound

variable {c} (doc : c.Documented) {t : ErrorTable} (sound : t.Sound c)
include doc sound

theorem ErrorTable.Sound.reads {row : ErrorRow} (hrow : row ∈ t.rows) :
  ∃ record, errorRecordFromRow c row = .ok record
  := by
  obtain ⟨first, hfirst, hfirstSeen⟩ := sound.first row hrow
  obtain ⟨last, hlast, hlastSeen⟩ := sound.last row hrow
  exact ⟨_, errorRecordFromRow_eq_ok doc hfirst hlast (sound.counted row hrow) hfirstSeen hlastSeen⟩

theorem ErrorTable.Sound.lastSeen_le {a b : ErrorRow} (ha : a ∈ t.rows) (hb : b ∈ t.rows)
    (h : (lastSeenOrder a b).isLE) {r s : ErrorRecord τ} (hr : errorRecordFromRow c a = .ok r)
    (hs : errorRecordFromRow c b = .ok s) :
  s.lastSeen ≤ r.lastSeen
  := by
  obtain ⟨u, hu, hlast⟩ := sound.last a ha
  obtain ⟨v, hv, hlast'⟩ := sound.last b hb
  obtain ⟨-, -, hread⟩ := of_errorRecordFromRow hr
  obtain ⟨-, -, hread'⟩ := of_errorRecordFromRow hs
  rw [hlast, parseTs_toRfc3339 doc hu, Except.ok.injEq] at hread
  rw [hlast', parseTs_toRfc3339 doc hv, Except.ok.injEq] at hread'
  rw [lastSeenOrder, hlast, hlast', collate_toRfc3339 doc hv hu, isLE_compare_iff] at h
  rwa [← hread, ← hread']

/-- The rows of a sound table are all listed, by time. -/
theorem ErrorTable.Sound.listedByTime :
  ∃ records, ListedByTime c t records
  := by
  have hmem : ∀ row ∈ Ranking.sortBy lastSeenOrder t.rows, row ∈ t.rows := by
    intro row hrow
    apply (Ranking.mem_sortBy lastSeenOrder).mp hrow
  obtain ⟨records, hlisted, hmap⟩ : ∃ records, listErrors c t = .ok records
      ∧ (Ranking.sortBy lastSeenOrder t.rows).map (errorRecordFromRow c) = records.map .ok := by
    apply MapM.mapM_eq_ok
    intro row hrow
    apply sound.reads doc (hmem row hrow)
  use records
  constructor
  · apply hlisted
  · rw [← hmap]
    apply (Ranking.sortBy_perm lastSeenOrder t.rows).symm.map
  · have hsorted := Ranking.pairwise_sortBy lastSeenOrder t.rows
    have hread : ((Ranking.sortBy lastSeenOrder t.rows).map (errorRecordFromRow c)).Pairwise
        fun x y => ∀ r s, x = .ok r → y = .ok s → s.lastSeen ≤ r.lastSeen := by
      rw [List.pairwise_map]
      apply hsorted.imp_of_mem
      intro a b ha hb hab r s hr hs
      apply sound.lastSeen_le doc (hmem a ha) (hmem b hb) hab hr hs
    rw [hmap, List.pairwise_map] at hread
    apply hread.imp
    intro r s h
    apply h r s rfl rfl

/-! ### One error recorded -/

variable {occ : ErrorOccurrence τ}

/-- The row of an error outlives its own eviction exactly when there is room for it. -/
theorem mem_recordError_iff (hocc : (c.civil occ.at').FourDigits) :
  t.recordedRow occ (c.toRfc3339 occ.at') ∈ (recordError c t occ).1.rows ↔ Room c t occ
  := by
  have hmem := (t.mem_upsert occ (c.toRfc3339 occ.at')).mpr (Or.inl rfl)
  have hlength := t.length_upsert occ (c.toRfc3339 occ.at')
  have hbounded := sound.bounded
  rw [recordError, Room]
  dsimp only
  cases hfound : t.find occ.dedupeKey with
  | some row =>
    rw [hfound, Option.isSome_some, if_pos rfl] at hlength
    rw [ErrorTable.evict_of_length_le _ (by omega)]
    exact iff_of_true hmem (Or.inl rfl)
  | none =>
    rw [hfound, Option.isSome_none, if_neg Bool.false_ne_true] at hlength
    by_cases hfull : t.rows.length < errorInboxMaxRows
    · rw [ErrorTable.evict_of_length_le _ (by omega)]
      exact iff_of_true hmem (Or.inr (Or.inl hfull))
    · rw [ErrorTable.mem_evict_of_length (by omega) hmem, Option.isSome_none,
        or_iff_right Bool.false_ne_true, or_iff_right hfull]
      rw [ErrorTable.find_eq_none_iff] at hfound
      have horder : ∀ row ∈ t.rows,
          ((evictionOrder (t.recordedRow occ (c.toRfc3339 occ.at')) row).isLE
            ↔ EvictedBefore c occ row) := by
        intro row hrow
        apply evictionOrder_isLE_iff doc hocc (t.recordedRow_dedupeKey occ _)
          (t.recordedRow_lastSeen occ _) (sound.last row hrow) (hfound row hrow)
      constructor
      · rintro ⟨row, hrow, hne, hle⟩
        obtain hsame | ⟨hold, -⟩ := (t.mem_upsert occ _).mp hrow
        · contradiction
        · exact ⟨row, hold, (horder row hold).mp hle⟩
      · rintro ⟨row, hold, hbefore⟩
        use row, (t.mem_upsert occ _).mpr (Or.inr ⟨hold, hfound row hold⟩)
        constructor
        · rintro rfl
          apply hfound _ hold (t.recordedRow_dedupeKey occ _)
        · apply (horder row hold).mpr hbefore

omit [LinearOrder τ] doc sound in
theorem mem_upsert_of_mem_recordError {row : ErrorRow} (h : row ∈ (recordError c t occ).1.rows) :
  row = t.recordedRow occ (c.toRfc3339 occ.at') ∨ row ∈ t.rows ∧ row.dedupeKey ≠ occ.dedupeKey
  := by
  apply (t.mem_upsert occ _).mp
  apply List.mem_of_mem_filter h

omit [LinearOrder τ] doc sound in
/-- What is returned is what is read of the row of the error. -/
theorem recordError_result
    (kept : t.recordedRow occ (c.toRfc3339 occ.at') ∈ (recordError c t occ).1.rows) :
  (recordError c t occ).2 = errorRecordFromRow c (t.recordedRow occ (c.toRfc3339 occ.at'))
  := by
  have hfind := ErrorTable.find_eq_some_iff.mpr ⟨kept, t.recordedRow_dedupeKey occ _⟩
  rw [recordError] at hfind ⊢
  dsimp only at hfind ⊢
  rw [hfind]

omit doc in
/-- A recorded error leaves a sound table. -/
theorem ErrorTable.Sound.recordError (h : Recordable c t occ) :
  (recordError c t occ).1.Sound c
  := by
  have hseen : Stamp c (c.toRfc3339 occ.at') := ⟨occ.at', h.fourDigits, rfl⟩
  constructor
  · apply ErrorTable.length_evict_le
  · intro row hrow
    obtain rfl | ⟨hold, -⟩ := mem_upsert_of_mem_recordError hrow
    · rw [ErrorTable.recordedRow_count]
      apply h.countable
    · apply sound.counted row hold
  · intro row hrow
    obtain rfl | ⟨hold, -⟩ := mem_upsert_of_mem_recordError hrow
    · rw [ErrorTable.recordedRow_firstSeen]
      cases hfound : t.find occ.dedupeKey with
      | none => apply hseen
      | some old => apply sound.first old (ErrorTable.find_eq_some_iff.mp hfound).1
    · apply sound.first row hold
  · intro row hrow
    obtain rfl | ⟨hold, -⟩ := mem_upsert_of_mem_recordError hrow
    · rw [ErrorTable.recordedRow_lastSeen]
      apply hseen
    · apply sound.last row hold

theorem neverLost_iff :
  NeverLost c t occ ↔ Recordable c t occ
  := by
  constructor
  · intro h
    obtain ⟨row, hrow, hkey, hresult⟩ := h.kept
    obtain ⟨first, -, hreturned⟩ := h.returned
    obtain rfl | ⟨-, hne⟩ := mem_upsert_of_mem_recordError hrow
    · rw [hreturned] at hresult
      obtain ⟨hcount, hyear⟩ := readable_of_errorRecordFromRow doc hresult.symm
        (t.recordedRow_lastSeen occ _)
      rw [ErrorTable.recordedRow_count] at hcount
      exact ⟨hyear, hcount, (mem_recordError_iff doc sound hyear).mp hrow⟩
    · contradiction
  · intro h
    have hsound := sound.recordError h
    have hkept := (mem_recordError_iff doc sound h.fourDigits).mpr h.room
    constructor
    · apply hsound.bounded
    · obtain ⟨first, hfirst, hfirstSeen⟩ := hsound.first _ hkept
      use first
      constructor
      · rw [ErrorTable.recordedRow_firstSeen] at hfirstSeen
        cases hfound : t.find occ.dedupeKey with
        | none =>
          rw [hfound, Option.elim_none, toRfc3339_inj doc h.fourDigits hfirst] at hfirstSeen
          rw [hfirstSeen, Option.elim_none]
        | some old =>
          rw [hfound, Option.elim_some] at hfirstSeen
          rw [Option.elim_some, hfirstSeen, parseTs_toRfc3339 doc hfirst]
      · rw [recordError_result hkept, errorRecordFromRow_eq_ok doc hfirst h.fourDigits
          (hsound.counted _ hkept) hfirstSeen (t.recordedRow_lastSeen occ _),
          ErrorTable.recordedRow_eq]
        rfl
    · exact ⟨_, hkept, t.recordedRow_dedupeKey occ _, recordError_result hkept⟩
    · apply hsound.listedByTime doc

/-- A row without room is evicted at once, and the call fails. -/
theorem recordError_without_room (hocc : (c.civil occ.at').FourDigits) (full : ¬ Room c t occ) :
  (recordError c t occ).2 = .error (.backend "Query returned no rows")
  := by
  rw [← mem_recordError_iff doc sound hocc] at full
  have hnone : (recordError c t occ).1.find occ.dedupeKey = none := by
    rw [ErrorTable.find_eq_none_iff]
    intro row hrow
    obtain rfl | ⟨-, hne⟩ := mem_upsert_of_mem_recordError hrow
    · contradiction
    · apply hne
  rw [recordError] at hnone ⊢
  dsimp only at hnone ⊢
  rw [hnone]

end Sound

/-! ### Errors recorded one after another -/

/-- No recorded error is lost exactly when each is recordable in its turn. -/
theorem keeps_errors_iff_recordable {c : Chrono τ} (doc : c.Documented) {t : ErrorTable}
    (sound : t.Sound c) (occs : List (ErrorOccurrence τ)) :
  (errorInbox c).Along (NeverLost c) t occs ↔ (errorInbox c).Along (Recordable c) t occs
  := by
  apply Machine.along_iff_along _ sound
  · intro t occ h sound
    apply sound.recordError h
  · intro t occ sound
    apply neverLost_iff doc sound

omit [LinearOrder τ] in
/-- The rows of new keys are appended below the cap. -/
theorem final_of_fresh (c : Chrono τ) (t : ErrorTable) (occs : List (ErrorOccurrence τ))
    (distinct : (occs.map ErrorOccurrence.dedupeKey).Nodup)
    (fresh : ∀ occ ∈ occs, ∀ row ∈ t.rows, row.dedupeKey ≠ occ.dedupeKey)
    (room : t.rows.length + occs.length ≤ errorInboxMaxRows) :
  ((errorInbox c).final t occs).rows
    = t.rows ++ occs.map fun occ => insertedRow occ (c.toRfc3339 occ.at')
  := by
  induction occs generalizing t with
  | nil => rw [List.map_nil, List.append_nil, Machine.final]
  | cons occ occs ih =>
    rw [List.map_cons, List.nodup_cons] at distinct
    rw [List.forall_mem_cons] at fresh
    rw [List.length_cons] at room
    have hnone := ErrorTable.find_eq_none_iff.mpr fresh.1
    have hlength := t.length_upsert occ (c.toRfc3339 occ.at')
    rw [hnone, Option.isSome_none, if_neg Bool.false_ne_true] at hlength
    have hnext : ((errorInbox c).next t occ).rows
        = t.rows ++ [insertedRow occ (c.toRfc3339 occ.at')] := by
      have hkept := ErrorTable.evict_of_length_le _ (hlength.trans_le (by omega))
      change (t.upsert occ (c.toRfc3339 occ.at')).evict.rows = _
      rw [hkept, ErrorTable.upsert]
      dsimp only
      rw [hnone, Option.isSome_none, if_neg Bool.false_ne_true]
    rw [Machine.final, ih _ distinct.2, hnext, List.map_cons, List.append_assoc,
      List.singleton_append]
    · intro occ' hocc' row hrow
      rw [hnext, List.mem_append, List.mem_singleton] at hrow
      obtain hrow | rfl := hrow
      · apply fresh.2 occ' hocc' row hrow
      · intro hkey
        apply distinct.1
        rw [show occ.dedupeKey = occ'.dedupeKey from hkey]
        apply List.mem_map_of_mem hocc'
    · rw [hnext, List.length_append, List.length_singleton]
      omega

/-! ### The hours of a day -/

def civilHour (hour : Fin 24) : Civil where
  year := 2026
  month := 8
  day := 5
  hour := hour
  minute := 0
  second := 0
  nanos := 0
  month_le := by decide
  day_le := by decide
  hour_lt := hour.isLt
  minute_lt := by decide
  second_le := by decide
  nanos_lt := by decide

/-- The full hours of one day, as timestamps. -/
def hours : Chrono (Fin 24) where
  civil := civilHour
  toRfc3339 hour := String.ofList (civilHour hour).rfc3339
  parseFromRfc3339 text :=
    match (List.finRange 24).find? fun hour => (civilHour hour).rfc3339 = text.toList with
    | some hour => .ok hour
    | none => .error "input contains invalid characters"

theorem fourDigits_hour (hour : Fin 24) :
  (civilHour hour).FourDigits
  := by
  constructor
  · change (0 : ℤ) ≤ 2026
    decide
  · change (2026 : ℤ) ≤ 9999
    decide

theorem before_hour_iff (t u : Fin 24) :
  (civilHour t).Before (civilHour u) ↔ t < u
  := by
  simp [Civil.Before, civilHour]

theorem rfc3339_hour_injective {t u : Fin 24} (h : (civilHour t).rfc3339 = (civilHour u).rfc3339) :
  t = u
  := by
  rcases lt_trichotomy t u with hlt | heq | hlt
  · rw [← before_hour_iff, ← Civil.rfc3339_lt_iff (fourDigits_hour t) (fourDigits_hour u), h] at hlt
    exact absurd hlt (lt_irrefl _)
  · apply heq
  · rw [← before_hour_iff, ← Civil.rfc3339_lt_iff (fourDigits_hour u) (fourDigits_hour t), h] at hlt
    exact absurd hlt (lt_irrefl _)

theorem documented_hours : hours.Documented
  := by
  constructor
  · intro t u
    apply (before_hour_iff t u).symm
  · intro t _
    apply String.toList_ofList
  · intro t _
    rw [hours]
    dsimp only
    rw [String.toList_ofList]
    cases hfound : (List.finRange 24).find? fun hour =>
        decide ((civilHour hour).rfc3339 = (civilHour t).rfc3339) with
    | none => simpa using List.find?_eq_none.mp hfound t (List.mem_finRange t)
    | some u =>
      have hsame := List.find?_some hfound
      rw [decide_eq_true_iff] at hsame
      rw [rfc3339_hour_injective hsame]
  · intro t h
    exact absurd (fourDigits_hour t) h

/-- An error of one class, by the length of its key, seen at an hour. -/
def failureAt (n : ℕ) (hour : Fin 24) : ErrorOccurrence (Fin 24) where
  dedupeKey := String.ofList (List.replicate n 'e')
  source := "github"
  severity := "permanent"
  operation := none
  workspaceKey := none
  message := "failure"
  raw := "raw"
  at' := hour

/-- A class which was seen before. -/
def seenOnce (hour : Fin 24) : ErrorTable where
  rows := [insertedRow (failureAt 1 hour) (hours.toRfc3339 hour)]
  distinct := by simp

/-- A class that is there already is recorded, also when the clock went back. -/
theorem keeps_errors_seenOnce :
  (errorInbox hours).Along (Recordable hours) (seenOnce 3) [failureAt 1 2]
    ∧ (errorInbox hours).Along (NeverLost hours) (seenOnce 3) [failureAt 1 2]
  := by
  have hstamp : Stamp hours (hours.toRfc3339 3) := ⟨3, fourDigits_hour 3, rfl⟩
  have hsound : (seenOnce 3).Sound hours := by
    constructor
    · decide
    · simp [seenOnce, insertedRow, integerEnd]
    · simpa [seenOnce, insertedRow] using hstamp
    · simpa [seenOnce, insertedRow] using hstamp
  have hfound : (seenOnce 3).find (failureAt 1 2).dedupeKey
      = some (insertedRow (failureAt 1 3) (hours.toRfc3339 3)) := by
    rw [ErrorTable.find_eq_some_iff]
    exact ⟨List.mem_singleton_self _, rfl⟩
  have hrecordable : Recordable hours (seenOnce 3) (failureAt 1 2) := by
    constructor
    · apply fourDigits_hour
    · rw [ErrorTable.timesSeen, hfound]
      simp [insertedRow, integerEnd]
    · left
      rw [hfound, Option.isSome_some]
  have along : (errorInbox hours).Along (Recordable hours) (seenOnce 3) [failureAt 1 2] :=
    ⟨hrecordable, trivial⟩
  exact ⟨along, (keeps_errors_iff_recordable documented_hours hsound _).mpr along⟩

/-- As many classes as the cap allows, all seen at one hour. -/
def classes (hour : Fin 24) : List (ErrorOccurrence (Fin 24)) :=
  (List.range errorInboxMaxRows).map fun n => failureAt n hour

def fullInbox (hour : Fin 24) : ErrorTable :=
  (errorInbox hours).final ErrorTable.empty (classes hour)

section Full

variable {hour : Fin 24}

theorem rows_fullInbox (hour : Fin 24) :
  (fullInbox hour).rows
    = (List.range errorInboxMaxRows).map fun n =>
        insertedRow (failureAt n hour) (hours.toRfc3339 hour)
  := by
  rw [fullInbox, final_of_fresh, classes, List.map_map]
  · rw [ErrorTable.empty, List.nil_append]
    apply List.map_congr_left
    intro n _
    rfl
  · rw [classes, List.map_map]
    apply List.nodup_range.map
    intro m n h
    have hlength := congrArg String.length h
    simpa [failureAt] using hlength
  · intro occ _ row hrow
    cases hrow
  · rw [classes, List.length_map, List.length_range]
    apply (Nat.zero_add _).le

theorem length_fullInbox :
  (fullInbox hour).rows.length = errorInboxMaxRows
  := by
  rw [rows_fullInbox, List.length_map, List.length_range]

theorem exists_of_mem_fullInbox {row : ErrorRow} (h : row ∈ (fullInbox hour).rows) :
  ∃ n < errorInboxMaxRows, row = insertedRow (failureAt n hour) (hours.toRfc3339 hour)
  := by
  rw [rows_fullInbox, List.mem_map] at h
  obtain ⟨n, hn, rfl⟩ := h
  exact ⟨n, List.mem_range.mp hn, rfl⟩

theorem sound_fullInbox :
  (fullInbox hour).Sound hours
  := by
  have hstamp : Stamp hours (hours.toRfc3339 hour) := ⟨hour, fourDigits_hour hour, rfl⟩
  constructor
  · apply length_fullInbox.le
  · intro row hrow
    obtain ⟨n, -, rfl⟩ := exists_of_mem_fullInbox hrow
    change 1 < integerEnd
    decide
  · intro row hrow
    obtain ⟨n, -, rfl⟩ := exists_of_mem_fullInbox hrow
    apply hstamp
  · intro row hrow
    obtain ⟨n, -, rfl⟩ := exists_of_mem_fullInbox hrow
    apply hstamp

/-- An earlier error of one more class finds no room. -/
theorem full_of_earlier {earlier : Fin 24} (h : earlier < hour) :
  ¬ Room hours (fullInbox hour) (failureAt errorInboxMaxRows earlier)
  := by
  have hnone : (fullInbox hour).find (failureAt errorInboxMaxRows earlier).dedupeKey = none := by
    rw [ErrorTable.find_eq_none_iff]
    intro row hrow hkey
    obtain ⟨n, hn, rfl⟩ := exists_of_mem_fullInbox hrow
    have hlength := congrArg String.length hkey
    rw [failureAt, insertedRow, failureAt] at hlength
    simp at hlength
    omega
  rintro (hfound | hlength | ⟨row, hrow, u, hread, horder⟩)
  · rw [hnone] at hfound
    cases hfound
  · rw [length_fullInbox] at hlength
    apply lt_irrefl _ hlength
  · obtain ⟨n, -, rfl⟩ := exists_of_mem_fullInbox hrow
    have hlast : (insertedRow (failureAt n hour) (hours.toRfc3339 hour)).lastSeen
        = hours.toRfc3339 hour := by
      rw [insertedRow]
    rw [hlast, documented_hours.readable hour (fourDigits_hour hour), Except.ok.injEq] at hread
    rw [← hread] at horder
    obtain hlt | ⟨heq, -⟩ := horder
    · apply lt_asymm hlt h
    · apply h.ne' heq

end Full

/-- The clock goes back by an hour: the first error of one more class is lost. -/
theorem older_error_lost :
  ¬ (errorInbox hours).Along (NeverLost hours) ErrorTable.empty
      (classes 2 ++ [failureAt errorInboxMaxRows 1])
    ∧ (recordError hours (fullInbox 2) (failureAt errorInboxMaxRows 1)).2
      = .error (.backend "Query returned no rows")
  := by
  have hroom : ¬ Room hours (fullInbox 2) (failureAt errorInboxMaxRows 1) :=
    full_of_earlier (by decide)
  constructor
  · rw [Machine.along_append]
    rintro ⟨-, hlast, -⟩
    apply hroom
    apply ((neverLost_iff documented_hours sound_fullInbox).mp hlast).room
  · apply recordError_without_room documented_hours sound_fullInbox (fourDigits_hour _) hroom

end Lazybox.Store
