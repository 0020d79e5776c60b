import Lazybox.Core.Decimal
import Mathlib.Logic.Function.Basic

/-!
# The rows of metered cost

What a workspace has spent is kept in the key-value store as two rows: the total spent under a
key, and the part of it that was reported.  Both are decimal texts of unsigned numbers of
64 bits, and an absent or unreadable row counts as nothing.  What is not reported yet is the
difference.

A `Slice` is what the two rows of a key stand for, and `slices` reads the slices of every key off
a store.  What a function of the store does to them is what the function of the same name on
slices says.
-/

namespace Lazybox

/-! ### Unsigned numbers of 64 bits -/

def u64Max : ℕ := 18446744073709551615

def saturatingAdd (m n : ℕ) : ℕ := min (m + n) u64Max

variable {n : ℕ}

theorem saturatingAdd_eq {m : ℕ} (h : m + n ≤ u64Max) :
  saturatingAdd m n = m + n
  := by
  apply min_eq_left h

theorem saturatingAdd_le (m n : ℕ) :
  saturatingAdd m n ≤ u64Max
  := by
  apply min_le_right

@[simp] theorem saturatingAdd_zero_left (h : n ≤ u64Max) :
  saturatingAdd 0 n = n
  := by
  rw [saturatingAdd_eq] <;> omega

/-! ### The store -/

/-- The rows of the store: the text under each key, if there is one. -/
abbrev Kv := String → Option String

namespace Kv

def getKv (store : Kv) (key : String) : Option String := store key

def setKv (store : Kv) (key value : String) : Kv := Function.update store key (some value)

def deleteKv (store : Kv) (key : String) : Kv := Function.update store key none

end Kv

def sessionCostKvPrefix : String := "meter-cost:"

def sessionCostMarkKvPrefix : String := "meter-cost-mark:"

/-- The number under a prefixed key.  A row that is absent, or does not parse, is a zero. -/
def readMicros (store : Kv) (before key : String) : ℕ :=
  ((store.getKv (before ++ key)).bind fun s => parseU64 s.toList).getD 0

def addSessionCost (store : Kv) (sessionKey : String) (deltaMicros : ℕ) : Kv :=
  if deltaMicros = 0 then store
  else
    let kvKey := sessionCostKvPrefix ++ sessionKey
    let current := readMicros store sessionCostKvPrefix sessionKey
    let total := saturatingAdd current deltaMicros
    store.setKv kvKey (toString total)

def clearSessionCost (store : Kv) (sessionKey : String) : Kv :=
  (store.deleteKv (sessionCostKvPrefix ++ sessionKey)).deleteKv
    (sessionCostMarkKvPrefix ++ sessionKey)

/-- Fold the cost of `src` into `dst` and drop the rows of `src`.  The part of it that was
reported is dropped, not folded. -/
def moveSessionCost (store : Kv) (src dst : String) : Kv :=
  if src = dst then store
  else
    let moving := readMicros store sessionCostKvPrefix src
    if moving = 0 then store
    else
      let total := saturatingAdd (readMicros store sessionCostKvPrefix dst) moving
      clearSessionCost (store.setKv (sessionCostKvPrefix ++ dst) (toString total)) src

def unreportedSessionCost (store : Kv) (sessionKey : String) : ℕ :=
  readMicros store sessionCostKvPrefix sessionKey
    - readMicros store sessionCostMarkKvPrefix sessionKey

def markSessionCostReported (store : Kv) (sessionKey : String) (reportedMicros : ℕ) : Kv :=
  if reportedMicros = 0 then store
  else
    let markKey := sessionCostMarkKvPrefix ++ sessionKey
    let current := readMicros store sessionCostMarkKvPrefix sessionKey
    store.setKv markKey (toString (saturatingAdd current reportedMicros))

/-! ### What the rows of a key stand for -/

/-- The total spent under a key, and the watermark: the part of it that was reported. -/
structure Slice where
  total : ℕ
  mark : ℕ
deriving DecidableEq, Repr

/-- The slices of the keys. -/
abbrev Meter (κ : Type*) := κ → Slice

namespace Meter

variable {κ : Type*} [DecidableEq κ]

def empty : Meter κ := fun _ => ⟨0, 0⟩

def unreported (m : Meter κ) (key : κ) : ℕ := (m key).total - (m key).mark

def add (m : Meter κ) (key : κ) (delta : ℕ) : Meter κ :=
  Function.update m key ⟨saturatingAdd (m key).total delta, (m key).mark⟩

def mark (m : Meter κ) (key : κ) (reported : ℕ) : Meter κ :=
  Function.update m key ⟨(m key).total, saturatingAdd (m key).mark reported⟩

def move (m : Meter κ) (src dst : κ) : Meter κ :=
  if src = dst ∨ (m src).total = 0 then m
  else
    Function.update
      (Function.update m dst ⟨saturatingAdd (m dst).total (m src).total, (m dst).mark⟩)
      src ⟨0, 0⟩

end Meter

/-- The slices the rows of a store stand for. -/
def slices (store : Kv) : Meter String := fun key =>
  ⟨readMicros store sessionCostKvPrefix key, readMicros store sessionCostMarkKvPrefix key⟩

/-! ### Reading what was written -/

theorem parseU64_le {s : List Char} (h : parseU64 s = some n) :
  n ≤ u64Max
  := by
  simp only [parseU64, Option.ite_none_right_eq_some, Option.some.injEq] at h
  obtain ⟨⟨-, -, hlt⟩, rfl⟩ := h
  rw [u64Max]
  omega

variable (store : Kv)

theorem readMicros_le (before key : String) :
  readMicros store before key ≤ u64Max
  := by
  rw [readMicros]
  cases hread : (store.getKv (before ++ key)).bind fun s => parseU64 s.toList with
  | none => apply Nat.zero_le
  | some n =>
    obtain ⟨s, -, hs⟩ := Option.bind_eq_some_iff.mp hread
    apply parseU64_le hs

variable {before : String}

theorem append_cancel_left {a b : String} :
  before ++ a = before ++ b ↔ a = b
  := by
  rw [← String.toList_inj, ← String.toList_inj, String.toList_append, String.toList_append,
    List.append_cancel_left_eq]

/-- The row of a total is not the row of a watermark. -/
theorem costKey_ne_markKey (a b : String) :
  sessionCostKvPrefix ++ a ≠ sessionCostMarkKvPrefix ++ b
  := by
  intro h
  have h' := congrArg String.toList h
  rw [String.toList_append, String.toList_append] at h'
  simp [sessionCostKvPrefix, sessionCostMarkKvPrefix] at h'

theorem readMicros_setKv_self (before key : String) (h : n ≤ u64Max) :
  readMicros (store.setKv (before ++ key) (toString n)) before key = n
  := by
  rw [readMicros, Kv.getKv, Kv.setKv, Function.update_self, Option.bind_some,
    parseU64_toString h, Option.getD_some]

theorem readMicros_setKv_of_ne {key written value : String} (h : before ++ key ≠ written) :
  readMicros (store.setKv written value) before key = readMicros store before key
  := by
  simp [readMicros, Kv.getKv, Kv.setKv, Function.update_of_ne h]

theorem readMicros_deleteKv_self (before key : String) :
  readMicros (store.deleteKv (before ++ key)) before key = 0
  := by
  simp [readMicros, Kv.getKv, Kv.deleteKv]

theorem readMicros_deleteKv_of_ne {key deleted : String} (h : before ++ key ≠ deleted) :
  readMicros (store.deleteKv deleted) before key = readMicros store before key
  := by
  simp [readMicros, Kv.getKv, Kv.deleteKv, Function.update_of_ne h]

/-- A number written under a prefixed key is what is read under that key, and changes nothing
that is read under another. -/
theorem readMicros_setKv (before key k : String) (h : n ≤ u64Max) :
  readMicros (store.setKv (before ++ key) (toString n)) before k
    = if k = key then n else readMicros store before k
  := by
  split_ifs with hk
  · rw [hk, readMicros_setKv_self _ _ _ h]
  · apply readMicros_setKv_of_ne
    rwa [Ne, append_cancel_left]

theorem readMicros_deleteKv (before key k : String) :
  readMicros (store.deleteKv (before ++ key)) before k
    = if k = key then 0 else readMicros store before k
  := by
  split_ifs with hk
  · rw [hk, readMicros_deleteKv_self]
  · apply readMicros_deleteKv_of_ne
    rwa [Ne, append_cancel_left]

/-! ### The functions of the store, on slices -/

@[simp] theorem slices_empty :
  slices (fun _ => none) = Meter.empty
  := rfl

@[simp] theorem unreportedSessionCost_eq (key : String) :
  unreportedSessionCost store key = (slices store).unreported key
  := rfl

theorem slices_setTotal (key : String) (h : n ≤ u64Max) :
  slices (store.setKv (sessionCostKvPrefix ++ key) (toString n))
    = Function.update (slices store) key ⟨n, (slices store key).mark⟩
  := by
  funext k
  rw [slices, readMicros_setKv _ _ _ _ h,
    readMicros_setKv_of_ne _ (costKey_ne_markKey key k).symm, Function.update_apply]
  split_ifs with hk
  · rw [hk, slices]
  · rfl

theorem slices_setMark (key : String) (h : n ≤ u64Max) :
  slices (store.setKv (sessionCostMarkKvPrefix ++ key) (toString n))
    = Function.update (slices store) key ⟨(slices store key).total, n⟩
  := by
  funext k
  rw [slices, readMicros_setKv _ _ _ _ h, readMicros_setKv_of_ne _ (costKey_ne_markKey k key),
    Function.update_apply]
  split_ifs with hk
  · rw [hk, slices]
  · rfl

theorem slices_clearSessionCost (key : String) :
  slices (clearSessionCost store key) = Function.update (slices store) key ⟨0, 0⟩
  := by
  funext k
  rw [slices, clearSessionCost, readMicros_deleteKv,
    readMicros_deleteKv_of_ne _ (costKey_ne_markKey k key), readMicros_deleteKv,
    readMicros_deleteKv_of_ne _ (costKey_ne_markKey key k).symm, Function.update_apply]
  split_ifs with hk
  · rfl
  · rfl

@[simp] theorem slices_addSessionCost (key : String) (delta : ℕ) :
  slices (addSessionCost store key delta) = (slices store).add key delta
  := by
  unfold addSessionCost
  split_ifs with hdelta
  · rw [Meter.add, hdelta, saturatingAdd_eq (by apply readMicros_le), Nat.add_zero,
      Function.update_eq_self]
  · apply slices_setTotal _ _ (saturatingAdd_le _ _)

@[simp] theorem slices_moveSessionCost (src dst : String) :
  slices (moveSessionCost store src dst) = (slices store).move src dst
  := by
  unfold moveSessionCost Meter.move
  by_cases hsame : src = dst
  · rw [if_pos hsame, if_pos (Or.inl hsame)]
  · rw [if_neg hsame]
    dsimp only
    by_cases hzero : readMicros store sessionCostKvPrefix src = 0
    · have hstays : src = dst ∨ (slices store src).total = 0 := Or.inr hzero
      rw [if_pos hzero, if_pos hstays]
    · have hmoves : ¬(src = dst ∨ (slices store src).total = 0) := not_or.mpr ⟨hsame, hzero⟩
      rw [if_neg hzero, if_neg hmoves, slices_clearSessionCost,
        slices_setTotal _ _ (saturatingAdd_le _ _)]
      rfl

@[simp] theorem slices_markSessionCostReported (key : String) (reported : ℕ) :
  slices (markSessionCostReported store key reported) = (slices store).mark key reported
  := by
  unfold markSessionCostReported
  split_ifs with hreported
  · rw [Meter.mark, hreported, saturatingAdd_eq (by apply readMicros_le), Nat.add_zero,
      Function.update_eq_self]
  · apply slices_setMark _ _ (saturatingAdd_le _ _)

end Lazybox
