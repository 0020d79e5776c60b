import Lazybox.Cost.Meter
import Lazybox.Library.Run
import Mathlib.Algebra.BigOperators.Group.Finset.Basic
import Mathlib.Algebra.Order.BigOperators.Group.Finset

/-!
# Metered cost over a store that fails

Any operation of the store may fail.  A failed write leaves the store as it was, and so does a
failed deletion; but a failed read counts as nothing, as an absent row does, and what is written
after it takes the place of a total that was never read.
-/

namespace Lazybox

/-- An operation of the store, on the row under a key. -/
inductive KvOp where
  | get (key : String)
  | set (key : String)
  | delete (key : String)
deriving DecidableEq, Repr

namespace FailingKv

variable (fails : KvOp → Bool) (store : Kv)

/-! ### The store -/

def getKv (key : String) : Option (Option String) :=
  if fails (.get key) then none else some (store.getKv key)

def setKv (key value : String) : Option Kv :=
  if fails (.set key) then none else some (store.setKv key value)

def deleteKv (key : String) : Option Kv :=
  if fails (.delete key) then none else some (store.deleteKv key)

/-! ### Metering -/

/-- The total under a key.  A read that fails is a zero, and so is a row that is absent or does not
parse. -/
def readTotal (sessionKey : String) : ℕ :=
  ((getKv fails store (sessionCostKvPrefix ++ sessionKey)).join.bind
    fun s => parseU64 s.toList).getD 0

def addSessionCost (sessionKey : String) (deltaMicros : ℕ) : Kv :=
  if deltaMicros = 0 then store
  else
    let current := readTotal fails store sessionKey
    let total := saturatingAdd current deltaMicros
    (setKv fails store (sessionCostKvPrefix ++ sessionKey) (toString total)).getD store

def clearSessionCost (sessionKey : String) : Kv :=
  let store := (deleteKv fails store (sessionCostKvPrefix ++ sessionKey)).getD store
  (deleteKv fails store (sessionCostMarkKvPrefix ++ sessionKey)).getD store

/-- Fold the cost of `src` into `dst`, and tell whether anything moved. -/
def moveSessionCost (src dst : String) : Kv × Bool :=
  if src = dst then (store, false)
  else
    let moving := readTotal fails store src
    if moving = 0 then (store, false)
    else
      let total := saturatingAdd (readTotal fails store dst) moving
      match setKv fails store (sessionCostKvPrefix ++ dst) (toString total) with
      | none => (store, false)
      | some store => (clearSessionCost fails store src, true)

/-! ### A store that does not fail -/

end FailingKv

/-- A call, of which every operation on the store may fail. -/
inductive CostCall where
  | add (sessionKey : String) (deltaMicros : ℕ)
  | move (src dst : String)
deriving DecidableEq, Repr

namespace CostCall

def run (call : CostCall) (fails : KvOp → Bool) (store : Kv) : Kv :=
  match call with
  | add sessionKey deltaMicros => FailingKv.addSessionCost fails store sessionKey deltaMicros
  | move src dst => (FailingKv.moveSessionCost fails store src dst).1

/-- The cost that a call reports. -/
def delta : CostCall → ℕ
  | add _ deltaMicros => deltaMicros
  | move _ _ => 0

def keys : CostCall → Finset String
  | add sessionKey _ => {sessionKey}
  | move src dst => {src, dst}

end CostCall

def totals (store : Kv) (key : String) : ℕ := readMicros store sessionCostKvPrefix key

/-- The calls and the failures they meet, one after another. -/
def metering : Machine Kv (CostCall × (KvOp → Bool)) Unit where
  step store a := (a.1.run a.2 store, [])

/-! ### Accumulated cost -/

/-- A call keeps the cost that was accumulated.  A total decreases only in a move that credits what
is taken, so that of what is to be there no more than the delta of the call is lost. -/
structure KeepsCost (call : CostCall) (before after : String → ℕ) : Prop where
  credited : ∀ key, after key < before key →
    ∃ dst, call = .move key dst ∧ after dst = before dst + (before key - after key)
  lost : ∀ keys, call.keys ⊆ keys →
    (∑ key ∈ keys, before key + call.delta) - ∑ key ∈ keys, after key ≤ call.delta

/-- What is written after a failed read is no less than what was there, and what is dropped was
credited in full. -/
def Harmless (store : Kv) : CostCall × (KvOp → Bool) → Prop
  | (.add key delta, fails) =>
      delta ≠ 0 → fails (.get (sessionCostKvPrefix ++ key)) →
        ¬fails (.set (sessionCostKvPrefix ++ key)) → totals store key ≤ delta
  | (.move src dst, fails) =>
      src ≠ dst → ¬fails (.get (sessionCostKvPrefix ++ src)) → totals store src ≠ 0 →
        ¬fails (.set (sessionCostKvPrefix ++ dst)) →
          (fails (.get (sessionCostKvPrefix ++ dst)) → totals store dst ≤ totals store src)
            ∧ (¬fails (.delete (sessionCostKvPrefix ++ src)) →
              if fails (.get (sessionCostKvPrefix ++ dst)) then totals store dst = 0
              else totals store dst + totals store src ≤ u64Max)

/-! ### Totals after a call -/

section Totals

variable (fails : KvOp → Bool) (store : Kv)

variable (key : String)

theorem totals_le :
  totals store key ≤ u64Max
  := readMicros_le store sessionCostKvPrefix key

theorem readTotal_eq :
  FailingKv.readTotal fails store key
    = if fails (.get (sessionCostKvPrefix ++ key)) then 0 else totals store key
  := by
  rw [FailingKv.readTotal, FailingKv.getKv]
  split
  · rfl
  · rfl

theorem totals_setKv {n : ℕ} (h : n ≤ u64Max) :
  totals (store.setKv (sessionCostKvPrefix ++ key) (toString n))
    = Function.update (totals store) key n
  := by
  funext k
  rw [totals, readMicros_setKv _ _ _ _ h, Function.update_apply]
  rfl

theorem totals_addSessionCost (delta : ℕ) :
  totals (FailingKv.addSessionCost fails store key delta)
    = if delta = 0 ∨ fails (.set (sessionCostKvPrefix ++ key)) then totals store
      else Function.update (totals store) key
        (saturatingAdd (FailingKv.readTotal fails store key) delta)
  := by
  rw [FailingKv.addSessionCost]
  by_cases hdelta : delta = 0
  · rw [if_pos hdelta, if_pos (Or.inl hdelta)]
  · rw [if_neg hdelta]
    dsimp only
    rw [FailingKv.setKv]
    by_cases hset : fails (.set (sessionCostKvPrefix ++ key))
    · rw [if_pos hset, if_pos (Or.inr hset), Option.getD_none]
    · rw [if_neg hset, if_neg (not_or_intro hdelta hset), Option.getD_some,
        totals_setKv _ _ (saturatingAdd_le _ _)]

theorem totals_clearSessionCost :
  totals (FailingKv.clearSessionCost fails store key)
    = if fails (.delete (sessionCostKvPrefix ++ key)) then totals store
      else Function.update (totals store) key 0
  := by
  have hmark : ∀ store : Kv,
      totals ((FailingKv.deleteKv fails store (sessionCostMarkKvPrefix ++ key)).getD store)
        = totals store := by
    intro store
    rw [FailingKv.deleteKv]
    split
    · rfl
    · funext k
      apply readMicros_deleteKv_of_ne _ (costKey_ne_markKey k key)
  rw [FailingKv.clearSessionCost, hmark, FailingKv.deleteKv]
  split
  · rfl
  · funext k
    rw [Option.getD_some, totals, readMicros_deleteKv, Function.update_apply]
    rfl

theorem totals_moveSessionCost (src dst : String) :
  totals (FailingKv.moveSessionCost fails store src dst).1
    = if src = dst ∨ FailingKv.readTotal fails store src = 0
        ∨ fails (.set (sessionCostKvPrefix ++ dst)) then totals store
      else
        let credited := Function.update (totals store) dst
          (saturatingAdd (FailingKv.readTotal fails store dst)
            (FailingKv.readTotal fails store src))
        if fails (.delete (sessionCostKvPrefix ++ src)) then credited
        else Function.update credited src 0
  := by
  rw [FailingKv.moveSessionCost]
  by_cases hsame : src = dst
  · rw [if_pos hsame, if_pos (Or.inl hsame)]
  · rw [if_neg hsame]
    dsimp only
    by_cases hzero : FailingKv.readTotal fails store src = 0
    · rw [if_pos hzero, if_pos (Or.inr (Or.inl hzero))]
    · rw [if_neg hzero, FailingKv.setKv]
      by_cases hset : fails (.set (sessionCostKvPrefix ++ dst))
      · rw [if_pos hset, if_pos (Or.inr (Or.inr hset))]
      · rw [if_neg hset, if_neg (not_or_intro hsame (not_or_intro hzero hset))]
        dsimp only
        rw [totals_clearSessionCost, totals_setKv _ _ (saturatingAdd_le _ _)]

end Totals

/-! ### What a call keeps -/

section Keeps

variable {call : CostCall} {before after : String → ℕ} {src dst key : String} {n : ℕ}

/-- What is credited where it is taken from another key is not lost. -/
theorem sum_le_of_credited
    (credited : ∀ key, after key < before key →
      ∃ dst, call = .move key dst ∧ after dst = before dst + (before key - after key))
    {keys : Finset String} (h : call.keys ⊆ keys) :
  ∑ key ∈ keys, before key ≤ ∑ key ∈ keys, after key
  := by
  by_cases hkept : ∀ key ∈ keys, before key ≤ after key
  · apply Finset.sum_le_sum hkept
  · simp only [not_forall, not_le] at hkept
    obtain ⟨src, -, hless⟩ := hkept
    obtain ⟨dst, rfl, hdst⟩ := credited src hless
    have hsrc : src ∈ keys := h (by simp [CostCall.keys])
    have hne : dst ≠ src := by
      rintro rfl
      omega
    have hmem : dst ∈ keys.erase src := Finset.mem_erase.mpr ⟨hne, h (by simp [CostCall.keys])⟩
    have hrest : ∑ key ∈ (keys.erase src).erase dst, before key
        ≤ ∑ key ∈ (keys.erase src).erase dst, after key := by
      apply Finset.sum_le_sum
      intro key hkey
      by_contra hdec
      obtain ⟨dst', hcall, -⟩ := credited key (Nat.lt_of_not_le hdec)
      cases hcall
      simp at hkey
    rw [← Finset.add_sum_erase _ before hsrc, ← Finset.add_sum_erase _ after hsrc,
      ← Finset.add_sum_erase _ before hmem, ← Finset.add_sum_erase _ after hmem]
    omega

theorem keepsCost_iff_credited :
  KeepsCost call before after
    ↔ ∀ key, after key < before key →
      ∃ dst, call = .move key dst ∧ after dst = before dst + (before key - after key)
  := by
  constructor
  · apply KeepsCost.credited
  · intro credited
    use credited
    intro keys hkeys
    have := sum_le_of_credited credited hkeys
    omega

theorem keepsCost_refl (call : CostCall) (before : String → ℕ) :
  KeepsCost call before before
  := by
  rw [keepsCost_iff_credited]
  intro key hless
  exact absurd hless (lt_irrefl _)

/-- What is written under a key that nothing is moved from is no less than what was there. -/
theorem keepsCost_update_iff (hcall : ∀ other, call ≠ .move key other) :
  KeepsCost call before (Function.update before key n) ↔ before key ≤ n
  := by
  rw [keepsCost_iff_credited]
  constructor
  · intro h
    by_contra hless
    obtain ⟨other, hmove, -⟩ := h key (by rw [Function.update_self]; omega)
    exact hcall other hmove
  · intro hle k hless
    rw [Function.update_apply] at hless
    split at hless
    · next hk =>
        subst hk
        omega
    · exact absurd hless (lt_irrefl _)

/-- What is dropped under a key was credited to another. -/
theorem keepsCost_drop_iff (hne : src ≠ dst) (hsrc : before src ≠ 0) :
  KeepsCost (.move src dst) before (Function.update (Function.update before dst n) src 0)
    ↔ n = before dst + before src
  := by
  have hdst : Function.update (Function.update before dst n) src 0 dst = n := by
    rw [Function.update_of_ne hne.symm, Function.update_self]
  rw [keepsCost_iff_credited]
  constructor
  · intro h
    obtain ⟨other, hmove, hcredit⟩ := h src (by rw [Function.update_self]; omega)
    cases hmove
    rw [hdst, Function.update_self, Nat.sub_zero] at hcredit
    apply hcredit
  · intro hn k hless
    by_cases hk : k = src
    · subst hk
      use dst, rfl
      rw [hdst, Function.update_self, Nat.sub_zero, hn]
    · rw [Function.update_of_ne hk, Function.update_apply] at hless
      split at hless
      · next hkdst =>
          subst hkdst
          omega
      · exact absurd hless (lt_irrefl _)

end Keeps

section Calls

variable {fails : KvOp → Bool} {store : Kv} {src dst key : String} {delta : ℕ}

theorem keepsCost_add_iff :
  KeepsCost (.add key delta) (totals store)
      (totals (FailingKv.addSessionCost fails store key delta))
    ↔ Harmless store (.add key delta, fails)
  := by
  rw [totals_addSessionCost, Harmless]
  by_cases hnone : delta = 0 ∨ fails (.set (sessionCostKvPrefix ++ key))
  · rw [if_pos hnone]
    constructor
    · intro _ hdelta _ hset
      exact absurd hnone (not_or_intro hdelta hset)
    · intro _
      apply keepsCost_refl
  · rw [if_neg hnone, keepsCost_update_iff (by nofun), readTotal_eq]
    obtain ⟨hdelta, hset⟩ := not_or.mp hnone
    have hle := totals_le store key
    split
    · next hget =>
        rw [saturatingAdd, Nat.zero_add, le_min_iff]
        constructor
        · rintro ⟨h, -⟩ - - -
          apply h
        · intro h
          exact ⟨h hdelta hget hset, hle⟩
    · next hget =>
        rw [saturatingAdd, le_min_iff]
        constructor
        · intro _ _ hfails
          exact absurd hfails hget
        · intro _
          exact ⟨Nat.le_add_right _ _, hle⟩

/-- What a move that writes to `dst` keeps. -/
theorem keepsCost_credit_iff (hne : src ≠ dst) (hsrc : totals store src ≠ 0) :
  KeepsCost (.move src dst) (totals store)
      (let credited := Function.update (totals store) dst
        (saturatingAdd (FailingKv.readTotal fails store dst) (totals store src))
      if fails (.delete (sessionCostKvPrefix ++ src)) then credited
      else Function.update credited src 0)
    ↔ (fails (.get (sessionCostKvPrefix ++ dst)) → totals store dst ≤ totals store src)
      ∧ (¬fails (.delete (sessionCostKvPrefix ++ src)) →
        if fails (.get (sessionCostKvPrefix ++ dst)) then totals store dst = 0
        else totals store dst + totals store src ≤ u64Max)
  := by
  have hmove : ∀ other, CostCall.move src dst ≠ .move dst other := by
    intro other h
    cases h
    exact hne rfl
  have hsrcle := totals_le store src
  have hdstle := totals_le store dst
  dsimp only
  rw [readTotal_eq]
  by_cases hget : fails (.get (sessionCostKvPrefix ++ dst))
  · rw [if_pos hget, if_pos hget, saturatingAdd_zero_left hsrcle]
    split
    · next hdelete =>
        rw [keepsCost_update_iff hmove]
        simp [hget, hdelete]
    · next hdelete =>
        rw [keepsCost_drop_iff hne hsrc]
        constructor
        · intro h
          constructor
          · intro _
            omega
          · intro _
            omega
        · rintro ⟨-, hzero⟩
          rw [hzero hdelete, Nat.zero_add]
  · rw [if_neg hget, if_neg hget, saturatingAdd]
    split
    · next hdelete =>
        rw [keepsCost_update_iff hmove]
        simp [hget, hdelete, hdstle]
    · next hdelete =>
        rw [keepsCost_drop_iff hne hsrc, min_eq_left_iff]
        constructor
        · intro h
          exact ⟨fun hfails => absurd hfails hget, fun _ => h⟩
        · rintro ⟨-, hsum⟩
          apply hsum hdelete

theorem keepsCost_move_iff :
  KeepsCost (.move src dst) (totals store)
      (totals (FailingKv.moveSessionCost fails store src dst).1)
    ↔ Harmless store (.move src dst, fails)
  := by
  rw [totals_moveSessionCost, Harmless, readTotal_eq _ _ src]
  by_cases hsame : src = dst
  · rw [if_pos (Or.inl hsame)]
    constructor
    · intro _ hne
      exact absurd hsame hne
    · intro _
      apply keepsCost_refl
  · by_cases hget : fails (.get (sessionCostKvPrefix ++ src))
    · rw [if_pos hget, if_pos (Or.inr (Or.inl rfl))]
      constructor
      · intro _ _ hread
        exact absurd hget hread
      · intro _
        apply keepsCost_refl
    · rw [if_neg hget]
      by_cases hzero : totals store src = 0
      · rw [if_pos (Or.inr (Or.inl hzero))]
        constructor
        · intro _ _ _ hsome
          exact absurd hzero hsome
        · intro _
          apply keepsCost_refl
      · by_cases hset : fails (.set (sessionCostKvPrefix ++ dst))
        · rw [if_pos (Or.inr (Or.inr hset))]
          constructor
          · intro _ _ _ _ hwrite
            exact absurd hset hwrite
          · intro _
            apply keepsCost_refl
        · rw [if_neg (not_or_intro hsame (not_or_intro hzero hset)),
            keepsCost_credit_iff hsame hzero]
          constructor
          · intro h _ _ _ _
            apply h
          · intro h
            apply h hsame hget hzero hset

/-- A call keeps the cost that was accumulated if and only if its failures are harmless. -/
theorem keepsCost_iff_harmless (call : CostCall) (fails : KvOp → Bool) (store : Kv) :
  KeepsCost call (totals store) (totals (call.run fails store)) ↔ Harmless store (call, fails)
  := by
  cases call with
  | add key delta => apply keepsCost_add_iff
  | move src dst => apply keepsCost_move_iff

end Calls

/-- Every call of a run keeps the cost that was accumulated if and only if the failures of every
call are harmless. -/
theorem keeps_cost_iff_harmless (store : Kv) (calls : List (CostCall × (KvOp → Bool))) :
  metering.Along (fun store a => KeepsCost a.1 (totals store) (totals (metering.next store a)))
      store calls
    ↔ metering.Along Harmless store calls
  := by
  apply metering.along_congr_mem
  rintro store ⟨call, fails⟩ -
  apply keepsCost_iff_harmless

/-- A total of 500, of which a failed read leaves the 3 that are added. -/
theorem failed_read_drops_total :
  ∃ (store : Kv) (fails : KvOp → Bool),
    totals store "acme-widgets-7" = 500
      ∧ fails (.set (sessionCostKvPrefix ++ "acme-widgets-7")) = false
      ∧ totals (FailingKv.addSessionCost fails store "acme-widgets-7" 3) "acme-widgets-7" = 3
      ∧ ¬KeepsCost (.add "acme-widgets-7" 3) (totals store)
        (totals (FailingKv.addSessionCost fails store "acme-widgets-7" 3))
  := by
  use fun key => if key = "meter-cost:acme-widgets-7" then some "500" else none
  use fun op => op = .get "meter-cost:acme-widgets-7"
  have htotal : totals (fun key => if key = "meter-cost:acme-widgets-7" then some "500" else none)
      "acme-widgets-7" = 500 := by
    decide +kernel
  refine ⟨htotal, by decide +kernel, by decide +kernel, ?_⟩
  rw [keepsCost_add_iff, Harmless, htotal]
  intro h
  exact absurd (h (by decide) (by decide +kernel) (by decide +kernel)) (by decide)

end Lazybox
